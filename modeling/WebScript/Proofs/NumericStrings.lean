import WebScript.Proofs.FloatRange
import WebScript.Value.Convert

/-!
# Numeric strings

A number text is a sign that may be missing, digits with a point in them or not, and an exponent that
may be missing. Reading splits off the longest number text at the start of a text. So a string is
numeric just when it is a number text between blanks, and a string that is not numeric is used as
the longest number text behind its blanks, with a warning.
-/

namespace WebScript

/-! ## Number texts -/

/-- A sign as it is written; a plus sign may be left out. -/
inductive SpellsSign : Bool → List Char → Prop
  | missing : SpellsSign false []
  | plus : SpellsSign false ['+']
  | minus : SpellsSign true ['-']

/-- Characters are digits, of any script, with the given values. -/
def SpellsDigits (values : List Nat) (chars : List Char) : Prop :=
  List.Forall₂ (fun value c => digitValue? c = some value) values chars

/-- A point and the digits after it, of which there may be none; or neither. -/
inductive SpellsFraction : Option (List Nat) → List Char → Prop
  | missing : SpellsFraction none []
  | point {values : List Nat} {chars : List Char} (hdigits : SpellsDigits values chars) :
    SpellsFraction (some values) ('.' :: chars)

/-- A mark, a sign and at least one digit; or nothing. -/
inductive SpellsExponent : Option Int → List Char → Prop
  | missing : SpellsExponent none []
  | power {mark : Char} {negative : Bool} {values : List Nat} {sign chars : List Char}
    (hmark : mark = 'e' ∨ mark = 'E') (hsign : SpellsSign negative sign)
    (hdigits : SpellsDigits values chars) (hne : values ≠ []) :
    SpellsExponent (some (withSign negative (ofDigits 10 values))) (mark :: (sign ++ chars))

namespace NumberText

/-- There is a digit on at least one side of the point. -/
def HasDigit (text : NumberText) : Prop := text.whole ≠ [] ∨ text.fraction.getD [] ≠ []

/-- A number text as it is written. -/
inductive Spells : NumberText → List Char → Prop
  | mk {text : NumberText} {sign whole point power : List Char}
    (hsign : SpellsSign text.negative sign) (hwhole : SpellsDigits text.whole whole)
    (hpoint : SpellsFraction text.fraction point) (hpower : SpellsExponent text.exponent power)
    (hdigit : text.HasDigit) : Spells text (sign ++ (whole ++ (point ++ power)))

end NumberText

/-! ## Reading goes as far as it can -/

/-- What was split off a text, and what is left of it: just the given, or less is left. -/
def ReadsPast {α : Type} (value : α) (rest : List Char) (result : α × List Char) : Prop :=
  result = (value, rest) ∨ result.2.length < rest.length

section Digits

variable {values : List Nat} {chars : List Char}

/-- Where no digit stands, none are taken. -/
theorem takeDigits_cons_of_none {c : Char} (h : digitValue? c = none) (rest : List Char) :
    takeDigits (c :: rest) = ([], c :: rest) := by
  simp only [takeDigits, h]

/-- Digits in front are read before those that follow. -/
theorem takeDigits_append (h : SpellsDigits values chars) (text : List Char) :
    takeDigits (chars ++ text) = (values ++ (takeDigits text).1, (takeDigits text).2) := by
  induction h with
  | nil => rfl
  | cons hvalue _ ih => simp only [List.cons_append, takeDigits, hvalue, ih]

/-- The digits that are taken from a text are spelled by its beginning. -/
theorem exists_spellsDigits (text : List Char) :
    ∃ chars, text = chars ++ (takeDigits text).2 ∧ SpellsDigits (takeDigits text).1 chars := by
  induction text with
  | nil => exact ⟨[], rfl, .nil⟩
  | cons c rest ih =>
    cases hvalue : digitValue? c with
    | none =>
      rw [takeDigits_cons_of_none hvalue]
      exact ⟨[], rfl, .nil⟩
    | some value =>
      obtain ⟨chars, hchars, hdigits⟩ := ih
      simp only [takeDigits, hvalue]
      exact ⟨c :: chars, congrArg (c :: ·) hchars, .cons hvalue hdigits⟩

/-- Taking digits takes none or makes the text shorter. -/
theorem readsPast_takeDigits (text : List Char) : ReadsPast [] text (takeDigits text) := by
  obtain ⟨chars, htext, hdigits⟩ := exists_spellsDigits text
  cases hread : takeDigits text with
  | mk values rest =>
    rw [hread] at htext hdigits
    cases hdigits with
    | nil => exact Or.inl (congrArg (Prod.mk []) htext.symm)
    | cons _ _ =>
      have hlength := congrArg List.length htext
      simp only [List.length_append, List.length_cons] at hlength
      refine Or.inr ?_
      dsimp only
      omega

theorem ne_nil_of_takeDigits_lt {text : List Char}
    (h : (takeDigits text).2.length < text.length) : (takeDigits text).1 ≠ [] := by
  obtain ⟨chars, htext, hdigits⟩ := exists_spellsDigits text
  intro hnil
  rw [hnil, SpellsDigits, List.forall₂_nil_left_iff] at hdigits
  rw [hdigits, List.nil_append] at htext
  exact Nat.ne_of_lt h (congrArg List.length htext.symm)

end Digits

theorem ReadsPast.length_le {α : Type} {value : α} {rest : List Char} {result : α × List Char}
    (h : ReadsPast value rest result) : result.2.length ≤ rest.length := by
  rcases h with rfl | h
  · exact Nat.le_refl _
  · exact Nat.le_of_lt h

section Sign

/-- A character that is no sign. -/
def IsNoSign (c : Char) : Prop := c ≠ '-' ∧ c ≠ '+'

/-- A sign is taken from before anything that is not another sign. -/
theorem takeSign_append {negative : Bool} {sign text : List Char} (h : SpellsSign negative sign)
    (htext : ∀ c ∈ text.head?, IsNoSign c) : takeSign (sign ++ text) = (negative, text) := by
  cases h with
  | missing =>
    rw [List.nil_append]
    unfold takeSign
    split
    · exact absurd rfl (htext '-' rfl).1
    · exact absurd rfl (htext '+' rfl).2
    · rfl
  | plus => rfl
  | minus => rfl

/-- The sign that is taken from a text is spelled by its beginning, or there is none. -/
theorem exists_spellsSign (text : List Char) :
    ∃ sign, text = sign ++ (takeSign text).2 ∧ SpellsSign (takeSign text).1 sign := by
  unfold takeSign
  split
  · exact ⟨['-'], rfl, .minus⟩
  · exact ⟨['+'], rfl, .plus⟩
  · exact ⟨[], rfl, .missing⟩

theorem isNoSign_of_digit {c : Char} {value : Nat} (h : digitValue? c = some value) :
    IsNoSign c := by
  have hminus : digitValue? '-' = none := by decide
  have hplus : digitValue? '+' = none := by decide
  constructor
  · rintro rfl
    cases hminus.symm.trans h
  · rintro rfl
    cases hplus.symm.trans h

theorem SpellsDigits.isNoSign {values : List Nat} {chars : List Char}
    (h : SpellsDigits values chars) (hne : values ≠ []) (more : List Char) :
    ∀ c ∈ (chars ++ more).head?, IsNoSign c := by
  cases h with
  | nil => exact absurd rfl hne
  | cons hvalue _ =>
    rintro c ⟨⟩
    exact isNoSign_of_digit hvalue

end Sign

section Exponent

variable {exponent : Option Int} {chars : List Char}

/-- An exponent is taken from the start of any text, or a longer one that begins with it. -/
theorem takeExponent_append (h : SpellsExponent exponent chars) (text : List Char) :
    ReadsPast exponent text (takeExponent (chars ++ text)) := by
  cases h with
  | missing =>
    rw [List.nil_append]
    cases text with
    | nil => exact Or.inl rfl
    | cons mark afterMark =>
      unfold takeExponent
      dsimp only
      split_ifs
      · obtain ⟨sign, htext, -⟩ := exists_spellsSign afterMark
        have hsign := congrArg List.length htext
        have hdigits := (readsPast_takeDigits (takeSign afterMark).2).length_le
        split
        · exact Or.inl rfl
        · rename_i hread
          rw [hread] at hdigits
          refine Or.inr ?_
          simp only [List.length_append, List.length_cons] at hsign hdigits ⊢
          omega
      · exact Or.inl rfl
  | @power mark negative values sign chars hmark hsign hdigits hne =>
    have hmark : (mark = 'e' || mark = 'E') = true := by simpa using hmark
    have hread : takeExponent (mark :: (sign ++ chars) ++ text) =
        (some (withSign negative (ofDigits 10 (values ++ (takeDigits text).1))),
          (takeDigits text).2) := by
      rw [List.cons_append, List.append_assoc]
      unfold takeExponent
      dsimp only
      rw [if_pos hmark, takeSign_append hsign (hdigits.isNoSign hne text),
        takeDigits_append hdigits]
      dsimp only
      split
      · rename_i hnil
        exact absurd (List.append_eq_nil_iff.mp (Prod.mk.inj hnil).1).1 hne
      · rename_i hread
        obtain ⟨rfl, rfl⟩ := Prod.mk.inj hread
        rfl
    rw [hread]
    rcases readsPast_takeDigits text with h | h
    · left
      rw [h, List.append_nil]
    · exact Or.inr h

/-- The exponent that is taken from a text is spelled by its beginning, or there is none. -/
theorem exists_spellsExponent (text : List Char) :
    ∃ chars, text = chars ++ (takeExponent text).2 ∧
      SpellsExponent (takeExponent text).1 chars := by
  cases text with
  | nil => exact ⟨[], rfl, .missing⟩
  | cons mark afterMark =>
    unfold takeExponent
    dsimp only
    split_ifs with hmark
    · obtain ⟨sign, hsign, hspells⟩ := exists_spellsSign afterMark
      obtain ⟨chars, hchars, hdigits⟩ := exists_spellsDigits (takeSign afterMark).2
      split
      · exact ⟨[], rfl, .missing⟩
      · rename_i digits others hne hread
        rw [hread] at hchars hdigits
        refine ⟨mark :: (sign ++ chars), ?_, .power (by simpa using hmark) hspells hdigits hne⟩
        dsimp only at hchars ⊢
        rw [List.cons_append, List.append_assoc, ← hchars, ← hsign]
    · exact ⟨[], rfl, .missing⟩

theorem SpellsExponent.eq_nil_or (h : SpellsExponent exponent chars) :
    (exponent = none ∧ chars = []) ∨
      ∃ mark rest, chars = mark :: rest ∧ (mark = 'e' ∨ mark = 'E') := by
  cases h with
  | missing => exact Or.inl ⟨rfl, rfl⟩
  | power hmark _ _ _ => exact Or.inr ⟨_, _, rfl, hmark⟩

end Exponent

section Fraction

variable {whole : List Nat} {fraction : Option (List Nat)} {exponent : Option Int}
variable {point power : List Char}

/-- Splits off a point and the digits after it, where the given digits stand before it. -/
def takeFraction (whole : List Nat) (text : List Char) : Option (List Nat) × List Char :=
  match text with
  | '.' :: afterPoint =>
    match takeDigits afterPoint with
    | ([], rest) => if whole.isEmpty then (none, text) else (some [], rest)
    | (digits, rest) => (some digits, rest)
  | _ => (none, text)

theorem takeFraction_of_no_point {text : List Char} (h : ∀ c ∈ text.head?, c ≠ '.')
    (whole : List Nat) : takeFraction whole text = (none, text) := by
  unfold takeFraction
  split
  · exact absurd rfl (h '.' rfl)
  · rfl

theorem takeFraction_cons_point (whole : List Nat) (text : List Char) :
    takeFraction whole ('.' :: text) =
      if whole = [] ∧ (takeDigits text).1 = [] then (none, '.' :: text)
      else (some (takeDigits text).1, (takeDigits text).2) := by
  show (match takeDigits text with
    | ([], rest) => if whole.isEmpty then (none, '.' :: text) else (some [], rest)
    | (digits, rest) => (some digits, rest)) = _
  cases takeDigits text with
  | mk values rest => cases values <;> simp

/-- A point without digits on either side is no part of a number text. -/
theorem exists_spellsFraction (whole : List Nat) (text : List Char) :
    ∃ point, text = point ++ (takeFraction whole text).2 ∧
      SpellsFraction (takeFraction whole text).1 point ∧
      (whole = [] → (takeFraction whole text).1 ≠ some []) := by
  cases text with
  | nil => exact ⟨[], rfl, .missing, nofun⟩
  | cons c afterPoint =>
    by_cases hpoint : c = '.'
    · subst hpoint
      obtain ⟨chars, hchars, hdigits⟩ := exists_spellsDigits afterPoint
      rw [takeFraction_cons_point]
      split_ifs with hlone
      · exact ⟨[], rfl, .missing, nofun⟩
      · refine ⟨'.' :: chars, congrArg ('.' :: ·) hchars, .point hdigits, fun hwhole hnil => ?_⟩
        exact hlone ⟨hwhole, Option.some.inj hnil⟩
    · rw [takeFraction_of_no_point (by simpa using hpoint)]
      exact ⟨[], rfl, .missing, nofun⟩

/-- At an exponent, or its absence, more digits can only be taken from the text behind it. -/
theorem takeDigits_exponent (h : SpellsExponent exponent power) (text : List Char) :
    takeDigits (power ++ text) = ([], power ++ text) ∨
      (takeDigits (power ++ text)).2.length < text.length := by
  rcases h.eq_nil_or with ⟨-, rfl⟩ | ⟨mark, rest, rfl, hmark⟩
  · exact readsPast_takeDigits text
  · have hnone : digitValue? mark = none := by
      rcases hmark with rfl | rfl <;> decide
    exact Or.inl (takeDigits_cons_of_none hnone _)

/-- At a fraction and an exponent, or their absence, more digits can only be taken from the text
    behind them. -/
theorem takeDigits_fraction (hpoint : SpellsFraction fraction point)
    (hpower : SpellsExponent exponent power) (text : List Char) :
    takeDigits (point ++ (power ++ text)) = ([], point ++ (power ++ text)) ∨
      (takeDigits (point ++ (power ++ text))).2.length < text.length := by
  cases hpoint with
  | missing => exact takeDigits_exponent hpower text
  | point _ => exact Or.inl (takeDigits_cons_of_none (by decide) _)

/-- Behind a number text that has no point, a point and digits may still be read. -/
theorem readsPast_takeFraction (whole : List Nat) (text : List Char) :
    ReadsPast none text (takeFraction whole text) := by
  obtain ⟨point, htext, hpoint, -⟩ := exists_spellsFraction whole text
  cases hread : takeFraction whole text with
  | mk fraction rest =>
    rw [hread] at htext hpoint
    cases hpoint with
    | missing => exact Or.inl (congrArg (Prod.mk none) htext.symm)
    | point _ =>
      have hlength := congrArg List.length htext
      simp only [List.length_append, List.length_cons] at hlength
      refine Or.inr ?_
      dsimp only
      omega

theorem ne_none_of_takeFraction_lt {text : List Char}
    (h : (takeFraction whole text).2.length < text.length) :
    (takeFraction whole text).1 ≠ none := by
  obtain ⟨point, htext, hpoint, -⟩ := exists_spellsFraction whole text
  intro hnone
  rw [hnone] at hpoint
  cases hpoint
  exact Nat.ne_of_lt h (congrArg List.length htext.symm)

/-- A fraction is taken as it is spelled, unless the text behind it makes it longer. -/
theorem takeFraction_append (hpoint : SpellsFraction fraction point)
    (hpower : SpellsExponent exponent power) (hdigit : whole ≠ [] ∨ fraction.getD [] ≠ [])
    (text : List Char) :
    takeFraction whole (point ++ (power ++ text)) = (fraction, power ++ text) ∨
      (takeFraction whole (point ++ (power ++ text))).2.length < text.length := by
  cases hpoint with
  | missing =>
    rcases hpower.eq_nil_or with ⟨-, rfl⟩ | ⟨mark, rest, rfl, hmark⟩
    · exact readsPast_takeFraction whole text
    · refine Or.inl (takeFraction_of_no_point ?_ whole)
      rintro c ⟨⟩
      rcases hmark with rfl | rfl <;> decide
  | @point values chars hdigits =>
    have hread := takeDigits_append hdigits (power ++ text)
    have hlone : ¬(whole = [] ∧ values ++ (takeDigits (power ++ text)).1 = []) := fun h =>
      hdigit.elim (fun hne => hne h.1) fun hne => hne (List.append_eq_nil_iff.mp h.2).1
    rw [List.cons_append, takeFraction_cons_point, hread, if_neg hlone]
    rcases takeDigits_exponent hpower text with h | h
    · left
      rw [h, List.append_nil]
    · exact Or.inr h

end Fraction

namespace NumberText

variable {text : NumberText} {chars : List Char}

/-- Splits off what follows the digits at the start of a number text. -/
def takeFrom (negative : Bool) (digits : List Nat × List Char) :
    Option (NumberText × List Char) :=
  let fraction := takeFraction digits.1 digits.2
  let exponent := takeExponent fraction.2
  if digits.1.isEmpty && fraction.1.isNone then none
  else some (⟨negative, digits.1, fraction.1, exponent.1⟩, exponent.2)

theorem take?_eq (chars : List Char) :
    take? chars = takeFrom (takeSign chars).1 (takeDigits (takeSign chars).2) := rfl

/-- What is split off a text is a number text, and the rest is left. -/
theorem spells_of_take? {rest : List Char} (h : take? chars = some (text, rest)) :
    ∃ spelled, chars = spelled ++ rest ∧ text.Spells spelled := by
  obtain ⟨sign, hchars, hsign⟩ := exists_spellsSign chars
  obtain ⟨whole, hunsigned, hwhole⟩ := exists_spellsDigits (takeSign chars).2
  rw [take?_eq] at h
  generalize takeDigits (takeSign chars).2 = digits at h hunsigned hwhole
  obtain ⟨point, hafter, hpoint, hlone⟩ := exists_spellsFraction digits.1 digits.2
  obtain ⟨power, hlast, hpower⟩ := exists_spellsExponent (takeFraction digits.1 digits.2).2
  unfold takeFrom at h
  dsimp only at h
  split_ifs at h with hempty
  cases h
  refine ⟨sign ++ (whole ++ (point ++ power)), ?_, .mk hsign hwhole hpoint hpower ?_⟩
  · simp only [List.append_assoc]
    rw [← hlast, ← hafter, ← hunsigned, ← hchars]
  · by_cases hwhole : digits.1 = []
    · refine Or.inr fun hnone => ?_
      cases hfraction : (takeFraction digits.1 digits.2).1 with
      | none =>
        rw [hfraction, List.isEmpty_iff.mpr hwhole] at hempty
        exact hempty rfl
      | some values =>
        rw [hfraction] at hnone
        exact hlone hwhole (hfraction.trans (congrArg some hnone))
    · exact Or.inl hwhole

theorem HasDigit.isNoSign {whole point : List Char} (h : text.HasDigit)
    (hwhole : SpellsDigits text.whole whole) (hpoint : SpellsFraction text.fraction point)
    (more : List Char) : ∀ c ∈ (whole ++ (point ++ more)).head?, IsNoSign c := by
  by_cases hne : text.whole = []
  · unfold SpellsDigits at hwhole
    rw [hne, List.forall₂_nil_left_iff] at hwhole
    subst hwhole
    generalize hfraction : text.fraction = fraction at hpoint
    cases hpoint with
    | missing => exact (h.resolve_left (not_not.mpr hne) (by rw [hfraction]; rfl)).elim
    | point hdigits =>
      rintro c ⟨⟩
      exact ⟨by decide, by decide⟩
  · exact hwhole.isNoSign hne _

/-- Digits before the point or a point are enough for a number text, and it goes at least as far as
    they do. -/
theorem exists_takeFrom_of_lt (negative : Bool) {whole : List Nat} {rest more : List Char}
    (hdigit : whole ≠ [] ∨ (takeFraction whole rest).1 ≠ none)
    (h : (takeFraction whole rest).2.length < more.length) :
    ∃ result, takeFrom negative (whole, rest) = some result ∧ result.2.length < more.length := by
  have hempty : ¬(whole.isEmpty && (takeFraction whole rest).1.isNone) = true := by
    simpa [imp_iff_not_or] using hdigit
  refine ⟨_, if_neg hempty, ?_⟩
  obtain ⟨power, htext, -⟩ := exists_spellsExponent (takeFraction whole rest).2
  have hlength := congrArg List.length htext
  rw [List.length_append] at hlength
  dsimp only
  omega

/-- Behind a number text reading goes on, or it has read the number text. -/
theorem Spells.take? (h : text.Spells chars) (more : List Char) :
    ∃ result, NumberText.take? (chars ++ more) = some result ∧ ReadsPast text more result := by
  cases h with
  | @mk sign whole point power hsign hwhole hpoint hpower hdigit =>
    simp only [List.append_assoc]
    rw [take?_eq, takeSign_append hsign (hdigit.isNoSign hwhole hpoint _),
      takeDigits_append hwhole]
    dsimp only
    have hlength : more.length ≤ (point ++ (power ++ more)).length := by
      simp only [List.length_append]
      omega
    rcases takeDigits_fraction hpoint hpower more with hdigits | hdigits
    · rw [hdigits, List.append_nil]
      rcases takeFraction_append hpoint hpower hdigit more with hfraction | hfraction
      · have hempty : ¬(text.whole.isEmpty && text.fraction.isNone) = true := by
          intro hempty
          simp only [Bool.and_eq_true, List.isEmpty_iff, Option.isNone_iff_eq_none] at hempty
          exact hdigit.elim (fun hne => hne hempty.1) fun hne => hne (by rw [hempty.2]; rfl)
        unfold takeFrom
        dsimp only
        rw [hfraction, if_neg hempty]
        refine ⟨_, rfl, ?_⟩
        rcases takeExponent_append hpower more with hexponent | hexponent
        · left
          rw [hexponent]
        · exact Or.inr hexponent
      · have hne := ne_none_of_takeFraction_lt (Nat.lt_of_lt_of_le hfraction hlength)
        obtain ⟨result, htake, hless⟩ :=
          exists_takeFrom_of_lt text.negative (Or.inr hne) hfraction
        exact ⟨result, htake, Or.inr hless⟩
    · have hne := ne_nil_of_takeDigits_lt (Nat.lt_of_lt_of_le hdigits hlength)
      have hfraction := (readsPast_takeFraction
        (text.whole ++ (takeDigits (point ++ (power ++ more))).1)
        (takeDigits (point ++ (power ++ more))).2).length_le
      obtain ⟨result, htake, hless⟩ := exists_takeFrom_of_lt text.negative
        (Or.inl fun hnil => hne (List.append_eq_nil_iff.mp hnil).2)
        (Nat.lt_of_le_of_lt hfraction hdigits)
      exact ⟨result, htake, Or.inr hless⟩

end NumberText

/-! ## Blanks -/

theorem digitValue?_of_blank {c : Char} (h : isNumericBlank c) : digitValue? c = none := by
  simp only [isNumericBlank, Bool.or_eq_true, decide_eq_true_eq] at h
  rcases h with ((((rfl | rfl) | rfl) | rfl) | rfl) | rfl <;> decide

/-- Characters that may not stand around a number text. -/
def HoldsNoBlank (chars : List Char) : Prop := ∀ c ∈ chars, isNumericBlank c = false

section HoldsNoBlank

variable {chars : List Char}

theorem HoldsNoBlank.append {first second : List Char} (hfirst : HoldsNoBlank first)
    (hsecond : HoldsNoBlank second) : HoldsNoBlank (first ++ second) := fun c hc =>
  (List.mem_append.mp hc).elim (hfirst c) (hsecond c)

theorem HoldsNoBlank.cons {c : Char} (hc : isNumericBlank c = false) (h : HoldsNoBlank chars) :
    HoldsNoBlank (c :: chars) :=
  List.forall_mem_cons.mpr ⟨hc, h⟩

theorem SpellsSign.holdsNoBlank {negative : Bool} (h : SpellsSign negative chars) :
    HoldsNoBlank chars := by
  cases h with
  | missing => exact nofun
  | plus => exact HoldsNoBlank.cons (by decide) nofun
  | minus => exact HoldsNoBlank.cons (by decide) nofun

theorem SpellsDigits.holdsNoBlank {values : List Nat} (h : SpellsDigits values chars) :
    HoldsNoBlank chars := by
  induction h with
  | nil => exact nofun
  | @cons value c values chars hvalue _ ih =>
    refine HoldsNoBlank.cons (Bool.eq_false_iff.mpr fun hblank => ?_) ih
    cases (digitValue?_of_blank hblank).symm.trans hvalue

theorem SpellsFraction.holdsNoBlank {fraction : Option (List Nat)}
    (h : SpellsFraction fraction chars) : HoldsNoBlank chars := by
  cases h with
  | missing => exact nofun
  | point hdigits => exact HoldsNoBlank.cons (by decide) hdigits.holdsNoBlank

theorem SpellsExponent.holdsNoBlank {exponent : Option Int} (h : SpellsExponent exponent chars) :
    HoldsNoBlank chars := by
  cases h with
  | missing => exact nofun
  | power hmark hsign hdigits hne =>
    refine HoldsNoBlank.cons ?_ (hsign.holdsNoBlank.append hdigits.holdsNoBlank)
    rcases hmark with rfl | rfl <;> decide

end HoldsNoBlank

namespace NumberText

variable {text : NumberText} {chars : List Char} {s : String}

/-- There are no blanks inside a number text. -/
theorem Spells.holdsNoBlank (h : text.Spells chars) : HoldsNoBlank chars := by
  cases h with
  | mk hsign hwhole hpoint hpower hdigit =>
    exact hsign.holdsNoBlank.append
      (hwhole.holdsNoBlank.append (hpoint.holdsNoBlank.append hpower.holdsNoBlank))

theorem Spells.ne_nil (h : text.Spells chars) : chars ≠ [] := by
  rintro rfl
  obtain ⟨result, htake, -⟩ := h.take? []
  cases htake

/-! ## Strings that are number texts -/

/-- A number text fills a string but for blanks around it. -/
def Fills (text : NumberText) (s : String) : Prop :=
  ∃ before spelled after, s.toList = before ++ (spelled ++ after) ∧ text.Spells spelled ∧
    (∀ c ∈ before, isNumericBlank c) ∧ ∀ c ∈ after, isNumericBlank c

/-- The number texts at the start of a text have at most the given number of characters. -/
def NoneLonger (chars : List Char) (size : Nat) : Prop :=
  ∀ (other : NumberText) (front : List Char), front <+: chars → other.Spells front →
    front.length ≤ size

/-- A number text is the longest one at the start of a text. -/
def LongestAt (text : NumberText) (chars : List Char) : Prop :=
  ∃ spelled, spelled <+: chars ∧ text.Spells spelled ∧ NoneLonger chars spelled.length

/-- What is taken from the start of a text is the longest number text there. -/
theorem take?_iff {rest : List Char} :
    take? chars = some (text, rest) ↔ ∃ spelled, chars = spelled ++ rest ∧ text.Spells spelled ∧
      NoneLonger chars spelled.length := by
  constructor
  · intro h
    obtain ⟨spelled, hchars, hspells⟩ := spells_of_take? h
    refine ⟨spelled, hchars, hspells, fun other front hfront hother => ?_⟩
    obtain ⟨more, hmore⟩ := hfront
    obtain ⟨result, htake, hpast⟩ := hother.take? more
    rw [hmore, h] at htake
    cases htake
    have hrest : rest.length ≤ more.length := hpast.length_le
    have hlength := congrArg List.length (hmore.trans hchars)
    simp only [List.length_append] at hlength
    omega
  · rintro ⟨spelled, rfl, hspells, hlongest⟩
    obtain ⟨⟨other, left⟩, htake, hpast⟩ := hspells.take? rest
    rw [htake]
    rcases hpast with heq | hless
    · exact congrArg some heq
    · obtain ⟨front, hfront, hother⟩ := spells_of_take? htake
      have hle := hlongest other front ⟨left, hfront.symm⟩ hother
      have hlength := congrArg List.length hfront
      simp only [List.length_append] at hlength hless
      omega

theorem longestAt_iff : text.LongestAt chars ↔ ∃ rest, take? chars = some (text, rest) := by
  constructor
  · rintro ⟨spelled, ⟨rest, hchars⟩, h⟩
    exact ⟨rest, take?_iff.mpr ⟨spelled, hchars.symm, h⟩⟩
  · rintro ⟨rest, h⟩
    obtain ⟨spelled, hchars, h⟩ := take?_iff.mp h
    exact ⟨spelled, ⟨rest, hchars.symm⟩, h⟩

/-- Behind a number text and blanks nothing more is read. -/
theorem Spells.take?_blanks {after : List Char} (h : text.Spells chars)
    (hafter : ∀ c ∈ after, isNumericBlank c) :
    NumberText.take? (chars ++ after) = some (text, after) := by
  refine take?_iff.mpr ⟨chars, rfl, h, fun other front hfront hother => ?_⟩
  refine Nat.not_lt.mp fun hlt => ?_
  obtain ⟨more, hmore⟩ := hfront
  rcases List.append_eq_append_iff.mp hmore with ⟨gap, hchars, -⟩ | ⟨gap, hfront, hgap⟩
  · have hlength := congrArg List.length hchars
    rw [List.length_append] at hlength
    omega
  · cases gap with
    | nil =>
      rw [hfront, List.append_nil] at hlt
      exact Nat.lt_irrefl _ hlt
    | cons c rest =>
      have hblank := hafter c (by rw [hgap]; exact List.mem_cons_self)
      have hnone := hother.holdsNoBlank c
        (by rw [hfront]; exact List.mem_append_right _ List.mem_cons_self)
      cases hnone.symm.trans hblank

/-- A string is read as a number text if it is one up to blanks at its ends. -/
theorem ofString?_eq_some_iff : ofString? s = some text ↔ text.Fills s := by
  unfold ofString?
  constructor
  · intro h
    split at h
    · rename_i number rest htake
      split_ifs at h with hblank
      cases h
      obtain ⟨spelled, hspelled, hspells⟩ := spells_of_take? htake
      refine ⟨s.toList.takeWhile isNumericBlank, spelled, rest, ?_, hspells,
        fun c hc => List.mem_takeWhile_imp hc, List.all_eq_true.mp hblank⟩
      rw [← hspelled, List.takeWhile_append_dropWhile]
    · cases h
  · rintro ⟨before, spelled, after, hs, hspells, hbefore, hafter⟩
    have hdrop : s.toList.dropWhile isNumericBlank = spelled ++ after := by
      rw [hs, List.dropWhile_append_of_pos hbefore]
      obtain ⟨c, rest, rfl⟩ := List.exists_cons_of_ne_nil hspells.ne_nil
      rw [List.cons_append, List.dropWhile_cons_of_neg]
      rw [hspells.holdsNoBlank c List.mem_cons_self]
      decide
    rw [hdrop, hspells.take?_blanks hafter]
    dsimp only
    rw [if_pos (List.all_eq_true.mpr hafter)]

/-- The number text at the start of a string is the longest one behind the blanks there. -/
theorem leading?_eq_some_iff :
    leading? s = some text ↔ text.LongestAt (s.toList.dropWhile isNumericBlank) := by
  rw [longestAt_iff, leading?, Option.map_eq_some_iff]
  constructor
  · rintro ⟨⟨_, rest⟩, htake, rfl⟩
    exact ⟨rest, htake⟩
  · rintro ⟨rest, htake⟩
    exact ⟨(text, rest), htake, rfl⟩

/-! ## The number that a number text denotes -/

/-- A number text has neither a point nor an exponent. -/
def IsInteger (text : NumberText) : Prop := text.fraction = none ∧ text.exponent = none

/-- The integer that the digits and the sign of a number text denote without a point. -/
def integer (text : NumberText) : Int := withSign text.negative (ofDigits 10 text.whole)

/-- The float nearest to what a number text denotes: its digits without the point, times a power of
    ten. Beyond the range of floats that is an infinity. -/
def nearest (text : NumberText) : Float :=
  let digits := text.fraction.getD []
  let quotient := scaleTen (ofDigits 10 (text.whole ++ digits)) 1
    (text.exponent.getD 0 - digits.length)
  floatOfBits text.negative (min infinityBits (nearestBits quotient.1 quotient.2))

/-- A number text without a point and an exponent denotes an integer, if it is not too long to be
    read. -/
theorem value_of_isInteger (h : text.IsInteger) :
    text.value =
      if maxDecimalDigits < text.whole.length then .error .digits
      else Number.ofInt text.integer := by
  unfold value
  rw [h.1, h.2]
  rfl

/-- A number text with a point or an exponent denotes the nearest float. -/
theorem value_of_not_isInteger (h : ¬text.IsInteger) : text.value = .ok (.float text.nearest) := by
  unfold value nearest
  split
  · rename_i hfraction hexponent
    exact absurd ⟨hfraction, hexponent⟩ h
  · dsimp only
    rw [floatOfDecimal, nearestDecimalBits_eq]

end NumberText

/-- The strings that count as numeric are the number texts, up to blanks at their ends. -/
theorem isNumericString_iff (s : String) :
    isNumericString s ↔ ∃ text : NumberText, text.Fills s := by
  simp only [isNumericString, Option.isSome_iff_exists, NumberText.ofString?_eq_some_iff]

theorem ofString?_eq_none_iff (s : String) :
    NumberText.ofString? s = none ↔ ¬∃ text : NumberText, text.Fills s := by
  rw [← isNumericString_iff, isNumericString]
  simp

/-- A numeric string is read as the number that its number text denotes. -/
theorem parseNumeric_of_fills {text : NumberText} {s : String} (h : text.Fills s) :
    parseNumeric s = some <$> text.value := by
  rw [parseNumeric, NumberText.ofString?_eq_some_iff.mpr h]

/-- A numeric string is converted to its number without a warning. -/
theorem Value.toNumber_of_fills {text : NumberText} {s : String} (h : text.Fills s) :
    (Value.str s).toNumber = .ofLimit (some <$> text.value) := by
  rw [Value.toNumber, NumberText.ofString?_eq_some_iff.mpr h]

/-- A string is numeric just when it is a number text between blanks. It is then the integer that
    the number text denotes, or the nearest float if that does not fit, when there is neither a
    point nor an exponent, and the nearest float otherwise; as an operand it is the same number. A
    string that is not numeric is used as the longest number text behind its blanks, with one
    warning, and is no number, without a warning, if there is none. -/
theorem numeric_strings_recognised (s : String) :
    (isNumericString s ↔ ∃ text : NumberText, text.Fills s) ∧
    (parseNumeric s = .ok none ↔ ¬∃ text : NumberText, text.Fills s) ∧
    (∀ text : NumberText,
      (text.IsInteger → text.value =
        if maxDecimalDigits < text.whole.length then .error .digits
        else Number.ofInt text.integer) ∧
      (¬text.IsInteger → text.value = .ok (.float text.nearest))) ∧
    (∀ text : NumberText, text.Fills s →
      parseNumeric s = some <$> text.value ∧
      (Value.str s).toNumber = .ofLimit (some <$> text.value)) ∧
    ((¬∃ text : NumberText, text.Fills s) →
      (∀ text : NumberText, text.LongestAt (s.toList.dropWhile isNumericBlank) →
        (Value.str s).toNumber = ⟨[.nonNumeric s], (some <$> text.value).mapError .limit⟩) ∧
      ((¬∃ text : NumberText, text.LongestAt (s.toList.dropWhile isNumericBlank)) →
        (Value.str s).toNumber = pure none)) := by
  refine ⟨isNumericString_iff s, ?_, fun text =>
    ⟨NumberText.value_of_isInteger, NumberText.value_of_not_isInteger⟩, fun text htext =>
    ⟨parseNumeric_of_fills htext, Value.toNumber_of_fills htext⟩, fun hnone => ?_⟩
  · constructor
    · rintro h ⟨text, htext⟩
      rw [parseNumeric_of_fills htext] at h
      cases hvalue : text.value with
      | ok number =>
        rw [hvalue] at h
        cases h
      | error limit =>
        rw [hvalue] at h
        cases h
    · intro h
      rw [parseNumeric, (ofString?_eq_none_iff s).mpr h]
  · have hnone := (ofString?_eq_none_iff s).mpr hnone
    refine ⟨fun text htext => ?_, fun hleading => ?_⟩
    · rw [Value.toNumber, hnone, NumberText.leading?_eq_some_iff.mpr htext]
      rfl
    · have hleading : NumberText.leading? s = none := by
        rw [Option.eq_none_iff_forall_ne_some]
        exact fun text htext => hleading ⟨text, NumberText.leading?_eq_some_iff.mp htext⟩
      rw [Value.toNumber, hnone, hleading]

/-- The exponent of `"7e+"` is cut short, so it is no part of the number. -/
theorem numeric_strings_recognised_cut_exponent :
    (¬∃ text : NumberText, text.Fills "7e+") ∧
      NumberText.LongestAt ⟨false, [7], none, none⟩ ("7e+".toList.dropWhile isNumericBlank) ∧
      (Value.str "7e+").toNumber = ⟨[.nonNumeric "7e+"], .ok (some (.int 7))⟩ := by
  have hnone : ¬∃ text : NumberText, text.Fills "7e+" :=
    (numeric_strings_recognised "7e+").1.not.mp (by decide)
  have hlongest : NumberText.LongestAt ⟨false, [7], none, none⟩
      ("7e+".toList.dropWhile isNumericBlank) :=
    NumberText.longestAt_iff.mpr ⟨['e', '+'], by decide⟩
  exact ⟨hnone, hlongest,
    ((numeric_strings_recognised "7e+").2.2.2.2 hnone).1 _ hlongest⟩

end WebScript
