import Mathlib
import WebScript.Node.Listing

/-!
# The lines of a listing

A listing is written without quotes or escapes, so its lines can only be told apart by what may
stand at each place. Some parts of a node are texts and all others are trees (`slotOf`). A text is
exactly the rest of its line. The first line of a tree says whether it is a row, a node or missing,
and its closing line says where it ends, so the lines of a tree can be told from whatever lines
follow them (`Legible.delimited`). Texts without line ends keep to their lines; the text of a
listing then shows one tree only (`Legible.render_inj`).
-/

namespace WebScript

namespace Listing

/-! ## Legible trees -/

/-- What stands at a place of a tree: a text that is shown as it is, or a tree. -/
inductive Slot where
  | text
  | tree

/-- What the part of a node is, given the name of the node and of the part. -/
def slotOf (name label : String) : Slot :=
  if label ∈ ["name", "value_var", "key_var", "once", "fatal"] ∨
      label = "value" ∧ name ∈ ["Scalar_String", "Scalar_Int", "Scalar_Float"] then .text
  else .tree

/-- A name that can be told from what follows it on its line. -/
def IsLabel (label : String) : Prop := ':' ∉ label.toList ∧ '\n' ∉ label.toList

instance (label : String) : Decidable (IsLabel label) := inferInstanceAs (Decidable (_ ∧ _))

/-- A name that a node can have: it is not the word for a row. -/
def IsNodeName (name : String) : Prop := IsLabel name ∧ name ≠ "array"

instance (name : String) : Decidable (IsNodeName name) := inferInstanceAs (Decidable (_ ∧ _))

/-- Trees that can be read back from their lines, by what stands at their places. Instead of a tree
    there may be the mark for a missing one. -/
inductive Legible : Slot → Listing → Prop where
  | text {text : String} (hline : '\n' ∉ text.toList) : Legible .text (.scalar text)
  | missing : Legible .tree (.scalar "null")
  | list {items : List Listing} (hitems : ∀ item ∈ items, Legible .tree item) :
      Legible .tree (.list items)
  | node {name : String} {parts : List (String × Listing)} (hname : IsNodeName name)
      (hlabels : ∀ part ∈ parts, IsLabel part.1)
      (hparts : ∀ part ∈ parts, Legible (slotOf name part.1) part.2) :
      Legible .tree (.node name parts)

/-! ## Rows of lines -/

theorem indent_succ (depth : Nat) : indent (depth + 1) = indent depth ++ "    " := by
  rw [indent, indent, Nat.mul_add, Nat.mul_one, List.replicate_add, String.ofList_append]
  rfl

/-- The first line of a tree without its indentation and its head. -/
def opening : Listing → String
  | .scalar text => text
  | .list _ => "array("
  | .node name _ => name ++ "("

/-- The items of a row, each with its number. -/
def numbered (start : Nat) : List Listing → List (String × Listing)
  | [] => []
  | item :: rest => (toString start, item) :: numbered (start + 1) rest

/-- The parts that are shown below the first line of a tree. -/
def inside : Listing → List (String × Listing)
  | .scalar _ => []
  | .list items => numbered 0 items
  | .node _ parts => parts

/-- The last line of a tree, if it has more than one. -/
def closing (depth : Nat) : Listing → List String
  | .scalar _ => []
  | .list _ | .node _ _ => [indent depth ++ ")"]

theorem itemLines_eq (depth start : Nat) (items : List Listing) :
    itemLines depth start items = partLines depth (numbered start items) := by
  induction items generalizing start with
  | nil => rfl
  | cons item rest ih => rw [itemLines, numbered, partLines, ih]

/-- The lines of a tree: its opening, its parts one level deeper, and its closing line. -/
theorem lines_eq (depth : Nat) (head : String) (listing : Listing) :
    listing.lines depth head =
      (indent depth ++ head ++ listing.opening) ::
        (partLines (depth + 1) listing.inside ++ listing.closing depth) := by
  cases listing with
  | scalar text => rfl
  | list items => rw [lines, itemLines_eq]; rfl
  | node name parts => rw [lines, opening, ← String.append_assoc]; rfl

theorem isLabel_toString (n : Nat) : IsLabel (toString n) := by
  have hdigits : ∀ c ∈ (toString n).toList, c.isDigit := by
    intro c hc
    rw [Nat.toString_eq_ofList_toDigits, String.toList_ofList] at hc
    exact Nat.isDigit_of_mem_toDigits (by decide) (by decide) hc
  exact ⟨fun h => absurd (hdigits _ h) (by decide), fun h => absurd (hdigits _ h) (by decide)⟩

theorem isLabel_of_mem_numbered {start : Nat} {items : List Listing} :
    ∀ part ∈ numbered start items, IsLabel part.1 := by
  induction items generalizing start with
  | nil => exact fun _ hpart => nomatch hpart
  | cons item rest ih => exact List.forall_mem_cons.mpr ⟨isLabel_toString start, ih⟩

theorem map_snd_numbered (start : Nat) (items : List Listing) :
    (numbered start items).map Prod.snd = items := by
  induction items generalizing start with
  | nil => rfl
  | cons item rest ih => rw [numbered, List.map_cons, ih]

theorem numbered_inj {start : Nat} {items others : List Listing}
    (h : numbered start items = numbered start others) : items = others := by
  rw [← map_snd_numbered start items, h, map_snd_numbered]

/-- What holds of the items of a row holds of them with their numbers. -/
theorem forall_mem_numbered {P : Listing → Prop} {start : Nat} {items : List Listing}
    (h : ∀ item ∈ items, P item) : ∀ part ∈ numbered start items, P part.2 := by
  rw [← map_snd_numbered start items] at h
  exact fun part hpart => h part.2 (List.mem_map_of_mem hpart)

/-! ## Where a tree ends -/

/-- A label can be told from what follows it on its line. -/
theorem label_inj {before first second rest more : String} (hfirst : IsLabel first)
    (hsecond : IsLabel second)
    (h : before ++ (first ++ ": ") ++ rest = before ++ (second ++ ": ") ++ more) :
    first = second := by
  have hchars : first.toList ++ ':' :: ' ' :: rest.toList =
      second.toList ++ ':' :: ' ' :: more.toList := by
    simpa [String.toList_append] using congrArg String.toList h
  have hsplit := congrArg (List.splitOn ':') hchars
  rw [List.splitOn_append_cons_self_of_not_mem hfirst.1,
    List.splitOn_append_cons_self_of_not_mem hsecond.1] at hsplit
  exact String.toList_inj.mp (List.cons.inj hsplit).1

/-- The closing line of a tree is no line of its parts. -/
theorem closing_ne (depth : Nat) (head text : String) :
    indent depth ++ ")" ≠ indent (depth + 1) ++ head ++ text := by
  rw [indent_succ, String.append_assoc, String.append_assoc]
  intro h
  have hchars := congrArg String.toList ((String.append_right_inj _).mp h)
  simp [String.toList_append] at hchars

/-- Two trees that start the same lines have the same opening, and the same lines below it. -/
theorem lines_append_eq {depth : Nat} {head : String} {listing other : Listing}
    {rest more : List String}
    (h : listing.lines depth head ++ rest = other.lines depth head ++ more) :
    listing.opening = other.opening ∧
      partLines (depth + 1) listing.inside ++ (listing.closing depth ++ rest) =
        partLines (depth + 1) other.inside ++ (other.closing depth ++ more) := by
  rw [lines_eq, lines_eq, List.cons_append, List.cons_append, List.append_assoc,
    List.append_assoc] at h
  obtain ⟨hfirst, hbelow⟩ := List.cons.inj h
  exact ⟨(String.append_right_inj _).mp hfirst, hbelow⟩

/-- A tree whose lines say where it ends, among the trees that may stand at the same place. -/
def Delimited (slot : Slot) (listing : Listing) : Prop :=
  ∀ {other : Listing}, other.Legible slot →
    ∀ {depth : Nat} {head : String} {rest more : List String},
      listing.lines depth head ++ rest = other.lines depth head ++ more →
        listing = other ∧ rest = more

/-- The parts of a tree are told from each other and from the closing line. -/
theorem partLines_append_inj (slot : String → Slot) {depth : Nat}
    {parts others : List (String × Listing)} {rest more : List String}
    (hlabels : ∀ part ∈ parts, IsLabel part.1)
    (hparts : ∀ part ∈ parts, part.2.Delimited (slot part.1))
    (hlabels' : ∀ part ∈ others, IsLabel part.1)
    (hothers : ∀ part ∈ others, part.2.Legible (slot part.1))
    (h : partLines (depth + 1) parts ++ (indent depth ++ ")") :: rest =
      partLines (depth + 1) others ++ (indent depth ++ ")") :: more) :
    parts = others ∧ rest = more := by
  induction parts generalizing others with
  | nil =>
    cases others with
    | nil => exact ⟨rfl, (List.cons.inj h).2⟩
    | cons other others =>
      rw [partLines, partLines, lines_eq] at h
      exact absurd (List.cons.inj h).1 (closing_ne _ _ _)
  | cons part parts ih =>
    obtain ⟨label, listing⟩ := part
    cases others with
    | nil =>
      rw [partLines, partLines, lines_eq] at h
      exact absurd (List.cons.inj h).1.symm (closing_ne _ _ _)
    | cons other others =>
      obtain ⟨label', listing'⟩ := other
      rw [List.forall_mem_cons] at hlabels hparts hlabels' hothers
      rw [partLines, partLines, List.append_assoc, List.append_assoc] at h
      -- The label stands on the first line, and says what may stand behind it.
      have hlabel : label = label' := by
        rw [lines_eq, lines_eq] at h
        exact label_inj hlabels.1 hlabels'.1 (List.cons.inj h).1
      subst hlabel
      obtain ⟨rfl, hrest⟩ := hparts.1 hothers.1 h
      obtain ⟨rfl, hmore⟩ := ih hlabels.2 hparts.2 hlabels'.2 hothers.2 hrest
      exact ⟨rfl, hmore⟩

theorem node_opening_ne_null (name : String) : name ++ "(" ≠ "null" := by
  intro h
  have hlast := congrArg (fun text : String => text.toList.getLast?) h
  simp [String.toList_append] at hlast

theorem node_opening_inj {name other : String} (h : name ++ "(" = other ++ "(") : name = other :=
  (String.append_left_inj "(").mp h

/-- The lines of a legible tree say where it ends: its opening tells its kind and, for a node, what
    its parts are. -/
theorem Legible.delimited {slot : Slot} {listing : Listing} (h : listing.Legible slot) :
    listing.Delimited slot := by
  -- The other tree and the lines behind both vary along the induction: the end of one part is the
  -- start of the next.
  induction h with
  | text hline =>
    intro other hother depth head rest more hlines
    cases hother with
    | text hline' =>
      obtain ⟨hopening, hrest⟩ := lines_append_eq hlines
      exact ⟨congrArg scalar hopening, hrest⟩
  | missing =>
    intro other hother depth head rest more hlines
    obtain ⟨hopening, hrest⟩ := lines_append_eq hlines
    cases hother with
    | missing => exact ⟨rfl, hrest⟩
    | list => exact absurd hopening.symm (node_opening_ne_null "array")
    | node => exact absurd hopening.symm (node_opening_ne_null _)
  | list hitems ih =>
    intro other hother depth head rest more hlines
    obtain ⟨hopening, hbelow⟩ := lines_append_eq hlines
    cases hother with
    | missing => exact absurd hopening (node_opening_ne_null "array")
    | list hothers =>
      obtain ⟨hparts, hrest⟩ := partLines_append_inj (fun _ => .tree) isLabel_of_mem_numbered
        (forall_mem_numbered (fun _ => ih _)) isLabel_of_mem_numbered
        (forall_mem_numbered hothers) hbelow
      exact ⟨congrArg Listing.list (numbered_inj hparts), hrest⟩
    | node hname => exact absurd (node_opening_inj hopening.symm) hname.2
  | node hname hlabels hparts ih =>
    intro other hother depth head rest more hlines
    obtain ⟨hopening, hbelow⟩ := lines_append_eq hlines
    cases hother with
    | missing => exact absurd hopening (node_opening_ne_null _)
    | list => exact absurd (node_opening_inj hopening) hname.2
    | node _ hlabels' hparts' =>
      obtain rfl := node_opening_inj hopening
      obtain ⟨rfl, hrest⟩ := partLines_append_inj _ hlabels (fun _ => ih _) hlabels' hparts' hbelow
      exact ⟨rfl, hrest⟩

/-! ## The text of a listing -/

/-- A tree without line ends inside its lines, as long as there is none in its head. -/
def StaysOnLines (listing : Listing) : Prop :=
  ∀ {depth : Nat} {head : String}, '\n' ∉ head.toList →
    ∀ line ∈ listing.lines depth head, '\n' ∉ line.toList

theorem not_lineEnd_mem_partLines {depth : Nat} {parts : List (String × Listing)}
    (hlabels : ∀ part ∈ parts, IsLabel part.1) (hparts : ∀ part ∈ parts, part.2.StaysOnLines) :
    ∀ line ∈ partLines depth parts, '\n' ∉ line.toList := by
  induction parts with
  | nil => exact fun _ hline => nomatch hline
  | cons part parts ih =>
    rw [List.forall_mem_cons] at hlabels hparts
    intro line hline
    rw [partLines, List.mem_append] at hline
    rcases hline with hline | hline
    · refine hparts.1 ?_ line hline
      simp [String.toList_append, hlabels.1.2]
    · exact ih hlabels.2 hparts.2 line hline

theorem staysOnLines_of_inside (listing : Listing) (hopening : '\n' ∉ listing.opening.toList)
    (hlabels : ∀ part ∈ listing.inside, IsLabel part.1)
    (hparts : ∀ part ∈ listing.inside, part.2.StaysOnLines) : listing.StaysOnLines := by
  intro depth head hhead line hline
  have hindent : '\n' ∉ (indent depth).toList := by simp [indent]
  have hclosing : ∀ line ∈ listing.closing depth, '\n' ∉ line.toList := by
    cases listing <;> simp [closing, String.toList_append, hindent]
  rw [lines_eq, List.mem_cons, List.mem_append] at hline
  rcases hline with rfl | hline | hline
  · simp [String.toList_append, hindent, hhead, hopening]
  · exact not_lineEnd_mem_partLines hlabels hparts line hline
  · exact hclosing line hline

theorem staysOnLines_scalar {text : String} (h : '\n' ∉ text.toList) :
    (scalar text).StaysOnLines :=
  staysOnLines_of_inside (.scalar text) h (by simp [inside]) (by simp [inside])

theorem Legible.staysOnLines {slot : Slot} {listing : Listing} (h : listing.Legible slot) :
    listing.StaysOnLines := by
  induction h with
  | text hline => exact staysOnLines_scalar hline
  | missing => exact staysOnLines_scalar (by decide)
  | list hitems ih =>
    exact staysOnLines_of_inside (.list _) (by simp [opening]) isLabel_of_mem_numbered
      (forall_mem_numbered fun _ => ih _)
  | node hname hlabels hparts ih =>
    exact staysOnLines_of_inside (.node _ _) (by simp [opening, String.toList_append, hname.1.2])
      hlabels fun _ => ih _

/-- Legible trees with the same text are the same tree. -/
theorem Legible.render_inj {listing other : Listing} (h : listing.Legible .tree)
    (hother : other.Legible .tree) (htext : listing.render = other.render) : listing = other := by
  have hlines {listing : Listing} (h : listing.Legible .tree) :
      listing.render.toList.splitOn '\n' = (listing.lines 0 "").map String.toList := by
    rw [render, String.toList_intercalate]
    refine List.splitOn_intercalate '\n' ?_ ?_
    · simpa using h.staysOnLines (by simp)
    · simp [lines_eq]
  have hmap : (listing.lines 0 "").map String.toList = (other.lines 0 "").map String.toList := by
    rw [← hlines h, htext, hlines hother]
  have heq : listing.lines 0 "" = other.lines 0 "" :=
    List.map_injective_iff.mpr (fun _ _ => String.toList_inj.mp) hmap
  exact (h.delimited hother (congrArg (· ++ []) heq)).1

end Listing

end WebScript
