import WebScript.Main
import WebScript.Proofs.NodeTree
import WebScript.Proofs.Simulation
import WebScript.Proofs.SimulationSteps
import WebScript.Proofs.Frame
import WebScript.Proofs.Moments
import WebScript.Proofs.RunEndings
import WebScript.Proofs.ArrayShape
import WebScript.Proofs.EffectFree
import WebScript.Proofs.ShortCircuit
import WebScript.Proofs.Expansion
import WebScript.Proofs.ReadingExpressions
import WebScript.Proofs.ReadingPrograms
import WebScript.Proofs.RoundTrip
import WebScript.Proofs.ParsedShape
import WebScript.Proofs.Exits
import WebScript.Proofs.Returns
import WebScript.Proofs.Lines
import WebScript.Proofs.Joining
import WebScript.Proofs.Concatenation
import WebScript.Proofs.RunInvariant
import WebScript.Proofs.FlatReturns
import WebScript.Proofs.Inclusion
import WebScript.Proofs.Integers
import WebScript.Proofs.Templates
import WebScript.Proofs.DebugListing
import WebScript.Proofs.ReservedVariable
import WebScript.Proofs.GlobalScope
import WebScript.Proofs.Sessions
import WebScript.Proofs.ErrorLines
import WebScript.Proofs.NumberOrder
import WebScript.Proofs.Comparison
import WebScript.Proofs.StrictEquality
import WebScript.Proofs.NestedWrites
import WebScript.Proofs.FloatRange
import WebScript.Proofs.IntegerOperators
import WebScript.Proofs.UnreadableNumbers
import WebScript.Proofs.OperatorLimits
import WebScript.Proofs.KeyTexts
import WebScript.Proofs.LenientReading
import WebScript.Proofs.FurtherConditions
import WebScript.Proofs.Loops
import WebScript.Proofs.RememberedFiles
import WebScript.Proofs.BracketBalance
import WebScript.Proofs.OpenBrackets
import WebScript.Proofs.ArrayLiterals
import WebScript.Proofs.ArrayUnion
import WebScript.Proofs.CodeLines
import WebScript.Proofs.DoubleQuotes
import WebScript.Proofs.NumericStrings
import WebScript.Proofs.IntegerTexts
import WebScript.Proofs.IntegerLiterals
import WebScript.Proofs.Arguments
import WebScript.Proofs.ListingLines
import WebScript.Proofs.ListedTrees
import WebScript.Proofs.ReadListings
