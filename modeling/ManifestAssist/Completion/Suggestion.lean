import ManifestAssist.Text.Span

/-! # Suggestions -/

namespace ManifestAssist

inductive SuggestionKind where
  | entityType | metric | dimension | card | relationship | enumMember | operator | placeholder
  deriving DecidableEq, Repr

/-- The place of a kind among all kinds when nothing else tells suggestions apart. -/
def SuggestionKind.priority : SuggestionKind → Nat
  | entityType => 0
  | metric => 1
  | dimension => 2
  | card => 3
  | relationship => 4
  | enumMember => 5
  | operator => 6
  | placeholder => 7

/-- A text that may be put in at the cursor. -/
structure Suggestion where
  label : String
  kind : SuggestionKind
  insertText : String := label
  detail : Option String := none
  /-- Does accepting it open a place for further suggestions? -/
  retriggers : Bool := false
  deriving DecidableEq, Repr

namespace Suggestion

/-- One suggestion for each label. -/
def plain (kind : SuggestionKind) (labels : List String) : List Suggestion :=
  labels.map fun label => { label, kind }

/-- The suggestions whose labels are not in use. -/
def unused (used : List String) (suggestions : List Suggestion) : List Suggestion :=
  suggestions.filter fun suggestion => !used.contains suggestion.label

theorem mem_unused {used : List String} {suggestions : List Suggestion} {s : Suggestion} :
    s ∈ unused used suggestions ↔ s ∈ suggestions ∧ s.label ∉ used := by
  simp [unused]

@[simp] theorem map_label_unused (used : List String) (suggestions : List Suggestion) :
    (unused used suggestions).map (·.label) =
      (suggestions.map (·.label)).filter fun label => !used.contains label := by
  simp [unused, List.filter_map, Function.comp_def]

@[simp] theorem map_label_plain (kind : SuggestionKind) (labels : List String) :
    (plain kind labels).map (·.label) = labels := by
  simp [plain, Function.comp_def]

end Suggestion

/-- Suggestions for the text of a span. -/
structure Draft where
  suggestions : List Suggestion
  replace : Span

end ManifestAssist
