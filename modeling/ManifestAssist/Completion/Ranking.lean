import ManifestAssist.Completion.Match
import ManifestAssist.Completion.Suggestion

/-! # Ranking

Suggestions are put in the order of how well they match the text that they would replace. Equally
good ones stay in their order.
-/

namespace ManifestAssist

namespace Suggestion

/-- How the label of a suggestion matches a query. -/
def match? (query : Text) (suggestion : Suggestion) : Option Match :=
  Match.of? (normalize query) (normalize suggestion.label.toList)

/-- The rank of a suggestion with a match. Ranks compare number by number, and the least is the
best. -/
def rank (kind : SuggestionKind) : Match → List Int
  | .exact => [0]
  | .front length => [1, length]
  | .within offset length => [2, offset, length]
  | .scattered score =>
    [3, score.gapSum, -score.longestRun, score.first, score.length, kind.priority]

/-- Is a rank no worse than another? -/
def noWorse : (rank other : List Int) → Bool
  | [], _ => true
  | _ :: _, [] => false
  | a :: rank, b :: other => a < b || (a == b && noWorse rank other)

/-- Does a query leave the order as it is? -/
def isIdle (query : Text) : Bool :=
  query.any (·.val ≥ 0x80) || (normalize query).isEmpty

/-- The suggestions that match a query, with their ranks. -/
def ranked (query : Text) (suggestions : List Suggestion) : List (List Int × Suggestion) :=
  suggestions.filterMap fun suggestion =>
    (suggestion.match? query).map fun found => (rank suggestion.kind found, suggestion)

/-- The suggestions that match a query, the best first. -/
def sortBy (query : Text) (suggestions : List Suggestion) : List Suggestion :=
  if isIdle query then suggestions
  else ((ranked query suggestions).mergeSort fun a b => noWorse a.1 b.1).map (·.2)

/-- The indices of the first suggestions whose labels contain a query. -/
def preferred (limit : Nat) (query : Text) (suggestions : List Suggestion) : List Nat :=
  if query.isEmpty then []
  else
    ((suggestions.zipIdx.filter fun (suggestion, _) =>
      (suggestion.match? query).any Match.isContained).map (·.2)).take limit

end Suggestion

end ManifestAssist
