import ManifestAssist.Completion.Prometheus
import ManifestAssist.Completion.Ranking
import ManifestAssist.Completion.Screens
import ManifestAssist.Completion.Selector.Offer
import ManifestAssist.Completion.Topology

/-! # Completion

The vocabularies are asked one after another, and the first one with suggestions answers. Its
suggestions are ranked by the text that they would replace.
-/

namespace ManifestAssist

/-- A suggestion with the edit that accepts it. -/
structure Offer where
  suggestion : Suggestion
  edit : Edit
  deriving DecidableEq, Repr

/-- What is offered at a position. -/
structure Completion where
  offers : List Offer
  /-- The span that every edit replaces. -/
  replace : Span
  /-- The indices of the offers to be selected first. -/
  preferred : List Nat
  deriving DecidableEq, Repr

namespace Completion

/-- Nothing, at an offset. -/
def nothing (offset : Nat) : Completion :=
  ⟨[], .empty offset, []⟩

def vocabularies : List (Request → Option Draft) :=
  [Topology.draft?, Selector.draft?, Screens.draft?, Prometheus.draft?]

/-- The first draft with suggestions. -/
def draft? (request : Request) : Option Draft :=
  vocabularies.findSome? fun vocabulary =>
    (vocabulary request).filter fun draft => !draft.suggestions.isEmpty

/-- Ranks a draft for a text. -/
def ofDraft (text : Text) (settings : Settings) (draft : Draft) : Completion :=
  let query := (text.slice? draft.replace.start draft.replace.stop).getD []
  let suggestions := Suggestion.sortBy query draft.suggestions
  let offer (suggestion : Suggestion) : Offer :=
    ⟨{ suggestion with retriggers := suggestion.retriggers && settings.retriggers },
      ⟨draft.replace, suggestion.insertText.toList⟩⟩
  { offers := suggestions.map offer
    replace := draft.replace
    preferred := Suggestion.preferred settings.preferredLimit query suggestions }

end Completion

/-- What completes a text at a position, by a manifest that was read from it or from an earlier
text. -/
def complete (text : Text) (position : Position) (manifest : Manifest) (context : Context) :
    Completion :=
  match Cursor.at? text position with
  | none => .nothing ((LineMap.ofText text).offset position)
  | some cursor =>
    match Completion.draft? ⟨cursor, manifest, context⟩ with
    | none => .nothing cursor.offset
    | some draft => .ofDraft text context.settings draft

end ManifestAssist
