import ManifestAssist.Completion.Request
import ManifestAssist.Completion.Selector.Scope
import ManifestAssist.Completion.Selector.Tail

/-! # Completion in entity selectors -/

namespace ManifestAssist.Selector

open Text

def selectorKeys : List String :=
  ["entitySelectorTemplate", "entitySelector"]

/-- The kinds of relationships, with their names in selectors. -/
def relationshipNames : List (String × String) :=
  [("CALLS", "calls"), ("CHILD_OF", "isChildOf"), ("INSTANCE_OF", "isInstanceOf"),
    ("PART_OF", "isPartOf"), ("RUNS_ON", "runsOn"), ("SAME_AS", "isSameAs")]

def healthStates : List String :=
  ["HEALTHY", "UNHEALTHY"]

structure Operator where
  label : String
  /-- May a selector have it only once? -/
  isSingle : Bool
  deriving DecidableEq, Repr

def operators : List Operator :=
  [⟨"type(", true⟩, ⟨"entityId(", false⟩, ⟨"entityName(", true⟩, ⟨"entityName.equals(", true⟩,
    ⟨"entityName.startsWith(", true⟩, ⟨"entityName.contains(", true⟩, ⟨"tag(", false⟩,
    ⟨"mzId(", false⟩, ⟨"mzName(", false⟩, ⟨"healthState(", true⟩, ⟨outgoing, false⟩,
    ⟨incoming, false⟩, ⟨"not(", false⟩]

/-- The operators that may follow in a selector with these calls. The placeholder for conditions has
its place on the cards of entity lists. -/
def operatorSuggestions (calls : Text) (isListCard : Bool) : List Suggestion :=
  let isUsed (label : String) : Bool := calls.hasPart label.toList
  let free := operators.filter fun operator => !(operator.isSingle && isUsed operator.label)
  let conditions := if isListCard && !isUsed entityConditions then [entityConditions] else []
  (free.map fun operator =>
    { label := operator.label, kind := .operator
      retriggers := (dropBack? operator.label.toList ['.']).isSome }) ++
    Suggestion.plain .placeholder conditions

/-- The end of a relationship at which the selected entities are. -/
def sideOf (isOutgoing : Bool) (relationship : Relationship) : String :=
  if isOutgoing then relationship.fromType else relationship.toType

/-- The suggestion for a relationship that has a name in selectors. -/
def suggest? (relationship : Relationship) : Option Suggestion := do
  let name ← relationshipNames.lookup relationship.relation
  return {
    label := name
    kind := .relationship
    insertText := name ++ "("
    detail := some (relationship.fromType ++ " to " ++ relationship.toType)
    retriggers := true }

/-- The first suggestion of each label. -/
def firstByLabel (suggestions : List Suggestion) : List Suggestion :=
  suggestions.eraseDupsBy fun a b => a.label == b.label

/-- The relationships of the selected type, or all of them if no type is selected. -/
def relationshipSuggestions (relationships : List Relationship) (fragment : Text)
    (isOutgoing : Bool) : List Suggestion :=
  let fits (relationship : Relationship) : Bool :=
    (selectedType? fragment).all (· == sideOf isOutgoing relationship)
  firstByLabel ((relationships.filter fits).filterMap suggest?)

/-- The suggestions for a place in a selector. -/
def suggestions (request : Request) (tail : Tail) : List Suggestion :=
  let cursor := request.cursor
  let fragment := cursor.slot.value
  let closing := if cursor.rest.head? = some ')' then "" else ")"
  match tail.place with
  | .entityType => request.entityTypes closing
  | .relationship isOutgoing =>
    relationshipSuggestions request.manifest.relationships fragment isOutgoing
  | .healthState =>
    healthStates.map fun label => { label, kind := .enumMember, insertText := label ++ closing }
  | .operator =>
    operatorSuggestions (outline (fragment.dropEndWhile isWordChar))
      (cursor.isWithin "entitiesListCards")

/-- The suggestions for the value of the cursor. -/
def draft? (request : Request) : Option Draft := do
  let cursor := request.cursor
  guard (selectorKeys.contains cursor.slot.key)
  let tail ← Tail.ofFragment? cursor.slot.value
  return ⟨suggestions request tail, cursor.spanOf tail.word⟩

end ManifestAssist.Selector
