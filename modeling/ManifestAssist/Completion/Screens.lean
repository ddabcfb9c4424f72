import ManifestAssist.Completion.Request

/-! # Completion in screens

The entity types that screens are bound to, and the cards that their layouts refer to.
-/

namespace ManifestAssist.Screens

open Yaml (Value)

/-- A collection of cards with the type of its cards in a layout. -/
structure Collection where
  name : String
  cardType : String
  deriving DecidableEq, Repr

def collections : List Collection :=
  [⟨"entitiesListCards", "ENTITIES_LIST"⟩, ⟨"chartsCards", "CHART_GROUP"⟩,
    ⟨"messageCards", "MESSAGE"⟩, ⟨"logsCards", "LOGS"⟩, ⟨"eventsCards", "EVENTS"⟩,
    ⟨"metricTableCards", "METRIC_TABLE"⟩]

variable (request : Request)

/-- The screen that holds the cursor. -/
def screen? : Option Value := do
  request.manifest.screens[← request.cursor.item? "screens"]?

/-- The screen with the layout that holds the cursor. -/
def layout? : Option (Value × Value) := do
  let screen ← screen? request
  let settings ← ["listSettings", "detailsSettings"].find? request.cursor.isWithin
  return (screen, (screen.get settings).get "layout")

/-- The declared entity types to which no other screen is bound. -/
def freeTypes : List Suggestion :=
  let others := request.manifest.screens.zipIdx.filter fun (_, index) =>
    request.cursor.item? "screens" != some index
  Suggestion.unused (others.filterMap fun (screen, _) => screen.field? "entityType")
    (Suggestion.plain .entityType request.manifest.entityTypes)

/-- The suggestion of a card, which also writes a line with its type below the key at a column. -/
def card (column : Nat) (collection : Collection) (key : String) : Suggestion where
  label := key
  kind := .card
  insertText :=
    key ++ "\n" ++ String.ofList (.replicate column ' ') ++ "type: " ++ collection.cardType
  detail := some collection.name

/-- The cards of the screen that the layout does not refer to. -/
def freeCards : List Suggestion :=
  match layout? request with
  | some (screen, layout) =>
    Suggestion.unused (layout.fields "cards" "key") <| collections.flatMap fun collection =>
      (screen.fields collection.name "key").map (card request.cursor.slot.keyColumn collection)
  | none => []

/-- The type that the card at the cursor has in the layout. -/
def cardType? : Option String := do
  let (screen, layout) ← layout? request
  let card ← (layout.get "cards").items[← request.cursor.item? "cards"]?
  let key ← card.field? "key"
  let collection ← collections.find? fun collection =>
    (screen.fields collection.name "key").contains key
  return collection.cardType

/-- The types of cards, or just the one that the card at the cursor has. -/
def cardTypes : List Suggestion :=
  Suggestion.plain .enumMember <| (collections.map (·.cardType)).filter fun type =>
    (cardType? request).all (· == type)

/-- The suggestions for the value of the cursor. -/
def draft? : Option Draft := do
  let cursor := request.cursor
  guard (cursor.root? = some "screens")
  let isLayoutCard := cursor.endsWith ["layout", "cards"]
  let suggestions ←
    match cursor.slot.key with
    | "entityType" => if cursor.chain.length = 1 then some (freeTypes request) else none
    | "key" => if isLayoutCard then some (freeCards request) else none
    | "type" => if isLayoutCard then some (cardTypes request) else none
    | "metricSelector" =>
      if cursor.parent? = some "charts" then
        some (Suggestion.plain .metric request.manifest.metricKeys)
      else
        none
    | _ => none
  return ⟨suggestions, cursor.valueSpan⟩

end ManifestAssist.Screens
