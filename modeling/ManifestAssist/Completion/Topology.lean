import ManifestAssist.Completion.Request

/-! # Completion in the topology

The ends and the kinds of relationships, the sources of rules, the dimensions that a rule can read,
and the placeholders of its patterns.
-/

namespace ManifestAssist.Topology

open Text
open Yaml (Value)

def relationTypes : List String :=
  ["CALLS", "CHILD_OF", "INSTANCE_OF", "PART_OF", "RUNS_ON", "SAME_AS"]

def sourceTypes : List String :=
  ["Metrics", "Logs", "Spans", "Events"]

/-- What the source of a rule asks of the key of a metric. -/
inductive Condition where
  | startsWith (part : Text)
  | endsWith (part : Text)
  | equals (key : Text)
  | contains (part : Text)
  deriving DecidableEq, Repr

namespace Condition

/-- Reads a condition such as `$eq(key)`. -/
def ofText? (text : Text) : Option Condition := do
  let call ← dropFront? (trim text) ['$']
  let (name, rest) ← splitFirst '(' call
  let part ← dropBack? rest [')']
  match String.ofList name with
  | "prefix" => some (startsWith part)
  | "suffix" => some (endsWith part)
  | "eq" => some (equals part)
  | "contains" => some (contains part)
  | _ => none

def holds (key : Text) : Condition → Bool
  | startsWith part => (dropFront? key part).isSome
  | endsWith part => (dropBack? key part).isSome
  | equals key' => key == key'
  | contains part => key.hasPart part

end Condition

variable (request : Request)

/-- The rule that holds the cursor. -/
def rule? : Option Value := do
  let type ← request.manifest.types[← request.cursor.item? "types"]?
  (type.get "rules").items[← request.cursor.item? "rules"]?

/-- The conditions of the sources of a rule. -/
def conditions (rule : Value) : List Condition :=
  (rule.fields "sources" "condition").filterMap fun text => Condition.ofText? text.toList

/-- Does a group of metrics feed a rule with these conditions? -/
def feeds (conditions : List Condition) (group : MetricGroup) : Bool :=
  conditions.isEmpty || group.metricKeys.any fun key => conditions.any (·.holds key.toList)

/-- The dimensions of the groups that feed the rule, unless the section of the rule has them. -/
def dimensions (section' : String) : List Suggestion :=
  let rule := rule? request
  let conditions := (rule.map conditions).getD []
  let keys := ((request.manifest.metricGroups.filter (feeds conditions)).flatMap
    (·.dimensionKeys)).eraseDups
  let used := (rule.map (·.fields section' "key")).getD []
  Suggestion.unused used
    (keys.map fun label => { label, kind := .dimension, detail := some "dimension" })

/-- What a value holds from its last opening brace on, if no closing one follows. -/
def openBrace? (value : Text) : Option Text := do
  let (_, rest) ← splitAtLast ['\x7b'] value
  if '\x7d' ∈ rest then none else some ('\x7b' :: rest)

/-- A required dimension in braces. -/
def placeholder (key : String) : Suggestion where
  label := "\x7b" ++ key ++ "\x7d"
  kind := .placeholder
  detail := some "required dimension"

/-- The placeholders for the required dimensions of the rule. They replace an open brace. -/
def placeholders? : Option Draft := do
  let rule ← rule? request
  let typed := (openBrace? request.cursor.slot.value).getD []
  return ⟨(rule.fields "requiredDimensions" "key").map placeholder, request.cursor.spanOf typed⟩

/-- The sections of a rule that list dimensions. -/
def dimensionSections : List String :=
  ["requiredDimensions", "attributes"]

/-- The suggestions for the value of the cursor. -/
def draft? : Option Draft := do
  let cursor := request.cursor
  guard (cursor.root? = some "topology")
  let whole (suggestions : List Suggestion) : Option Draft := some ⟨suggestions, cursor.valueSpan⟩
  match ← cursor.parent?, cursor.slot.key with
  | "relationships", "fromType" => whole (request.entityTypes "")
  | "relationships", "toType" => whole (request.entityTypes "")
  | "relationships", "typeOfRelation" => whole (Suggestion.plain .enumMember relationTypes)
  | "sources", "sourceType" => whole (Suggestion.plain .enumMember sourceTypes)
  | "rules", "idPattern" => placeholders? request
  | "rules", "instanceNamePattern" => placeholders? request
  | parent, "key" =>
    if dimensionSections.contains parent && cursor.endsWith ["rules", parent] then
      whole (dimensions request parent)
    else
      none
  | _, _ => none

end ManifestAssist.Topology
