import ManifestAssist.Completion.Request

/-! # Completion from scraped metrics

The groups of a Prometheus data source name the series of an endpoint, so what has been scraped from
it tells their metrics and dimensions.
-/

namespace ManifestAssist.Prometheus

open Yaml (Value)

/-- The group that holds the cursor, or its subgroup if the cursor is in one. -/
def group? (request : Request) : Option Value := do
  let groups := (request.manifest.root.get "prometheus").items
  let group ← groups[← request.cursor.item? "prometheus"]?
  if request.cursor.isWithin "subgroups" then
    (group.get "subgroups").items[← request.cursor.item? "subgroups"]?
  else
    some group

/-- The series that the value of a metric names. -/
def series? (value : String) : Option String :=
  (Text.dropFront? value.toList "metric:".toList).map String.ofList

/-- The series of the metric of a group that holds the cursor. -/
def currentSeries? (request : Request) (group : Value) : Option String := do
  let metric ← (group.get "metrics").items[← request.cursor.item? "metrics"]?
  series? (← metric.field? "value")

variable (scrape : Scrape) (group : Value)

/-- The kind of a family and its description. -/
def description (family : Family) : String :=
  match family.help with
  | some help => family.kind.name ++ ": " ++ help
  | none => family.kind.name

/-- The series of all families that the group has no metric for. -/
def metricValues : List Suggestion :=
  Suggestion.unused (group.fields "metrics" "value") <| scrape.entries.flatMap fun (name, family) =>
    (family.series name).map fun series =>
      { label := "metric:" ++ series, kind := .metric, detail := some (description family) }

/-- The families of a scrape, with the one of a series in front. -/
def ownFirst (series : Option String) : List (String × Family) :=
  let own := (series.bind scrape.family?).map (·.1)
  let (front, others) := scrape.entries.partition fun (name, _) => some name == own
  front ++ others

/-- The keys that suit the families, unless the group has them. -/
def metricKeys (series : Option String) : List Suggestion :=
  Suggestion.unused (group.fields "metrics" "key") <| (ownFirst scrape series).flatMap
    fun (name, family) => (family.keys name).map fun label =>
      { label, kind := .metric, detail := some ("from " ++ name) }

/-- The types of metrics, with the one that suits a series in front. -/
def metricTypes (series : Option String) : List Suggestion :=
  let kind := ((series.bind scrape.family?).map (·.2.kind)).getD .untyped
  Suggestion.plain .enumMember <|
    match kind with
    | .counter | .histogram | .summary => ["count", "gauge"]
    | .gauge | .untyped => ["gauge", "count"]

/-- The labels of the families whose series are metrics of the group, or all labels if there are
none. -/
def labelsOf : List String :=
  let families := (group.fields "metrics" "value").filterMap fun value =>
    (series? value).bind scrape.family?
  let own := (families.flatMap (·.2.labels)).eraseDups
  if own.isEmpty then scrape.labelNames else own

/-- The labels of the metrics as `shown` in a field of a dimension, unless a dimension has it. -/
def dimensionValues (field : String) (shown : String → String) : List Suggestion :=
  Suggestion.unused (group.fields "dimensions" field)
    (Suggestion.plain .dimension ((labelsOf scrape group).map shown))

/-- The suggestions for the value of the cursor. -/
def draft? (request : Request) : Option Draft := do
  let cursor := request.cursor
  guard (cursor.root? = some "prometheus")
  let scrape ← request.context.scrape
  let group ← group? request
  let suggestions ←
    match ← cursor.parent?, cursor.slot.key with
    | "metrics", "value" => some (metricValues scrape group)
    | "metrics", "key" => some (metricKeys scrape group (currentSeries? request group))
    | "metrics", "type" => some (metricTypes scrape (currentSeries? request group))
    | "dimensions", "key" => some (dimensionValues scrape group "key" id)
    | "dimensions", "value" => some (dimensionValues scrape group "value" ("label:" ++ ·))
    | _, _ => none
  return ⟨suggestions, cursor.valueSpan⟩

end ManifestAssist.Prometheus
