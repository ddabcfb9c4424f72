import ManifestAssist.Yaml.Document

/-! # Manifest trees

A manifest as a value, with the parts that completion asks for: the types and the relationships of
its topology, the groups of metrics of its data source, and its screens. A part that is missing or
has another shape is empty.
-/

namespace ManifestAssist

open Yaml (Value)

/-- Why a text is no manifest. -/
inductive ManifestError where
  | yaml (error : Yaml.Error)
  | notAMapping
  deriving DecidableEq, Repr

/-- The text of an error, apart from that of the format below it. -/
def ManifestError.message? : ManifestError → Option String
  | yaml _ => none
  | notAMapping => some "manifest root must be a mapping"

structure Manifest where
  root : Value

/-- A relationship between two types of entities. -/
structure Relationship where
  fromType : String
  toType : String
  relation : String
  deriving DecidableEq, Repr

/-- A group of metrics with the dimensions that hold for them. -/
structure MetricGroup where
  dimensionKeys : List String
  metricKeys : List String
  deriving DecidableEq, Repr

namespace Manifest

/-- The manifest without any part. -/
def empty : Manifest :=
  ⟨.map []⟩

def parse (text : Text) : Except ManifestError Manifest :=
  match Value.parse text with
  | .error e => .error (.yaml e)
  | .ok root => if root.isMap then .ok ⟨root⟩ else .error .notAMapping

/-- The keys of the data sources. The first one that a manifest has is its data source. -/
def datasources : List String :=
  ["prometheus", "snmp", "wmi", "sqlMySql", "sqlServer", "sqlOracle", "sqlPostgres", "sqlDb2",
    "sqlHana", "sqlSnowflake", "jmx"]

variable (m : Manifest)

def types : List Value :=
  ((m.root.get "topology").get "types").items

/-- The names of the types of entities. -/
def entityTypes : List String :=
  m.types.filterMap (·.field? "name")

/-- The relationships that have both their ends. -/
def relationships : List Relationship :=
  ((m.root.get "topology").get "relationships").items.filterMap fun v => do
    return ⟨← v.field? "fromType", ← v.field? "toType", (v.field? "typeOfRelation").getD ""⟩

def screens : List Value :=
  (m.root.get "screens").items

/-- The key of the data source with its groups. -/
def datasource? : Option (String × List Value) :=
  (datasources.find? fun key => (m.root.get? key).isSome).map fun key =>
    (key, (m.root.get key).items)

/-- A group and its subgroups, for which the dimensions of the group hold too. -/
def groupsOf (group : Value) : List MetricGroup :=
  let dimensions := group.fields "dimensions" "key"
  ⟨dimensions, group.fields "metrics" "key"⟩ ::
    (group.get "subgroups").items.map fun subgroup =>
      ⟨dimensions ++ subgroup.fields "dimensions" "key", subgroup.fields "metrics" "key"⟩

def metricGroups : List MetricGroup :=
  match m.datasource? with
  | some (_, groups) => groups.flatMap groupsOf
  | none => []

/-- The metrics that have metadata. -/
def metrics : List Value :=
  (m.root.get "metrics").items

/-- The keys of all metrics, each once, in the order in which they first appear. -/
def metricKeys : List String :=
  (m.metricGroups.flatMap (·.metricKeys) ++ m.metrics.filterMap (·.field? "key")).eraseDups

end Manifest

end ManifestAssist
