import ManifestAssist.Metrics.Registry
import ManifestAssist.Text.Part

/-! # Metric families

What a scrape tells of a metric, by the name of its family. Histograms and summaries are
distributions: their values are series of their own, whose names are that of the family and a
suffix.
-/

namespace ManifestAssist

inductive MetricKind where
  | counter | gauge | histogram | summary | untyped
  deriving DecidableEq, Repr

namespace MetricKind

def name : MetricKind → String
  | counter => "counter"
  | gauge => "gauge"
  | histogram => "histogram"
  | summary => "summary"
  | untyped => "untyped"

def ofName? : String → Option MetricKind
  | "counter" => some counter
  | "gauge" => some gauge
  | "histogram" => some histogram
  | "summary" => some summary
  | "untyped" => some untyped
  | _ => none

theorem ofName?_name (kind : MetricKind) : ofName? kind.name = some kind := by
  cases kind <;> rfl

def isDistribution : MetricKind → Bool
  | histogram => true
  | summary => true
  | _ => false

end MetricKind

/-- What is known of a family: its kind, its description, and the names of its labels in the order
in which they first appear. -/
structure Family where
  kind : MetricKind := .untyped
  help : Option String := none
  labels : List String := []
  deriving DecidableEq, Repr

namespace Family

/-- The part of a name ahead of a suffix. -/
def dropSuffix? (name suffix : String) : Option String :=
  (Text.dropBack? name.toList suffix.toList).map String.ofList

/-- The series of a family. -/
def series (family : Family) (name : String) : List String :=
  if family.kind.isDistribution then [name ++ "_sum", name ++ "_count"] else [name]

/-- The metric keys that suit a family. -/
def keys (family : Family) (name : String) : List String :=
  match family.kind with
  | .counter => [(dropSuffix? name "_total").getD name ++ ".count"]
  | .histogram => [name ++ ".count", name ++ ".sum"]
  | .summary => [name ++ ".count", name ++ ".sum"]
  | .gauge => [name]
  | .untyped => [name]

end Family

/-- The families of a scrape. -/
abbrev Scrape := Registry Family

namespace Scrape

/-- The suffixes of the series of a distribution. -/
def distributionSuffixes : List String :=
  ["_bucket", "_sum", "_count"]

/-- The family that a series belongs to: the one of its name, or else the first one whose name it
has ahead of a suffix. -/
def family? (scrape : Scrape) (series : String) : Option (String × Family) :=
  (series :: (distributionSuffixes ++ ["_total"]).filterMap (Family.dropSuffix? series)).findSome?
    fun name => (scrape.find? name).map fun family => (name, family)

/-- Puts a name at its place among ascending names. -/
def insertName (name : String) : List String → List String
  | [] => [name]
  | name' :: rest =>
    if name < name' then name :: name' :: rest
    else if name = name' then name' :: rest
    else name' :: insertName name rest

/-- The names of all labels, ascending. -/
def labelNames (scrape : Scrape) : List String :=
  (scrape.entries.flatMap (·.2.labels)).foldr insertName []

end Scrape

end ManifestAssist
