import ManifestAssist.Json.Value
import ManifestAssist.Metrics.Family

/-! # Scrapes as JSON

A scrape is a record of its families by name. A kind may also be written as the name of a member
that is null.
-/

namespace ManifestAssist

namespace MetricKind

def ofJson? : Json → Option MetricKind
  | .string name => ofName? name
  | .object [(name, .null)] => ofName? name
  | _ => none

end MetricKind

namespace Family

def toJson (family : Family) : Json :=
  .object <| [("type", .string family.kind.name)] ++
    (family.help.map fun help => ("help", Json.string help)).toList ++
    [("labels", .array (family.labels.map .string))]

def ofJson? (v : Json) : Option Family := do
  match ← v.record? ["type", "help", "labels"] with
  | [kind, help, labels] =>
    return {
      kind := ← Json.fieldOr .untyped MetricKind.ofJson? kind
      help := ← Json.fieldOptional Json.string? help
      labels := ← Json.fieldOr [] (fun v => do (← v.array?).mapM Json.string?) labels }
  | _ => none

end Family

namespace Scrape

def toJson (scrape : Scrape) : Json :=
  .object [("metrics", .object (scrape.entries.map fun (name, family) => (name, family.toJson)))]

/-- Reads the families of an object. -/
def familiesOfJson? (v : Json) : Option Scrape := do
  let members ← v.object?
  return .ofList (← members.mapM fun (name, v) => do return (name, ← Family.ofJson? v))

def ofJson? (v : Json) : Option Scrape := do
  match ← v.record? ["metrics"] with
  | [metrics] => Json.fieldOr ∅ familiesOfJson? metrics
  | _ => none

end Scrape

end ManifestAssist
