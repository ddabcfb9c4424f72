import ManifestAssist.Json.Reader
import ManifestAssist.Metrics.Exposition
import ManifestAssist.Metrics.Record
import ManifestAssist.Completion.Settings

/-! # Context documents

The settings and the scraped metrics that an editor hands over, as a JSON text. Metrics come as a
scrape, as an exposition or as both; then the families of the scrape count.
-/

namespace ManifestAssist

open Text

/-- A context document that cannot be read. -/
inductive ContextError where
  | invalidJson
  deriving DecidableEq, Repr

def ContextError.message : ContextError → String
  | invalidJson => "Invalid context JSON"

namespace Settings

def ofJson? (v : Json) : Option Settings := do
  match ← v.record? ["preferred_limit", "builtin_entity_types", "retrigger_suggest"] with
  | [limit, builtin, retrigger] =>
    return {
      preferredLimit := ← Json.fieldOr Settings.default.preferredLimit Json.natural? limit
      hasBuiltinTypes := ← Json.fieldOr Settings.default.hasBuiltinTypes Json.bool? builtin
      retriggers := ← Json.fieldOr Settings.default.retriggers Json.bool? retrigger }
  | _ => none

end Settings

namespace Context

/-- The metrics of a scrape and of an exposition, if there is either. -/
def mergeScrapes (scrape : Option Scrape) (exposition : Option String) : Option Scrape :=
  match scrape, exposition with
  | none, none => none
  | scrape, exposition =>
    let base := (exposition.map fun text => Scrape.ofExposition text.toList).getD ∅
    some (base.union (scrape.getD ∅))

def ofJson? (v : Json) : Option Context := do
  match ← v.record? ["completion", "prometheus", "prometheus_exposition"] with
  | [settings, scrape, exposition] =>
    let settings ← Json.fieldOr .default Settings.ofJson? settings
    let scrape ← Json.fieldOptional Scrape.ofJson? scrape
    let exposition ← Json.fieldOptional Json.string? exposition
    return ⟨settings, mergeScrapes scrape exposition⟩
  | _ => none

/-- Reads a context document, given a reader of JSON. A blank or a missing one stands for the
default. -/
def parseWith (read : Text → Option Json) (document : Option String) :
    Except ContextError Context :=
  let text := trim ((document.map String.toList).getD [])
  if text.isEmpty then .ok .default
  else
    match (read text).bind ofJson? with
    | some context => .ok context
    | none => .error .invalidJson

def parse (document : Option String) : Except ContextError Context :=
  parseWith Json.parse? document

end Context

end ManifestAssist
