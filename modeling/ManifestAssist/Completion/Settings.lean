import ManifestAssist.Metrics.Family

/-! # Settings of completion

What an editor has told about itself and about the metrics at hand.
-/

namespace ManifestAssist

structure Settings where
  /-- The greatest number of preferred items. -/
  preferredLimit : Nat
  /-- Are the built-in entity types offered? -/
  hasBuiltinTypes : Bool
  /-- May an item ask for further suggestions? -/
  retriggers : Bool
  deriving DecidableEq, Repr

/-- Five preferred items, and everything offered. -/
def Settings.default : Settings :=
  ⟨5, true, true⟩

/-- The settings, and the metrics of the endpoint if they have been scraped. -/
structure Context where
  settings : Settings := .default
  scrape : Option Scrape := none

def Context.default : Context := {}

end ManifestAssist
