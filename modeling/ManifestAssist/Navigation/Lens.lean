import ManifestAssist.Manifest.Tree
import ManifestAssist.Outline.Item
import ManifestAssist.Text.LineMap

/-! # Code lenses

A lens names a metric at the item of the text that describes it. The names come from a manifest,
which may be that of an earlier text; items and metrics are paired by their indices.
-/

namespace ManifestAssist

open Yaml (Value)

/-- The title of an item, at the line on which it starts. -/
structure Lens where
  span : Span
  line : Nat
  title : String
  deriving DecidableEq, Repr

namespace Lens

/-- The display name of a metric, or else its key. -/
def title? (metric : Value) : Option String :=
  (metric.get "metadata").field? "displayName" <|> metric.field? "key"

/-- The lenses of the items in the first block of metrics at the left margin. -/
def ofMetrics (text : Text) (manifest : Manifest) : List Lens :=
  match (declarations "metrics" text).find? (·.column == 0) with
  | none => []
  | some declaration =>
    let map := LineMap.ofText text
    (Outline.itemRangesAt "metrics" declaration.line text).filterMap fun item => do
      let title ← title? (← manifest.metrics[item.index]?)
      return ⟨item.span, map.lineAt item.span.start, title⟩

end Lens

end ManifestAssist
