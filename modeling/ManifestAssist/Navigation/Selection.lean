import ManifestAssist.Outline.Block
import ManifestAssist.Outline.Chain
import ManifestAssist.Outline.Item
import ManifestAssist.Text.LineMap

/-! # Selections

The spans by which a selection grows around a line: what the line holds, then for each block around
it, from the innermost one on, the item with the line and the whole block.
-/

namespace ManifestAssist.Selection

open Text

/-- Adds a span at the end, if it is larger than the last one and covers it. -/
def grow (spans : List Span) (span : Span) : List Span :=
  match spans.getLast? with
  | some last => if span.covers last ∧ span ≠ last then spans ++ [span] else spans
  | none => [span]

/-- What a line holds between white space. -/
def content? (start : Nat) (line : Text) : Option Span :=
  if (trim line).isEmpty then none
  else some (.between (start + bytes (line.takeWhile isBlank)) (start + bytes (trimEnd line)))

/-- The spans of a label around a line that starts at an offset. -/
def around (text : Text) (line start : Nat) (label : String) : List Span :=
  let items := Outline.itemRangesAt label line text
  let item := items.find? fun item => item.span.contains (min start maxOffset)
  (item.map (·.span)).toList ++ (Outline.blockSpanAt? label line text).toList

/-- The growing spans around a line, innermost first. -/
def spansAt (text : Text) (line : Nat) : List Span :=
  let map := LineMap.ofText text
  match map.start? line, map.line? line with
  | some start, some content =>
    ((content? start content).toList ++
      (Outline.chain text line).reverse.flatMap (around text line start)).foldl grow []
  | _, _ => []

end ManifestAssist.Selection
