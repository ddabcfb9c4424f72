import ManifestAssist.Outline.Line
import ManifestAssist.Text.Span

/-! # Spans of blocks

A block reaches from its label to the first later line that is left of the label, or at its column
without a list marker.
-/

namespace ManifestAssist.Outline

open Text

/-- Does a line end a block whose label is at a column? -/
def exits (column : Nat) (line : Line) : Bool :=
  match line.indent? with
  | some indent => indent < column || (indent == column && line.marker? == none)
  | none => false

/-- The span of the block that a line declares. -/
def blockOf (text : Text) (line : Line) : Span :=
  let stop := match (text.lines.drop (line.number + 1)).find? (exits line.labelColumn) with
    | some last => last.start
    | none => text.bytes
  .between (line.start + line.labelColumn) stop

/-- The span of the first block of a label. -/
def blockSpan? (label : String) (text : Text) : Option Span :=
  (text.lines.find? (·.declares label)).map (blockOf text)

/-- The span of the innermost block of a label that holds a line. -/
def blockSpanAt? (label : String) (line : Nat) (text : Text) : Option Span := do
  let target ← text.lines[line]?
  let opening ← (text.lines.take (line + 1)).reverse.find? fun opening =>
    opening.declares label && (opening.number == line || target.start < (blockOf text opening).stop)
  return blockOf text opening

end ManifestAssist.Outline
