import ManifestAssist.Completion.Slot
import ManifestAssist.Outline.Chain
import ManifestAssist.Outline.Item
import ManifestAssist.Text.LineMap

/-! # Cursors

A cursor in the value of a key, with the blocks and the items around it.
-/

namespace ManifestAssist

structure Cursor where
  text : Text
  line : Nat
  /-- The offset of the cursor. -/
  offset : Nat
  /-- The rest of the line behind the cursor. -/
  rest : Text
  /-- The labels of the blocks around the line, outermost first. -/
  chain : List String
  slot : Slot

namespace Cursor

/-- The cursor at a position, unless there is no value. -/
def at? (text : Text) (position : Position) : Option Cursor := do
  let map := LineMap.ofText text
  let start ← map.start? position.line
  let line ← map.line? position.line
  let offset := map.offset position
  let (typed, rest) ← line.cut? Char.utf8Size (offset - start)
  let slot ← Slot.ofTyped? typed
  return {
    text, offset, rest, slot
    line := position.line
    chain := Outline.chain text position.line }

variable (cursor : Cursor)

/-- The label of the outermost block. -/
def root? : Option String :=
  cursor.chain.head?

/-- The label of the innermost block. -/
def parent? : Option String :=
  cursor.chain.getLast?

def isWithin (label : String) : Bool :=
  cursor.chain.contains label

/-- Do the innermost blocks have these labels? -/
def endsWith (labels : List String) : Bool :=
  labels.isSuffixOf cursor.chain

/-- The index of the item that holds the line, in the block of a label. -/
def item? (label : String) : Option Nat :=
  (Outline.itemIndex label cursor.line cursor.text).item?

/-- The span of a text that ends at the cursor. -/
def spanOf (typed : Text) : Span :=
  .between (cursor.offset - typed.bytes) cursor.offset

/-- The span of the value. -/
def valueSpan : Span :=
  cursor.spanOf cursor.slot.value

end Cursor

end ManifestAssist
