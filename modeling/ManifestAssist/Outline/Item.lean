import ManifestAssist.Outline.Line
import ManifestAssist.Text.Span

/-! # Items of a block

The items of a labelled block are the list items at one column, that of the first line that counts
after the declaration; it must be a list item at or right of the label. One scan counts them up to a
line, the other finds the spans that they take up.
-/

namespace ManifestAssist

open Text

/-- The place of a line among the items of a block. -/
inductive ItemIndex where
  | undeclared
  | beforeItems
  | item (n : Nat)
  deriving DecidableEq, Repr

namespace ItemIndex

def item? : ItemIndex → Option Nat
  | item n => some n
  | _ => none

/-- The encoding as one integer: negative where there is no item, and held within 64 bits. -/
def code : ItemIndex → Int
  | undeclared => -2
  | beforeItems => -1
  | item n => min n 0x7FFFFFFFFFFFFFFF

end ItemIndex

/-- What a scan over the lines of a block has seen of its items. -/
inductive ItemScan where
  /-- No declaration yet. -/
  | undeclared
  /-- Declared at a column, with no line that counts since. -/
  | declared (column : Nat)
  /-- The first line that counts was no item of the block. -/
  | noItems
  /-- The items are at a column, and this is the last one that started. -/
  | items (column last : Nat)
  deriving DecidableEq, Repr

namespace ItemScan

def index : ItemScan → ItemIndex
  | undeclared => .undeclared
  | declared _ => .beforeItems
  | noItems => .beforeItems
  | items _ last => .item last

/-- Moves over a line. A declaration starts the scan again. -/
def step (label : String) (scan : ItemScan) (line : Line) : ItemScan :=
  if line.declares label then
    declared line.labelColumn
  else if line.isSignificant then
    match scan, line.marker? with
    | declared column, some marker => if column ≤ marker then items marker 0 else noItems
    | declared _, none => noItems
    | items column last, marker => if marker = some column then items column (last + 1) else scan
    | scan, _ => scan
  else
    scan

end ItemScan

/-- A list item of a block, with the span from its marker's line to the next item or the end. -/
structure ItemRange where
  index : Nat
  span : Span
  deriving DecidableEq, Repr

namespace Outline

/-- The item of the block `label` that a line belongs to. The last declaration at or before it
counts. -/
def itemIndex (label : String) (line : Nat) (text : Text) : ItemIndex :=
  ((text.lines.take (line + 1)).foldl (ItemScan.step label) .undeclared).index

/-- The starts of further items at a column, and the offset at which they end. -/
def itemStarts (column stop : Nat) : List Line → List Nat × Nat
  | [] => ([], stop)
  | line :: lines =>
    match line.indent? with
    | none => itemStarts column stop lines
    | some indent =>
      if indent < column ∨ (indent = column ∧ line.marker? = none) then
        ([], line.start)
      else
        let (starts, stop) := itemStarts column stop lines
        (if line.marker? = some column then line.start :: starts else starts, stop)

/-- The items from the given one on, each of which ends where the next one starts. -/
def ranges (stop : Nat) : Nat → List Nat → List ItemRange
  | _, [] => []
  | index, [start] => [⟨index, .between start stop⟩]
  | index, start :: next :: starts =>
    ⟨index, .between start next⟩ :: ranges stop (index + 1) (next :: starts)

/-- The items in the lines after a declaration, for a label at a column of a text that ends at
`stop`. -/
def rangesAfter (column stop : Nat) : List Line → List ItemRange
  | [] => []
  | line :: lines =>
    if line.isSignificant then
      match line.marker? with
      | some marker =>
        if column ≤ marker then
          let (starts, stop) := itemStarts marker stop lines
          ranges stop 0 (line.start :: starts)
        else
          []
      | none => []
    else
      rangesAfter column stop lines

/-- The items of the block that a line declares. -/
def rangesOf (text : Text) (line : Line) : List ItemRange :=
  rangesAfter line.labelColumn text.bytes (text.lines.drop (line.number + 1))

/-- The items of the first block of a label. -/
def itemRanges (label : String) (text : Text) : List ItemRange :=
  match text.lines.find? (·.declares label) with
  | some line => rangesOf text line
  | none => []

/-- The items of the block of a label that was declared last at or before a line. -/
def itemRangesAt (label : String) (line : Nat) (text : Text) : List ItemRange :=
  match (text.lines.take (line + 1)).reverse.find? (·.declares label) with
  | some line => rangesOf text line
  | none => []

end Outline

end ManifestAssist
