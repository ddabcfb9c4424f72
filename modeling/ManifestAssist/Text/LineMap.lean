import ManifestAssist.Text.Width

/-! # Line map

Where the lines of a text start, to go from offsets to lines and back.
-/

namespace ManifestAssist

/-- A column of a line. -/
structure Position where
  line : Nat
  column : Nat
  deriving DecidableEq, Repr

/-- A text with the byte offsets at which its lines start. -/
structure LineMap where
  text : Text
  starts : List Nat

namespace LineMap

/-- The offsets right after each newline of a text that begins at `offset`. -/
def startsAfter (offset : Nat) : Text → List Nat
  | [] => []
  | c :: cs =>
    if c = '\n' then (offset + 1) :: startsAfter (offset + 1) cs
    else startsAfter (offset + c.utf8Size) cs

def ofText (text : Text) : LineMap :=
  ⟨text, 0 :: startsAfter 0 text⟩

variable (m : LineMap)

/-- The line that holds a byte offset. -/
def lineAt (offset : Nat) : Nat :=
  m.starts.countP (· ≤ offset) - 1

/-- The offset at which a line starts. -/
def start? (line : Nat) : Option Nat :=
  m.starts[line]?

/-- A line without its newline. -/
def line? (line : Nat) : Option Text := do
  let start ← m.start? line
  let stop := match m.start? (line + 1) with
    | some next => next - 1
    | none => m.text.bytes
  m.text.slice? start stop

/-- The offset of a position in bytes. A column past the end of its line or within a character is
moved back to the nearest boundary, and a line past the end stands for the end of the text. -/
def offset (position : Position) : Nat :=
  match m.start? position.line, m.line? position.line with
  | some start, some text => start + (text.takeWithin Char.utf8Size position.column).bytes
  | _, _ => m.text.bytes

end LineMap

end ManifestAssist
