import ManifestAssist.Outline.Line

/-! # Chains of enclosing blocks

The blocks around a line are kept on a stack. A line with a label opens a frame at the column of its
content if the next line that counts is deeper, and every later line at or left of a frame closes
it.
-/

namespace ManifestAssist

open Text

/-- A block that is open at some line. -/
structure Frame where
  column : Nat
  label : String
  deriving DecidableEq, Repr

namespace Frame

/-- The frames, innermost first, that are still open at a line with this column. -/
def close (column : Nat) (frames : List Frame) : List Frame :=
  frames.dropWhile (column ≤ ·.column)

/-- The frames after a line: the next one that counts has its content at `next`. -/
def open? (line : Line) (column next : Nat) (frames : List Frame) : List Frame :=
  match line.label? with
  | some label => if column < next then ⟨column, label⟩ :: frames else frames
  | none => frames

/-- The frames that are open at `target`, after lines that are given with their content columns. -/
def run (target : Nat) : List Frame → List (Line × Nat) → List Frame
  | frames, [] => close target frames
  | frames, [(line, column)] => close target (open? line column target (close column frames))
  | frames, (line, column) :: (line', next) :: rest =>
    run target (open? line column next (close column frames)) ((line', next) :: rest)

end Frame

namespace Outline

/-- The lines that count, each with the column of its content. -/
def contents (lines : List Line) : List (Line × Nat) :=
  lines.filterMap fun line => line.contentColumn?.map fun column => (line, column)

/-- The column at which a line is nested. A blank line or a comment is nested where its spaces end.
-/
def nestingColumn (line : Line) : Nat :=
  line.contentColumn?.getD (leadingSpaces line.text)

/-- The name of a line at the left margin. -/
def ownLabel (line : Line) : String :=
  line.label?.getD (String.ofList (trimEnd (content line.text)))

/-- The labels of the blocks around a line, outermost first. A line at the left margin has just its
own, and a line past the end has none. -/
def chain (text : Text) (line : Nat) : List String :=
  match text.lines[line]? with
  | none => []
  | some target =>
    if target.indent? = some 0 then
      [ownLabel target]
    else
      let frames := Frame.run (nestingColumn target) [] (contents (text.lines.take line))
      frames.reverse.map Frame.label

end Outline

end ManifestAssist
