import ManifestAssist.Text.Blank
import ManifestAssist.Text.Part

/-! # Lines of an outline

Nesting is read off the lines of a text by their columns alone, so that it is known also while the
text is no valid document. A line counts if it holds more than spaces and a comment. A list item
starts with a marker, a hyphen ahead of a space or of the end of the line; what follows its markers
may open a block by a label ahead of a colon.
-/

namespace ManifestAssist

open Text

/-- A line with its place in the text. -/
structure Line where
  number : Nat
  start : Nat
  text : Text
  deriving DecidableEq, Repr

/-- The byte offset of the end of the line, ahead of its newline. -/
def Line.stop (line : Line) : Nat :=
  line.start + line.text.bytes

/-- The lines with these texts, the first of which has the given number and start. -/
def Line.locate (number start : Nat) : List Text → List Line
  | [] => []
  | text :: texts => ⟨number, start, text⟩ :: locate (number + 1) (start + text.bytes + 1) texts

/-- The lines of a text. A newline at the end is followed by one more line, which is empty. -/
def Text.lines (text : Text) : List Line :=
  Line.locate 0 0 (text.splitAll '\n')

namespace Outline

/-- Does the text start with a list marker? -/
def startsWithMarker : Text → Bool
  | ['-'] => true
  | '-' :: c :: _ => c == ' ' || c == '\r'
  | _ => false

/-- The column of the first character that is no space, unless the line is blank or a comment. -/
def indent? (line : Text) : Option Nat :=
  match trimEnd (dropSpaces line) with
  | [] => none
  | c :: _ => if c = '#' then none else some (leadingSpaces line)

/-- Does the line take part in nesting? -/
def isSignificant (line : Text) : Bool :=
  (indent? line).isSome

/-- The column of the marker of a list item. -/
def marker? (line : Text) : Option Nat := do
  let column ← indent? line
  if startsWithMarker (dropSpaces line) then some column else none

def isListItem (line : Text) : Bool :=
  (marker? line).isSome

theorem length_dropSpaces_tail_lt {text : Text} (h : startsWithMarker text) :
    (dropSpaces text.tail).length < text.length := by
  cases text with
  | nil => simp [startsWithMarker] at h
  | cons c cs =>
    have := (List.dropWhile_sublist isSpace (l := cs)).length_le
    simp only [dropSpaces, List.tail_cons, List.length_cons]
    omega

/-- The column behind the markers of a text that starts at `column`. A marker that nothing follows
counts as if it had a space behind it. -/
def columnBehindMarkers (column : Nat) (text : Text) : Nat :=
  if startsWithMarker text then
    let gap := leadingSpaces text.tail
    let rest := dropSpaces text.tail
    if rest.all isBlank then column + 1 + max gap 1
    else columnBehindMarkers (column + 1 + gap) rest
  else
    column
  termination_by text.length
  decreasing_by exact length_dropSpaces_tail_lt ‹_›

/-- The column of the content of a line behind its list markers. -/
def contentColumn? (line : Text) : Option Nat := do
  let column ← indent? line
  return columnBehindMarkers column (dropSpaces line)

/-- Drops the list markers in front and the spaces behind each. -/
def dropMarkers (text : Text) : Text :=
  if startsWithMarker text then dropMarkers (dropSpaces text.tail) else text
  termination_by text.length
  decreasing_by exact length_dropSpaces_tail_lt ‹_›

/-- What a line holds behind its spaces and markers. -/
def content (line : Text) : Text :=
  dropMarkers (dropSpaces line)

/-- What a text holds between two quotes of one kind. -/
def betweenQuotes? (quote : Char) (text : Text) : Option Text := do
  let rest ← dropFront? text [quote]
  dropBack? rest [quote]

/-- A key without the double or single quotes around it. -/
def unquote (key : Text) : Text :=
  (betweenQuotes? '"' key <|> betweenQuotes? '\'' key).getD key

/-- The label of a line: its key ahead of the first colon, unless it is empty. -/
def label? (line : Text) : Option String := do
  let (key, _) ← splitFirst ':' (content line)
  let name := unquote (trim key)
  if name.isEmpty then none else some (String.ofList name)

/-- Does the line open a block of this label? -/
def declares (line : Text) (label : String) : Bool :=
  match splitFirst ':' (content line) with
  | some (key, _) => String.ofList (unquote (trimEnd key)) == label
  | none => false

end Outline

open Outline

namespace Line

def indent? (line : Line) : Option Nat := Outline.indent? line.text

def marker? (line : Line) : Option Nat := Outline.marker? line.text

def contentColumn? (line : Line) : Option Nat := Outline.contentColumn? line.text

def label? (line : Line) : Option String := Outline.label? line.text

def isSignificant (line : Line) : Bool := Outline.isSignificant line.text

def declares (line : Line) (label : String) : Bool := Outline.declares line.text label

/-- The column of the label that a line declares. -/
def labelColumn (line : Line) : Nat := line.contentColumn?.getD 0

end Line

/-- A line that opens a block. -/
structure Declaration where
  line : Nat
  column : Nat
  offset : Nat
  deriving DecidableEq, Repr

/-- The declarations of a label in the order of the text. -/
def declarations (label : String) (text : Text) : List Declaration :=
  (text.lines.filter (·.declares label)).filterMap fun line =>
    line.contentColumn?.map fun column => ⟨line.number, column, line.start + column⟩

end ManifestAssist
