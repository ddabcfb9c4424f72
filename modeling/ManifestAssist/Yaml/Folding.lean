import ManifestAssist.Text.Hex
import ManifestAssist.Yaml.Input

/-! # Folded text

The text of scalars. White space within a line is kept. A line break with the white space around it
is one space, and a run of several is all but the first of them.
-/

namespace ManifestAssist.Yaml

open Text

/-- White space that has been read but not yet joined to the text before it. -/
inductive Gap where
  | blanks (text : Text)
  | breaks (first more : Text)
  deriving DecidableEq, Repr

namespace Gap

def none : Gap :=
  blanks []

/-- The gap after a space or a tab. White space after a break is dropped. -/
def blank (c : Char) : Gap → Gap
  | blanks text => blanks (text ++ [c])
  | breaks first more => breaks first more

/-- The gap after a line break. White space ahead of the first one is dropped. -/
def lineBreak (text : Text) : Gap → Gap
  | blanks _ => breaks text []
  | breaks first more => breaks first (more ++ text)

def isBroken : Gap → Bool
  | blanks _ => false
  | breaks .. => true

/-- The first break is dropped if it is a plain one, and is a space if it is the only one. -/
def fold (first more : Text) : Text :=
  if first = ['\n'] then (if more.isEmpty then [' '] else more) else first ++ more

/-- The text that stands for the gap. -/
def text : Gap → Text
  | blanks text => text
  | breaks first more => fold first more

end Gap

/-- Reads the inside of a text in single quotes: a quote in it is written twice. The text read so
far is given in reverse. -/
def readSingle (atMargin : Bool) (gap : Gap) (read : Text) : Text → Option (Text × Text)
  | [] => none
  | '\r' :: '\n' :: rest => readSingle true (gap.lineBreak ['\n']) read rest
  | c :: rest =>
    if isBreak c then readSingle true (gap.lineBreak (breakText c)) read rest
    else if isGap c then readSingle false (gap.blank c) read rest
    else if atMargin && startsDocumentMark (c :: rest) then none
    else
      let read := gap.text.reverse ++ read
      if c = '\'' then
        match rest with
        | '\'' :: rest => readSingle false .none ('\'' :: read) rest
        | rest => some (read.reverse, rest)
      else
        readSingle false .none (c :: read) rest

/-- The character that an escape of one letter stands for. -/
def escape? : Char → Option Char
  | '0' => some '\x00'
  | 'a' => some '\x07'
  | 'b' => some '\x08'
  | 't' => some '\t'
  | '\t' => some '\t'
  | 'n' => some '\n'
  | 'v' => some '\x0b'
  | 'f' => some '\x0c'
  | 'r' => some '\r'
  | 'e' => some '\x1b'
  | ' ' => some ' '
  | '"' => some '"'
  | '/' => some '/'
  | '\\' => some '\\'
  | 'N' => some '\u0085'
  | '_' => some '\u00a0'
  | 'L' => some '\u2028'
  | 'P' => some '\u2029'
  | _ => none

/-- The character with a code point in hexadecimal. -/
def hexChar? (digits : Text) : Option Char := do
  let n ← valueIn? 16 digits
  if n.isValidChar then some (Char.ofNat n) else none

/-- Reads the inside of a text in double quotes, with its escapes. The text read so far is given in
reverse. -/
def readDouble (atMargin : Bool) (gap : Gap) (read : Text) : Text → Option (Text × Text)
  | [] => none
  | '\r' :: '\n' :: rest => readDouble true (gap.lineBreak ['\n']) read rest
  | c :: rest =>
    if isBreak c then readDouble true (gap.lineBreak (breakText c)) read rest
    else if isGap c then readDouble false (gap.blank c) read rest
    else if atMargin && startsDocumentMark (c :: rest) then none
    else
      let read := gap.text.reverse ++ read
      if c = '"' then some (read.reverse, rest)
      else if c = '\\' then
        match rest with
        | '\r' :: '\n' :: rest => readDouble true (.breaks [] []) read rest
        | 'x' :: a :: b :: rest =>
          (hexChar? [a, b]).bind fun h => readDouble false .none (h :: read) rest
        | 'u' :: a :: b :: c :: d :: rest =>
          (hexChar? [a, b, c, d]).bind fun h => readDouble false .none (h :: read) rest
        | 'U' :: a :: b :: c :: d :: e :: f :: g :: h :: rest =>
          (hexChar? [a, b, c, d, e, f, g, h]).bind fun h => readDouble false .none (h :: read) rest
        | e :: rest =>
          if isBreak e then readDouble true (.breaks [] []) read rest
          else (escape? e).bind fun h => readDouble false .none (h :: read) rest
        | [] => none
      else
        readDouble false .none (c :: read) rest

/-- What is read of a plain scalar: its text, whether a line break follows it, and the rest. -/
structure Plain where
  text : Text
  isBroken : Bool
  rest : Text

/-- Reads a plain scalar up to a colon or a comment that white space sets off, a line that is left
of `margin`, or in a flow collection one of its indicators. The text read so far is given in
reverse. -/
def readPlain (inFlow : Bool) (margin column : Nat) (gap : Gap) (read : Text) :
    Text → Option Plain
  | [] => some ⟨read.reverse, gap.isBroken, []⟩
  | '\r' :: '\n' :: rest => readPlain inFlow margin 0 (gap.lineBreak ['\n']) read rest
  | c :: rest =>
    if isBreak c then readPlain inFlow margin 0 (gap.lineBreak (breakText c)) read rest
    else if isGap c then
      if gap.isBroken && decide (column < margin) && c == '\t' then none
      else readPlain inFlow margin (column + 1) (gap.blank c) read rest
    else
      let ends := some ⟨read.reverse, gap.isBroken, c :: rest⟩
      let isFirst := gap != .none
      if isFirst && !inFlow && decide (column < margin) then ends
      else if isFirst && (c == '#' || (column == 0 && startsDocumentMark (c :: rest))) then ends
      else if inFlow && c == ':' && rest.head?.any ",?[]\x7b\x7d".toList.contains then none
      else if c == ':' && atBlank rest then ends
      else if inFlow && ",[]\x7b\x7d".toList.contains c then ends
      else readPlain inFlow margin (column + 1) .none (c :: (gap.text.reverse ++ read)) rest

end ManifestAssist.Yaml
