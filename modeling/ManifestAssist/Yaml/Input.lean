import ManifestAssist.Text.Part

/-! # Reading positions

The characters that a YAML document may hold, and a position in it by line and column. A line ends
at a line feed, a carriage return, both in this order, or one of the three separators beyond ASCII.
-/

namespace ManifestAssist.Yaml

/-- Why a text is no YAML document. -/
inductive Error where
  /-- A character that no document may hold. -/
  | forbiddenChar
  /-- Text that starts no token, or a token without its end. -/
  | malformedToken
  /-- A token at a column or in a context that does not admit it. -/
  | misplacedToken
  /-- A token that the grammar does not expect. -/
  | unexpectedToken
  | unknownTagHandle
  | unknownAlias
  /-- A text that the tag ahead of it does not admit. -/
  | tagMismatch
  /-- An integer of more than 64 bits. -/
  | integerRange
  | duplicateKey
  | tooDeep
  | tooManyAliases
  | manyDocuments
  deriving DecidableEq, Repr

/-- May a document hold the character? -/
def isAllowed (c : Char) : Bool :=
  c == '\t' || c == '\n' || c == '\r' || (' ' ≤ c && c ≤ '~') || c.val == 0x85 ||
    (0xA0 ≤ c.val && c.val ≤ 0xFFFD) || 0x10000 ≤ c.val

def isBreak (c : Char) : Bool :=
  c == '\n' || c == '\r' || c.val == 0x85 || c.val == 0x2028 || c.val == 0x2029

def isGap (c : Char) : Bool :=
  c == ' ' || c == '\t'

def isGapOrBreak (c : Char) : Bool :=
  isGap c || isBreak c

/-- May the character stand in a name of an anchor, a directive or a tag handle? -/
def isWord (c : Char) : Bool :=
  c.isAlphanum || c == '_' || c == '-'

/-- Does white space or the end come first? -/
def atBlank : Text → Bool
  | [] => true
  | c :: _ => isGapOrBreak c

/-- A line break as it is kept in a scalar: a separator beyond ASCII that is no next line stays. -/
def breakText (c : Char) : Text :=
  if c.val == 0x2028 || c.val == 0x2029 then [c] else ['\n']

/-- Is a document marker, three hyphens or three periods ahead of white space, at the front? -/
def startsDocument (mark : Char) : Text → Bool
  | a :: b :: c :: rest => a == mark && b == mark && c == mark && atBlank rest
  | _ => false

def startsDocumentMark (text : Text) : Bool :=
  startsDocument '-' text || startsDocument '.' text

/-- The rest of a text with its place. -/
structure Input where
  rest : Text
  /-- The number of bytes ahead. -/
  offset : Nat
  line : Nat
  column : Nat

namespace Input

def ofText (text : Text) : Input :=
  ⟨text, 0, 0, 0⟩

/-- Moves over one character. -/
def step (input : Input) : Input :=
  match input.rest with
  | [] => input
  | '\r' :: '\n' :: rest => ⟨'\n' :: rest, input.offset + 1, input.line, input.column⟩
  | c :: rest =>
    if isBreak c then ⟨rest, input.offset + c.utf8Size, input.line + 1, 0⟩
    else ⟨rest, input.offset + c.utf8Size, input.line, input.column + 1⟩

/-- Moves over a number of characters. -/
def advance : Nat → Input → Input
  | 0, input => input
  | n + 1, input => advance n input.step

/-- Moves on to a later part of the text. -/
def moveTo (input : Input) (rest : Text) : Input :=
  input.advance (input.rest.length - rest.length)

/-- Moves over the characters in front that satisfy `p`. -/
def skipWhile (p : Char → Bool) (input : Input) : Input :=
  input.advance (input.rest.takeWhile p).length

end Input

end ManifestAssist.Yaml
