import ManifestAssist.Json.Value
import ManifestAssist.Text.Hex

/-! # Reading JSON

A text is one value, with white space around it and between its parts. A string holds no control
characters, and its escapes stand for whole characters: a surrogate comes with its other half.
-/

namespace ManifestAssist.Json

open Text

def isSpace (c : Char) : Bool :=
  c == ' ' || c == '\n' || c == '\r' || c == '\t'

def skipSpace (text : Text) : Text :=
  text.dropWhile isSpace

/-- The character that an escape of one letter stands for. -/
def escape? : Char → Option Char
  | '"' => some '"'
  | '\\' => some '\\'
  | '/' => some '/'
  | 'b' => some '\x08'
  | 'f' => some '\x0c'
  | 'n' => some '\n'
  | 'r' => some '\r'
  | 't' => some '\t'
  | _ => none

/-- The character of two halves of a surrogate pair. -/
def joinSurrogates? (high low : Nat) : Option Char :=
  if 0xD800 ≤ high ∧ high < 0xDC00 ∧ 0xDC00 ≤ low ∧ low < 0xE000 then
    some (Char.ofNat (0x10000 + (high - 0xD800) * 0x400 + (low - 0xDC00)))
  else
    none

/-- Reads the inside of a string up to its closing quote. -/
def readString? : Text → Option (Text × Text)
  | [] => none
  | '"' :: rest => some ([], rest)
  | '\\' :: 'u' :: a :: b :: c :: d :: rest => do
    let n ← valueIn? 16 [a, b, c, d]
    if n.isValidChar then
      let (text, rest) ← readString? rest
      return (Char.ofNat n :: text, rest)
    else
      match rest with
      | '\\' :: 'u' :: e :: f :: g :: h :: rest =>
        let c ← joinSurrogates? n (← valueIn? 16 [e, f, g, h])
        let (text, rest) ← readString? rest
        return (c :: text, rest)
      | _ => none
  | '\\' :: c :: rest => do
    let c ← escape? c
    let (text, rest) ← readString? rest
    return (c :: text, rest)
  | c :: rest => do
    guard (' ' ≤ c && c != '\\')
    let (text, rest) ← readString? rest
    return (c :: text, rest)

/-- Splits off digits, of which there is at least one. -/
def digits? (text : Text) : Option (Text × Text) :=
  let (digits, rest) := text.span Char.isDigit
  if digits.isEmpty then none else some (digits, rest)

def readFraction? : Text → Option (Text × Text)
  | '.' :: rest => (digits? rest).map fun (digits, rest) => ('.' :: digits, rest)
  | rest => some ([], rest)

def readSign : Text → Text × Text
  | '+' :: rest => (['+'], rest)
  | '-' :: rest => (['-'], rest)
  | rest => ([], rest)

def readPower? : Text → Option (Text × Text)
  | [] => some ([], [])
  | c :: rest =>
    if c = 'e' ∨ c = 'E' then do
      let (sign, rest) := readSign rest
      let (digits, rest) ← digits? rest
      return (c :: sign ++ digits, rest)
    else
      some ([], c :: rest)

/-- Reads a number: digits without a needless zero in front, and perhaps a fraction and a power of
ten. -/
def readNumber? (text : Text) : Option (Text × Text) := do
  let (minus, rest) := match text with
    | '-' :: rest => (['-'], rest)
    | rest => ([], rest)
  let (digits, rest) ← digits? rest
  guard (digits.length = 1 || digits.head? != some '0')
  let (fraction, rest) ← readFraction? rest
  let (power, rest) ← readPower? rest
  return (minus ++ digits ++ fraction ++ power, rest)

mutual

/-- Reads a value behind white space. The number bounds the calls. -/
def readValue? (fuel : Nat) (text : Text) : Option (Json × Text) :=
  match fuel with
  | 0 => none
  | fuel + 1 =>
    match skipSpace text with
    | 'n' :: 'u' :: 'l' :: 'l' :: rest => some (null, rest)
    | 't' :: 'r' :: 'u' :: 'e' :: rest => some (bool true, rest)
    | 'f' :: 'a' :: 'l' :: 's' :: 'e' :: rest => some (bool false, rest)
    | '"' :: rest => do
      let (s, rest) ← readString? rest
      return (string (String.ofList s), rest)
    | '[' :: rest => do
      let (items, rest) ← readItems? fuel true rest
      return (array items, rest)
    | '\x7b' :: rest => do
      let (members, rest) ← readMembers? fuel true rest
      return (object members, rest)
    | rest => do
      let (digits, rest) ← readNumber? rest
      return (number digits, rest)

/-- Reads the items of an array up to its end. A comma stands ahead of each but the first. -/
def readItems? (fuel : Nat) (isFirst : Bool) (text : Text) : Option (List Json × Text) :=
  match fuel with
  | 0 => none
  | fuel + 1 =>
    match skipSpace text, isFirst with
    | ']' :: rest, _ => some ([], rest)
    | rest, true => do
      let (item, rest) ← readValue? fuel rest
      let (items, rest) ← readItems? fuel false rest
      return (item :: items, rest)
    | ',' :: rest, false => do
      let (item, rest) ← readValue? fuel rest
      let (items, rest) ← readItems? fuel false rest
      return (item :: items, rest)
    | _, false => none

/-- Reads the members of an object up to its end. -/
def readMembers? (fuel : Nat) (isFirst : Bool) (text : Text) :
    Option (List (String × Json) × Text) :=
  match fuel with
  | 0 => none
  | fuel + 1 =>
    match skipSpace text, isFirst with
    | '\x7d' :: rest, _ => some ([], rest)
    | rest, true => do
      let (member, rest) ← readMember? fuel rest
      let (members, rest) ← readMembers? fuel false rest
      return (member :: members, rest)
    | ',' :: rest, false => do
      let (member, rest) ← readMember? fuel rest
      let (members, rest) ← readMembers? fuel false rest
      return (member :: members, rest)
    | _, false => none

def readMember? (fuel : Nat) (text : Text) : Option ((String × Json) × Text) :=
  match fuel with
  | 0 => none
  | fuel + 1 =>
    match skipSpace text with
    | '"' :: rest => do
      let (name, rest) ← readString? rest
      match skipSpace rest with
      | ':' :: rest =>
        let (value, rest) ← readValue? fuel rest
        return ((String.ofList name, value), rest)
      | _ => none
    | _ => none

end

/-- The value of a text that is JSON. -/
def parse? (text : Text) : Option Json := do
  let (value, rest) ← readValue? (2 * text.length + 2) text
  guard (skipSpace rest).isEmpty
  return value

end ManifestAssist.Json
