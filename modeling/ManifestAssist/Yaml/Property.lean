import ManifestAssist.Yaml.Folding
import ManifestAssist.Yaml.Token

/-! # Tags, anchors and directives

The words that stand ahead of a node or of a document.
-/

namespace ManifestAssist.Yaml

/-- May the character stand in a tag? Flow indicators may do so only within a tag in full. -/
def isTagChar (inFull : Bool) (c : Char) : Bool :=
  isWord c || ";/?:@&=+$.%!~*'()".toList.contains c || (inFull && ",[]".toList.contains c)

/-- How many bytes of a character follow its first one. -/
def bytesBehind? (first : UInt8) : Option Nat :=
  if first < 0x80 then some 0
  else if first < 0xC0 then none
  else if first < 0xE0 then some 1
  else if first < 0xF0 then some 2
  else if first < 0xF8 then some 3
  else none

/-- How many bytes of a character are to come behind a byte, if `due` were to come with it. -/
def bytesDue? : Nat → UInt8 → Option Nat
  | 0, byte => bytesBehind? byte
  | due + 1, byte => if 0x80 ≤ byte && byte < 0xC0 then some due else none

/-- The bytes that the characters of a tag stand for, some of which may be escaped in hexadecimal.
Where an escaped byte starts a character, the others it is `due` must be escaped right behind. -/
def tagBytes? : Nat → Text → Option Tag
  | 0, [] => some []
  | _ + 1, [] => none
  | due, '%' :: a :: b :: rest => do
    let byte := (← Text.valueIn? 16 [a, b]).toUInt8
    let bytes ← tagBytes? (← bytesDue? due byte) rest
    return byte :: bytes
  | due, c :: rest => do
    guard (due == 0 && c != '%')
    let bytes ← tagBytes? 0 rest
    return String.utf8EncodeChar c ++ bytes

/-- A part of a tag without its escapes. It ends ahead of a zero byte. -/
def unescapeTag? (text : Text) : Option Tag :=
  (tagBytes? 0 text).map (·.takeWhile (· != 0))

/-- Reads the characters of a tag, of which there is at least one. -/
def readTagText? (inFull : Bool) (text : Text) : Option (Tag × Text) := do
  let (raw, rest) := text.span (isTagChar inFull)
  guard (!raw.isEmpty)
  let name ← unescapeTag? raw
  return (name, rest)

/-- Splits off a handle: a word between exclamation marks, the second of which may be absent. -/
def readHandle? (text : Text) : Option (Text × Text) := do
  let rest ← text.dropFront? ['!']
  let (word, rest) := rest.span isWord
  match rest with
  | '!' :: rest => return ('!' :: word ++ ['!'], rest)
  | rest => return ('!' :: word, rest)

/-- Is the handle closed by a second exclamation mark? -/
def isClosed (handle : Text) : Bool :=
  handle.length ≥ 2 && handle.getLast? == some '!'

/-- Reads a tag. A word that is no closed handle is the start of a suffix of the handle of one mark;
the mark alone is a tag in full. -/
def readTagName? (text : Text) : Option (TagName × Text) :=
  match text with
  | '!' :: '<' :: rest => do
    let (suffix, rest) ← readTagText? true rest
    let rest ← rest.dropFront? ['>']
    return (⟨[], suffix⟩, rest)
  | text => do
    let (handle, rest) ← readHandle? text
    if isClosed handle then
      let (suffix, rest) ← readTagText? false rest
      return (⟨handle, suffix⟩, rest)
    else
      let (raw, rest) := rest.span (isTagChar false)
      let suffix := Tag.ofText handle.tail ++ (← unescapeTag? raw)
      return (if suffix.isEmpty then ⟨[], Tag.ofText handle⟩ else ⟨['!'], suffix⟩, rest)

/-- Reads a tag, which white space must follow, or in a flow collection a comma. -/
def readTag? (inFlow : Bool) (text : Text) : Option (TagName × Text) := do
  let (tag, rest) ← readTagName? text
  guard (atBlank rest || (inFlow && rest.head? == some ','))
  return (tag, rest)

/-- Reads the name of an anchor or an alias behind its indicator. -/
def readName? (text : Text) : Option (Text × Text) := do
  let (name, rest) := text.span isWord
  guard (!name.isEmpty && (atBlank rest || rest.head?.any "?:,]\x7d%@`".toList.contains))
  return (name, rest)

/-- Reads a number of at most nine digits. -/
def readVersionPart? (text : Text) : Option (Nat × Text) := do
  let (digits, rest) := text.span Char.isDigit
  guard (!digits.isEmpty && digits.length ≤ 9)
  return (Nat.ofDigitChars 10 digits 0, rest)

/-- Reads a directive behind its percent sign, up to the end of its line. -/
def readDirective? (text : Text) : Option (Token × Text) := do
  let (name, rest) := text.span isWord
  guard (atBlank rest)
  let rest := rest.dropWhile isGap
  if name = "YAML".toList then
    let (major, rest) ← readVersionPart? rest
    let rest ← rest.dropFront? ['.']
    let (minor, rest) ← readVersionPart? rest
    return (.version major minor, rest)
  else if name = "TAG".toList then
    let (handle, rest) ← readHandle? rest
    guard (isClosed handle || handle == ['!'])
    guard (rest.head?.any isGap)
    let (expansion, rest) ← readTagText? true (rest.dropWhile isGap)
    guard (atBlank rest)
    return (.handle handle expansion, rest)
  else
    none

end ManifestAssist.Yaml
