import ManifestAssist.Yaml.BlockText
import ManifestAssist.Yaml.Property

/-! # Layout

Tokens are read off a text one after another. Columns open and close the block collections: one
opens at a column right of the innermost open one, and every one right of the next token is closed.
A key is known only by the colon behind it, so each place where a simple key may start is
remembered; the colon must come on the same line and within 1024 bytes.
-/

namespace ManifestAssist.Yaml

/-- A place where a simple key may have started. -/
structure KeyPlace where
  /-- Must a colon follow, as no other token can start at this column? -/
  isRequired : Bool
  /-- The number of tokens ahead of it. -/
  position : Nat
  offset : Nat
  line : Nat
  column : Nat

structure Layout where
  input : Input
  /-- The tokens so far, the last one first. -/
  tokens : List Token := []
  count : Nat := 0
  /-- The columns of the open block collections, innermost first. -/
  columns : List Nat := []
  /-- The place of a key in each open flow collection, innermost first. -/
  flows : List (Option KeyPlace) := []
  /-- The place of a key in the block collection around. -/
  place : Option KeyPlace := none
  /-- May a simple key start here? -/
  allowsKey : Bool := true

namespace Layout

abbrev Step := Except Error Layout

def inFlow (l : Layout) : Bool :=
  !l.flows.isEmpty

/-- The column from which on the content of the innermost block collection is read. -/
def margin (l : Layout) : Nat :=
  match l.columns with
  | [] => 0
  | column :: _ => column + 1

def push (token : Token) (l : Layout) : Layout :=
  { l with tokens := token :: l.tokens, count := l.count + 1 }

/-- Puts a token behind the first `position` ones. -/
def insert (position : Nat) (token : Token) (l : Layout) : Layout :=
  let after := l.count - position
  { l with tokens := l.tokens.take after ++ token :: l.tokens.drop after, count := l.count + 1 }

def skip (n : Nat) (l : Layout) : Layout :=
  { l with input := l.input.advance n }

/-- Adds a token that was read up to `rest`. -/
def take (token : Token) (rest : Text) (l : Layout) : Layout :=
  { l.push token with input := l.input.moveTo rest }

/-- The place of a key in the innermost collection. -/
def key? (l : Layout) : Option KeyPlace :=
  match l.flows with
  | [] => l.place
  | place :: _ => place

def setKey (place : Option KeyPlace) (l : Layout) : Layout :=
  match l.flows with
  | [] => { l with place := place }
  | _ :: flows => { l with flows := place :: flows }

/-- Gives up the place of a key, which is an error if it had to be one. -/
def dropKey (l : Layout) : Step :=
  if l.key?.any (·.isRequired) then throw .misplacedToken else return l.setKey none

/-- Remembers this place as that of a key. -/
def saveKey (l : Layout) : Step :=
  if l.allowsKey then do
    let isRequired := !l.inFlow && l.columns.head? == some l.input.column
    let l ← l.dropKey
    return l.setKey (some ⟨isRequired, l.count, l.input.offset, l.input.line, l.input.column⟩)
  else
    return l

/-- Can the key no longer be followed by its colon? -/
def isStale (input : Input) (place : KeyPlace) : Bool :=
  place.line < input.line || place.offset + 1024 < input.offset

def checkPlace (input : Input) : Option KeyPlace → Except Error (Option KeyPlace)
  | none => return none
  | some place =>
    if isStale input place then
      if place.isRequired then throw .misplacedToken else return none
    else
      return some place

/-- Gives up all places that have become stale. -/
def dropStale (l : Layout) : Step := do
  let place ← checkPlace l.input l.place
  let flows ← l.flows.mapM (checkPlace l.input)
  return { l with place := place, flows := flows }

/-- Opens a block collection at a column, unless one is open there. -/
def openAt (column : Nat) (token : Token) (position : Nat) (l : Layout) : Layout :=
  if !l.inFlow && l.margin ≤ column then
    { l.insert position token with columns := column :: l.columns }
  else
    l

/-- Closes the block collections that are not left of `margin`. -/
def closeTo (margin : Nat) (l : Layout) : Layout :=
  if l.inFlow then l
  else
    let closed := l.columns.takeWhile (margin ≤ ·)
    let l := closed.foldl (fun l _ => l.push .blockEnd) l
    { l with columns := l.columns.drop closed.length }

/-- Moves over white space, comments and line breaks; the number bounds the lines. A tab is white
space only where no block collection can start, and a byte order mark only in front of a line. -/
def skipBlanks : Nat → Layout → Layout
  | 0, l => l
  | n + 1, l =>
    let hasMark := l.input.column == 0 && l.input.rest.head? == some '\ufeff'
    let l := if hasMark then l.skip 1 else l
    let allowsTab := l.inFlow || !l.allowsKey
    let input := l.input.skipWhile fun c => c == ' ' || (allowsTab && c == '\t')
    let input := if input.rest.head? == some '#' then input.skipWhile (!isBreak ·) else input
    let l := { l with input := input }
    match input.rest with
    | [] => l
    | c :: next =>
      if isBreak c then
        let length := if c == '\r' && next.head? == some '\n' then 2 else 1
        let l := l.skip length
        skipBlanks n (if l.inFlow then l else { l with allowsKey := true })
      else
        l

def readOr {α : Type} (error : Error) : Option α → Except Error α
  | some a => return a
  | none => throw error

def disallowKey (l : Layout) : Layout :=
  { l with allowsKey := false }

def allowKey (l : Layout) : Layout :=
  { l with allowsKey := true }

def directive (l : Layout) : Step := do
  let l := l.closeTo 0
  let l ← l.dropKey
  let (token, rest) ← readOr .malformedToken (readDirective? l.input.rest.tail)
  let rest ← readOr .malformedToken (BlockHeader.lineEnd? rest)
  return (l.take token rest).disallowKey

def documentMark (token : Token) (l : Layout) : Step := do
  let l ← (l.closeTo 0).dropKey
  return ((l.push token).skip 3).disallowKey

def openFlow (token : Token) (l : Layout) : Step := do
  let l ← l.saveKey
  return ({ l with flows := none :: l.flows }.push token |>.skip 1).allowKey

def closeFlow (token : Token) (l : Layout) : Step := do
  let l ← l.dropKey
  return ({ l with flows := l.flows.tail }.push token |>.skip 1).disallowKey

def comma (l : Layout) : Step := do
  let l ← l.dropKey
  return ((l.push .comma).skip 1).allowKey

def entry (l : Layout) : Step := do
  if !l.inFlow && !l.allowsKey then throw .misplacedToken
  let l ← (l.openAt l.input.column .blockSequence l.count).dropKey
  return ((l.push .entry).skip 1).allowKey

def explicitKey (l : Layout) : Step := do
  if !l.inFlow && !l.allowsKey then throw .misplacedToken
  let l ← (l.openAt l.input.column .blockMapping l.count).dropKey
  return { (l.push .key).skip 1 with allowsKey := !l.inFlow }

/-- A colon. If a simple key can have started before it, that place becomes the place of the key. -/
def value (l : Layout) : Step :=
  match l.key? with
  | some place =>
    let l := (l.insert place.position .key).openAt place.column .blockMapping place.position
    return (((l.setKey none).push .value).skip 1).disallowKey
  | none => do
    if !l.inFlow && !l.allowsKey then throw .misplacedToken
    let l := l.openAt l.input.column .blockMapping l.count
    return { (l.push .value).skip 1 with allowsKey := !l.inFlow }

def named (token : Text → Token) (l : Layout) : Step := do
  let l ← l.saveKey
  let (name, rest) ← readOr .malformedToken (readName? l.input.rest.tail)
  return (l.take (token name) rest).disallowKey

def tag (l : Layout) : Step := do
  let l ← l.saveKey
  let (name, rest) ← readOr .malformedToken (readTag? l.inFlow l.input.rest)
  return (l.take (.tag name) rest).disallowKey

def blockScalar (isLiteral : Bool) (l : Layout) : Step := do
  let l ← l.dropKey
  let (text, rest) ← readOr .malformedToken (BlockText.read? isLiteral l.margin l.input.rest.tail)
  return (l.take (.scalar false text) rest).allowKey

def quotedScalar (read : Text → Option (Text × Text)) (l : Layout) : Step := do
  let l ← l.saveKey
  let (text, rest) ← readOr .malformedToken (read l.input.rest.tail)
  return (l.take (.scalar false text) rest).disallowKey

def plainScalar (l : Layout) : Step := do
  let l ← l.saveKey
  let input := l.input
  let plain ← readOr .malformedToken (readPlain l.inFlow l.margin input.column .none [] input.rest)
  return { l.take (.scalar true plain.text) plain.rest with allowsKey := plain.isBroken }

/-- May a plain scalar start with these characters? -/
def startsPlain (inFlow : Bool) (c : Char) (next : Text) : Bool :=
  (!isGapOrBreak c && !"-?:,[]\x7b\x7d#&*!|>'\"%@`".toList.contains c) ||
    (c == '-' && !next.head?.any isGap) ||
    (!inFlow && (c == '?' || c == ':') && !atBlank next)

/-- Reads the token at the front of the text `c :: next`. -/
def token (c : Char) (next : Text) (l : Layout) : Step :=
  let atMargin := l.input.column == 0
  let inFlow := l.inFlow
  if atMargin && c == '%' then l.directive
  else if atMargin && startsDocument '-' (c :: next) then l.documentMark .documentStart
  else if atMargin && startsDocument '.' (c :: next) then l.documentMark .documentEnd
  else if c == '[' then l.openFlow .flowSequence
  else if c == '\x7b' then l.openFlow .flowMapping
  else if c == ']' then l.closeFlow .flowSequenceEnd
  else if c == '\x7d' then l.closeFlow .flowMappingEnd
  else if c == ',' then l.comma
  else if c == '-' && atBlank next then l.entry
  else if c == '?' && (inFlow || atBlank next) then l.explicitKey
  else if c == ':' && (inFlow || atBlank next) then l.value
  else if c == '*' then l.named .aliasOf
  else if c == '&' then l.named .anchor
  else if c == '!' then l.tag
  else if c == '|' && !inFlow then l.blockScalar true
  else if c == '>' && !inFlow then l.blockScalar false
  else if c == '\'' then l.quotedScalar (readSingle false .none [])
  else if c == '"' then l.quotedScalar (readDouble false .none [])
  else if startsPlain inFlow c next then l.plainScalar
  else throw .malformedToken

/-- Closes what is open at the end of the text. -/
def finish (l : Layout) : Step :=
  (l.closeTo 0).dropKey

/-- Reads tokens up to the end of the text. Each of them takes up some of it, so there are no more
than `n` if that is the length of the text. -/
def run : Nat → Layout → Step
  | 0, l => l.finish
  | n + 1, l => do
    let l := l.skipBlanks (n + 1)
    let l ← l.dropStale
    let l := l.closeTo (l.input.column + 1)
    match l.input.rest with
    | [] => l.finish
    | c :: next => run n (← l.token c next)

end Layout

/-- The tokens of a text. -/
def Token.read (text : Text) : Except Error (List Token) := do
  if !text.all isAllowed then throw .forbiddenChar
  let l ← Layout.run (text.length + 1) { input := .ofText text }
  return l.tokens.reverse

end ManifestAssist.Yaml
