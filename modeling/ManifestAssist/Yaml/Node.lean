import ManifestAssist.Yaml.Token

/-! # Nodes

The tree of a document as its tokens spell it, with tags resolved and with aliases that name the
node they stand for by a number.
-/

namespace ManifestAssist.Yaml

inductive Node where
  | aliasOf (target : Nat)
  | scalar (tag : Option Tag) (anchor : Option Nat) (isPlain : Bool) (text : Text)
  | sequence (tag : Option Tag) (anchor : Option Nat) (items : List Node)
  | mapping (tag : Option Tag) (anchor : Option Nat) (entries : List (Node × Node))
  deriving Inhabited

namespace Node

/-- The node that stands where nothing is written. -/
def empty : Node :=
  scalar none none true []

mutual

/-- The number of events that announce a node: a collection has one at each end. -/
def events : Node → Nat
  | aliasOf _ => 1
  | scalar .. => 1
  | sequence _ _ items => 2 + eventsOfList items
  | mapping _ _ entries => 2 + eventsOfPairs entries

def eventsOfList : List Node → Nat
  | [] => 0
  | node :: nodes => events node + eventsOfList nodes

def eventsOfPairs : List (Node × Node) → Nat
  | [] => 0
  | (key, value) :: entries => events key + events value + eventsOfPairs entries

end

mutual

/-- The nodes that have an anchor, in the order of the document. -/
def anchored : Node → List (Nat × Node)
  | aliasOf _ => []
  | scalar tag anchor isPlain text => (anchor.map (·, scalar tag anchor isPlain text)).toList
  | sequence tag anchor items =>
    (anchor.map (·, sequence tag anchor items)).toList ++ anchoredOfList items
  | mapping tag anchor entries =>
    (anchor.map (·, mapping tag anchor entries)).toList ++ anchoredOfPairs entries

def anchoredOfList : List Node → List (Nat × Node)
  | [] => []
  | node :: nodes => anchored node ++ anchoredOfList nodes

def anchoredOfPairs : List (Node × Node) → List (Nat × Node)
  | [] => []
  | (key, value) :: entries => anchored key ++ anchored value ++ anchoredOfPairs entries

end

end Node

/-- The handles that are known ahead of every document. -/
def defaultHandles : List (Text × Tag) :=
  [("!".toList, .ofText "!".toList), ("!!".toList, .core "")]

/-- The state of reading nodes off tokens. -/
structure Reading where
  tokens : List Token
  handles : List (Text × Tag) := defaultHandles
  /-- The numbers of the anchors by their names. -/
  anchors : List (Text × Nat) := []

abbrev Read := StateT Reading (Except Error)

namespace Read

def next? : Read (Option Token) :=
  return (← get).tokens.head?

def skip : Read Unit :=
  modify fun r => { r with tokens := r.tokens.tail }

/-- Skips the next token if it is the given one. -/
def accept (token : Token) : Read Bool := do
  if (← next?) = some token then
    skip
    return true
  else
    return false

def expect (token : Token) : Read Unit := do
  if !(← accept token) then throw .unexpectedToken

/-- Is the next token one of these, or the end? -/
def atAny (tokens : List Token) : Read Bool := do
  match ← next? with
  | some token => return tokens.contains token
  | none => return true

/-- The number of a new anchor is that of the names so far. A name that is used again gets a new
number. -/
def bind (name : Text) : Read Nat := do
  let r ← get
  let number := r.anchors.length
  set { r with anchors := (name, number) :: r.anchors.filter (·.1 != name) }
  return number

def resolve (name : TagName) : Read Tag := do
  if name.handle.isEmpty then return name.suffix
  match (← get).handles.find? (·.1 == name.handle) with
  | some (_, expansion) => return expansion ++ name.suffix
  | none => throw .unknownTagHandle

/-- Reads a tag, if one comes next. -/
def tag? : Read (Option TagName) := do
  match ← next? with
  | some (.tag name) => skip; return some name
  | _ => return none

/-- Reads an anchor, if one comes next. -/
def anchor? : Read (Option Text) := do
  match ← next? with
  | some (.anchor name) => skip; return some name
  | _ => return none

/-- Reads a tag and an anchor, each of which may be absent, in either order. -/
def properties : Read (Option Tag × Option Nat) := do
  let first ← tag?
  let anchor ← anchor?
  let tag ← if first.isNone then tag? else pure first
  return (← tag.mapM resolve, ← anchor.mapM bind)

mutual

/-- Reads a node. Block collections are admitted only if `inBlock`, and list items without a start
of their own only as the value of a key. The number bounds the calls. -/
def node (fuel : Nat) (inBlock isValue : Bool) : Read Node := do
  match fuel with
  | 0 => throw .unexpectedToken
  | fuel + 1 =>
    match ← next? with
    | some (.aliasOf name) =>
      skip
      match (← get).anchors.find? (·.1 == name) with
      | some (_, target) => return .aliasOf target
      | none => throw .unknownAlias
    | _ =>
      let (tag, anchor) ← properties
      match ← next?, inBlock, isValue with
      | some .entry, _, true => return .sequence tag anchor (← plainItems fuel)
      | some (.scalar isPlain text), _, _ =>
        skip
        return .scalar tag anchor isPlain text
      | some .flowSequence, _, _ =>
        skip
        return .sequence tag anchor (← flowItems fuel true)
      | some .flowMapping, _, _ =>
        skip
        return .mapping tag anchor (← flowEntries fuel true)
      | some .blockSequence, true, _ =>
        skip
        return .sequence tag anchor (← blockItems fuel)
      | some .blockMapping, true, _ =>
        skip
        return .mapping tag anchor (← blockEntries fuel)
      | _, _, _ =>
        if tag.isSome || anchor.isSome then return .scalar tag anchor true []
        else throw .unexpectedToken

/-- Reads a node unless one of the given tokens comes next. -/
def nodeUnless (fuel : Nat) (tokens : List Token) (inBlock isValue : Bool) : Read Node := do
  match fuel with
  | 0 => throw .unexpectedToken
  | fuel + 1 => if ← atAny tokens then return .empty else node fuel inBlock isValue

def blockItems (fuel : Nat) : Read (List Node) := do
  match fuel with
  | 0 => throw .unexpectedToken
  | fuel + 1 =>
    if ← accept .entry then
      let item ← nodeUnless fuel [.entry, .blockEnd] true false
      return item :: (← blockItems fuel)
    else
      expect .blockEnd
      return []

/-- Reads the items of a sequence that is no deeper than the key it belongs to. -/
def plainItems (fuel : Nat) : Read (List Node) := do
  match fuel with
  | 0 => throw .unexpectedToken
  | fuel + 1 =>
    if ← accept .entry then
      let item ← nodeUnless fuel [.entry, .key, .value, .blockEnd] true false
      return item :: (← plainItems fuel)
    else
      return []

def blockEntries (fuel : Nat) : Read (List (Node × Node)) := do
  match fuel with
  | 0 => throw .unexpectedToken
  | fuel + 1 =>
    if ← accept .key then
      let key ← nodeUnless fuel [.key, .value, .blockEnd] true true
      let value ← blockValue fuel
      return (key, value) :: (← blockEntries fuel)
    else
      expect .blockEnd
      return []

def blockValue (fuel : Nat) : Read Node := do
  match fuel with
  | 0 => throw .unexpectedToken
  | fuel + 1 =>
    if ← accept .value then nodeUnless fuel [.key, .value, .blockEnd] true true
    else return .empty

/-- Reads the items of a flow sequence. A key in it starts a mapping of one entry. -/
def flowItems (fuel : Nat) (isFirst : Bool) : Read (List Node) := do
  match fuel with
  | 0 => throw .unexpectedToken
  | fuel + 1 =>
    if ← accept .flowSequenceEnd then return []
    if !isFirst then expect .comma
    if ← accept .flowSequenceEnd then return []
    if ← accept .key then
      let entry ← flowPair fuel
      return .mapping none none [entry] :: (← flowItems fuel false)
    else
      let item ← node fuel false false
      return item :: (← flowItems fuel false)

def flowPair (fuel : Nat) : Read (Node × Node) := do
  match fuel with
  | 0 => throw .unexpectedToken
  | fuel + 1 =>
    let ends := [.comma, .flowSequenceEnd]
    if ← atAny (.value :: ends) then
      skip
      return (.empty, ← flowValue fuel ends)
    else
      let key ← node fuel false false
      return (key, ← flowValue fuel ends)

def flowEntries (fuel : Nat) (isFirst : Bool) : Read (List (Node × Node)) := do
  match fuel with
  | 0 => throw .unexpectedToken
  | fuel + 1 =>
    let ends := [.comma, .flowMappingEnd]
    if ← accept .flowMappingEnd then return []
    if !isFirst then expect .comma
    if ← accept .flowMappingEnd then return []
    if ← accept .key then
      let key ← nodeUnless fuel (.value :: ends) false false
      let value ← flowValue fuel ends
      return (key, value) :: (← flowEntries fuel false)
    else
      let key ← node fuel false false
      return (key, .empty) :: (← flowEntries fuel false)

/-- Reads a value behind a colon, if there is one. -/
def flowValue (fuel : Nat) (ends : List Token) : Read Node := do
  match fuel with
  | 0 => throw .unexpectedToken
  | fuel + 1 =>
    if ← accept .value then nodeUnless fuel ends false false
    else return .empty

end

end Read

end ManifestAssist.Yaml
