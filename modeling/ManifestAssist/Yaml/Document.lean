import ManifestAssist.Yaml.Layout
import ManifestAssist.Yaml.Node
import ManifestAssist.Yaml.Scalar

/-! # Documents

A text is one document at most. An alias stands for a copy of the node with its anchor; the depth of
the value and the number of aliases in it are bounded, so that no text stands for an endless value
or for one that is out of proportion.
-/

namespace ManifestAssist.Yaml

namespace Read

/-- Reads the directives ahead of a document. -/
def directives : Nat → Bool → Read Unit
  | 0, _ => return
  | n + 1, hasVersion => do
    match ← next? with
    | some (.version major minor) =>
      if hasVersion || major != 1 || (minor != 1 && minor != 2) then throw .unexpectedToken
      skip
      directives n true
    | some (.handle handle expansion) =>
      let own := (← get).handles.take ((← get).handles.length - defaultHandles.length)
      if own.any (·.1 == handle) then throw .unexpectedToken
      skip
      modify fun r => { r with handles := (handle, expansion) :: r.handles }
      directives n hasVersion
    | _ => return

/-- Does the token end the content of a document? -/
def endsContent : Option Token → Bool
  | none => true
  | some (.version ..) => true
  | some (.handle ..) => true
  | some .documentStart => true
  | some .documentEnd => true
  | _ => false

def skipEnds : Nat → Read Unit
  | 0 => return
  | n + 1 => do if ← accept .documentEnd then skipEnds n

/-- Reads the node of the only document. -/
def document (fuel : Nat) : Read Node := do
  let first ← next?
  let root ← match first with
    | none => pure .empty
    | some token =>
      if endsContent first && token != .documentEnd then
        directives fuel false
        expect .documentStart
        if endsContent (← next?) then pure .empty else node fuel true false
      else
        node fuel true false
  skipEnds fuel
  if (← next?).isSome then throw .manyDocuments
  return root

end Read

/-- The nodes that aliases stand for, with a bound on the number of aliases. -/
structure Aliases where
  targets : List (Nat × Node)
  limit : Nat

namespace Aliases

/-- An anchor that is numbered again stands for the later node. -/
def ofRoot (root : Node) : Aliases :=
  ⟨root.anchored.reverse, root.events * 100⟩

/-- The node that a node stands for. The number counts the aliases so far. -/
def follow (aliases : Aliases) (node : Node) : StateT Nat (Except Error) Node :=
  match node with
  | .aliasOf target => do
    let count := (← get) + 1
    set count
    if aliases.limit < count then throw .tooManyAliases
    match aliases.targets.find? (·.1 == target) with
    | some (_, node) => return node
    | none => throw .unknownAlias
  | node => return node

end Aliases

namespace Value

abbrev Build := StateT Nat (Except Error)

/-- Adds a tag to a value. The tag is kept by its name if it is local and its bytes are a text. -/
def withTag (tag : Option Tag) (v : Value) : Value :=
  match tag.bind Tag.localName? with
  | some name => tagged name v
  | none => v

/-- The value of a scalar. A tag that is neither local nor of the core schema makes it a string. -/
def ofScalar (tag : Option Tag) (isPlain : Bool) (text : Text) : Except Error Value :=
  let untagged := if isPlain then ofPlain text else return string (String.ofList text)
  match tag with
  | none => untagged
  | some name =>
    if name.isLocal then (withTag tag ·) <$> untagged
    else (ofCore? name text).getD (return string (String.ofList text))

/-- Are two of the keys the same? -/
def hasDuplicate : List Value → Bool
  | [] => false
  | key :: keys => keys.any (same key) || hasDuplicate keys

/-- The entries of a mapping, no two of which have the same key. -/
def ofEntries (inner : Node → Build Value) (entries : List (Node × Node)) :
    Build (List (Value × Value)) := do
  let values ← entries.mapM fun (key, value) => do return (← inner key, ← inner value)
  if hasDuplicate (values.map (·.1)) then throw .duplicateKey
  return values

/-- The value of a node that is no alias. What is in a collection is built by `inner`. -/
def ofContent (inner : Node → Build Value) : Node → Build Value
  | .aliasOf _ => throw .unknownAlias
  | .scalar tag _ isPlain text => ofScalar tag isPlain text
  | .sequence tag _ items => return withTag tag (list (← items.mapM inner))
  | .mapping tag _ entries => return withTag tag (map (← ofEntries inner entries))

/-- The value of a node, in which at most `depth` collections stand within each other. -/
def ofNode (aliases : Aliases) : Nat → Node → Build Value
  | 0, node => do
    match ← aliases.follow node with
    | .scalar tag _ isPlain text => ofScalar tag isPlain text
    | _ => throw .tooDeep
  | depth + 1, node => do ofContent (ofNode aliases depth) (← aliases.follow node)

/-- The number of collections that may stand within each other. -/
def maxDepth : Nat := 128

/-- The value of a text that is a YAML document. -/
def parse (text : Text) : Except Error Value := do
  let tokens ← Token.read text
  let (root, _) ← (Read.document (2 * tokens.length + 4)).run { tokens := tokens }
  let (value, _) ← (ofNode (.ofRoot root) maxDepth root).run 0
  return value

end Value

end ManifestAssist.Yaml
