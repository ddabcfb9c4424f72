import ManifestAssist.Yaml.Input

/-! # Tokens

What the grammar of documents is written in. The start and the end of a block collection, which its
text shows by columns only, are tokens too.
-/

namespace ManifestAssist.Yaml

/-- A tag in full. Its bytes may be escaped, so that they need not be those of characters. -/
abbrev Tag := List UInt8

/-- The tag that a text names. -/
def Tag.ofText (text : Text) : Tag :=
  text.flatMap String.utf8EncodeChar

/-- The tag of a type of the core schema. -/
def Tag.core (type : String) : Tag :=
  .ofText ("tag:yaml.org,2002:" ++ type).toList

/-- The text of a tag, if its bytes are those of characters. -/
def Tag.text? (tag : Tag) : Option String :=
  String.fromUTF8? (ByteArray.mk tag.toArray)

/-- Is the tag local, with a mark in front? -/
def Tag.isLocal (tag : Tag) : Bool :=
  tag.head? == some 0x21

/-- The name of a local tag: what is behind the mark, or the mark if it stands alone. -/
def Tag.localName? (tag : Tag) : Option String :=
  match tag with
  | 0x21 :: [] => some "!"
  | 0x21 :: name => Tag.text? name
  | _ => none

/-- A tag as it is written: a handle with a suffix. A tag in full has an empty handle. -/
structure TagName where
  handle : Text
  suffix : Tag
  deriving DecidableEq, Repr

inductive Token where
  | version (major minor : Nat)
  | handle (handle : Text) (expansion : Tag)
  | documentStart
  | documentEnd
  | blockSequence
  | blockMapping
  | blockEnd
  | flowSequence
  | flowSequenceEnd
  | flowMapping
  | flowMappingEnd
  | comma
  | entry
  | key
  | value
  | aliasOf (name : Text)
  | anchor (name : Text)
  | tag (name : TagName)
  | scalar (isPlain : Bool) (text : Text)
  deriving DecidableEq, Repr

end ManifestAssist.Yaml
