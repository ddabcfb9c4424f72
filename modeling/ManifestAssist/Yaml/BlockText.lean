import ManifestAssist.Yaml.Folding

/-! # Block scalars

A block scalar holds the lines that are indented under its header. Literal ones keep their line
breaks; in folded ones a break between two lines that start without white space is folded. The
header may say how deep the lines are indented and what becomes of the breaks at the end.
-/

namespace ManifestAssist.Yaml

/-- What becomes of the line breaks at the end: one stays, none does, or all do. -/
inductive Chomp where
  | clip | strip | keep
  deriving DecidableEq, Repr

/-- What the header of a block scalar says. -/
structure BlockHeader where
  isLiteral : Bool
  chomp : Chomp
  /-- The depth relative to the collection around, which the first line tells if it is absent. -/
  depth? : Option Nat
  deriving Repr

namespace BlockHeader

def chomp? : Char → Option Chomp
  | '+' => some .keep
  | '-' => some .strip
  | _ => none

def digit? (c : Char) : Option Nat :=
  if c.isDigit then some (c.toNat - 48) else none

/-- Reads the two indicators, each of which may be absent, in either order. -/
def indicators (isLiteral : Bool) : Text → BlockHeader × Text
  | [] => (⟨isLiteral, .clip, none⟩, [])
  | c :: rest =>
    match chomp? c, digit? c with
    | some chomp, _ =>
      match rest with
      | d :: rest' =>
        match digit? d with
        | some depth => (⟨isLiteral, chomp, some depth⟩, rest')
        | none => (⟨isLiteral, chomp, none⟩, rest)
      | [] => (⟨isLiteral, chomp, none⟩, rest)
    | none, some depth =>
      match rest with
      | d :: rest' =>
        match chomp? d with
        | some chomp => (⟨isLiteral, chomp, some depth⟩, rest')
        | none => (⟨isLiteral, .clip, some depth⟩, rest)
      | [] => (⟨isLiteral, .clip, some depth⟩, rest)
    | none, none => (⟨isLiteral, .clip, none⟩, c :: rest)

/-- Drops white space and a comment up to the end of the line, and the line break. -/
def lineEnd? (text : Text) : Option Text :=
  let rest := text.dropWhile isGap
  let rest := if rest.head? = some '#' then rest.dropWhile (!isBreak ·) else rest
  match rest with
  | [] => some []
  | '\r' :: '\n' :: rest => some rest
  | c :: rest => if isBreak c then some rest else none

/-- Reads a header behind its first character. -/
def read? (isLiteral : Bool) (text : Text) : Option (BlockHeader × Text) :=
  let (header, rest) := indicators isLiteral text
  if header.depth? = some 0 then none
  else (lineEnd? rest).map fun rest => (header, rest)

end BlockHeader

/-- The state of reading the lines of a block scalar. -/
structure BlockText where
  /-- The text read so far, in reverse. -/
  read : Text := []
  /-- The break that ended the last line. -/
  last : Text := []
  /-- The breaks of the empty lines since. -/
  empty : Text := []
  /-- Did the last line start with white space? -/
  wasBlank : Bool := false

namespace BlockText

/-- Begins a line whose first character is `c`. -/
def beginLine (isLiteral : Bool) (c : Char) (block : BlockText) : BlockText :=
  let joins := !isLiteral && block.last == ['\n'] && !block.wasBlank && !isGap c
  let gap := if joins then Gap.fold block.last block.empty else block.last ++ block.empty
  ⟨gap.reverse ++ block.read, [], [], isGap c⟩

/-- Adds an empty line with its break. -/
def addEmpty (text : Text) (block : BlockText) : BlockText :=
  { block with empty := block.empty ++ text }

/-- The text when no line follows. -/
def finish (chomp : Chomp) (block : BlockText) : Text :=
  block.read.reverse ++
    match chomp with
    | .strip => []
    | .clip => block.last
    | .keep => block.last ++ block.empty

/-- Reads the lines. `column` is that of the next character; within a line it is absent. The lines
are at column `depth`, or, as long as that is absent, at the deepest column of the lines so far,
which is `widest` or `margin` at the least. -/
def lines (header : BlockHeader) (margin : Nat) (depth : Option Nat) (widest : Nat)
    (column : Option Nat) (block : BlockText) : Text → Option (Text × Text)
  | [] => some (block.finish header.chomp, [])
  | '\r' :: '\n' :: rest =>
    match column with
    | none => lines header margin depth 0 (some 0) { block with last := ['\n'] } rest
    | some _ => lines header margin depth widest (some 0) (block.addEmpty ['\n']) rest
  | c :: rest =>
    match column with
    | none =>
      if isBreak c then lines header margin depth 0 (some 0) { block with last := breakText c } rest
      else lines header margin depth widest none { block with read := c :: block.read } rest
    | some column =>
      let isMargin := depth.all (column < ·)
      if isMargin && c == ' ' then
        lines header margin depth (max widest (column + 1)) (some (column + 1)) block rest
      else if isMargin && c == '\t' then none
      else if isBreak c then
        lines header margin depth widest (some 0) (block.addEmpty (breakText c)) rest
      else
        let depth := depth.getD (max (max widest margin) 1)
        if column = depth then
          let block := block.beginLine header.isLiteral c
          lines header margin (some depth) widest none { block with read := c :: block.read } rest
        else
          some (block.finish header.chomp, c :: rest)

/-- Reads a block scalar behind its first character, in a collection with its content at `margin`.
-/
def read? (isLiteral : Bool) (margin : Nat) (text : Text) : Option (Text × Text) := do
  let (header, rest) ← BlockHeader.read? isLiteral text
  let depth := header.depth?.map (margin - 1 + ·)
  lines header margin depth 0 (some 0) {} rest

end BlockText

end ManifestAssist.Yaml
