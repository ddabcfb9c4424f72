import ManifestAssist.Yaml.Value
import ManifestAssist.Text.Hex
import ManifestAssist.Yaml.Token

/-! # Plain scalars

What a scalar without quotes means: null, a truth value, a number or a string.
-/

namespace ManifestAssist.Yaml

open Text

/-- A number with a zero in front ahead of other digits is no integer. -/
def hasLeadingZero (digits : Text) : Bool :=
  match digits with
  | '0' :: c :: rest => (c :: rest).all Char.isDigit
  | _ => false

/-- The magnitude of an integer: decimal, or behind a mark in base 16, 8 or 2. -/
def magnitude? (text : Text) : Option Nat :=
  match text with
  | '0' :: 'x' :: digits => valueIn? 16 digits
  | '0' :: 'o' :: digits => valueIn? 8 digits
  | '0' :: 'b' :: digits => valueIn? 2 digits
  | digits => if hasLeadingZero digits then none else valueIn? 10 digits

/-- Splits off a sign. -/
def splitSign : Text → Bool × Text
  | '-' :: rest => (true, rest)
  | '+' :: rest => (false, rest)
  | rest => (false, rest)

/-- Is the integer within 64 bits, with or without a sign? -/
def isWord64 (n : Int) : Bool :=
  -0x8000000000000000 ≤ n && n ≤ 0xFFFFFFFFFFFFFFFF

/-- Is the integer within 128 bits, with or without a sign? -/
def isWord128 (n : Int) : Bool :=
  -0x80000000000000000000000000000000 ≤ n && n ≤ 0xFFFFFFFFFFFFFFFFFFFFFFFFFFFFFFFF

/-- The integer that a text spells. -/
def integer? (text : Text) : Option Int :=
  let (negative, rest) := splitSign text
  (magnitude? rest).map fun n => if negative then -n else n

/-- Reads a power of ten behind its letter. -/
def power? : Text → Option Int
  | [] => some 0
  | c :: rest =>
    if c = 'e' ∨ c = 'E' then
      let (negative, digits) := splitSign rest
      (valueIn? 10 digits).map fun n => if negative then -n else n
    else
      none

/-- The number that a decimal with a point, a power of ten or neither spells. -/
def decimal? (text : Text) : Option Binary64 := do
  let (negative, text) := splitSign text
  let (whole, rest) := text.span Char.isDigit
  let (part, rest) := match rest with
    | '.' :: rest => rest.span Char.isDigit
    | rest => ([], rest)
  let digits ← valueIn? 10 (whole ++ part)
  let power ← power? rest
  return .ofDecimal negative digits (power - part.length)

/-- The float that a text spells. One that is too great for a finite number is none. -/
def float? (text : Text) : Option Binary64 :=
  let (negative, unsigned) := splitSign text
  if [".inf", ".Inf", ".INF"].contains (String.ofList unsigned) then some (.infinite negative)
  else if [".nan", ".NaN", ".NAN"].contains (String.ofList text) then some .nan
  else (decimal? text).filter (·.isFinite)

def isNull (text : Text) : Bool :=
  ["", "~", "null", "Null", "NULL"].contains (String.ofList text)

def bool? (text : Text) : Option Bool :=
  let name := String.ofList text
  if ["true", "True", "TRUE"].contains name then some true
  else if ["false", "False", "FALSE"].contains name then some false
  else none

/-- The value of an integer, which must fit in 64 bits. -/
def Value.ofInteger (n : Int) : Except Error Value :=
  if isWord64 n then return .int n else throw .integerRange

/-- The value of a plain scalar. An integer beyond 128 bits is a float. -/
def Value.ofPlain (text : Text) : Except Error Value :=
  if isNull text then return .null
  else match bool? text with
  | some b => return .bool b
  | none =>
    match (integer? text).filter isWord128 with
    | some n => Value.ofInteger n
    | none =>
      match float? text with
      | some x =>
        if hasLeadingZero (splitSign text).2 then return .string (String.ofList text)
        else return .float x
      | none => return .string (String.ofList text)

/-- The value of a scalar with a tag of the core schema, if it is one. -/
def Value.ofCore? (tag : Tag) (text : Text) : Option (Except Error Value) :=
  let orMismatch {α : Type} (f : α → Value) : Option α → Except Error Value
    | some a => return f a
    | none => throw .tagMismatch
  if tag = .core "bool" then some (orMismatch .bool (bool? text))
  else if tag = .core "int" then
    some (match (integer? text).filter isWord128 with
      | some n => Value.ofInteger n
      | none => throw .tagMismatch)
  else if tag = .core "float" then some (orMismatch .float (float? text))
  else if tag = .core "null" then
    some (if isNull text && !text.isEmpty then return .null else throw .tagMismatch)
  else none

end ManifestAssist.Yaml
