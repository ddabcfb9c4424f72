import ManifestAssist.Text.Width

/-! # JSON values

A number is kept as it is written, and an object with its members in order, so that two of one name
can be told.
-/

namespace ManifestAssist

inductive Json where
  | null
  | bool (b : Bool)
  | number (text : Text)
  | string (s : String)
  | array (items : List Json)
  | object (members : List (String × Json))
  deriving Inhabited

namespace Json

def string? : Json → Option String
  | string s => some s
  | _ => none

def bool? : Json → Option Bool
  | bool b => some b
  | _ => none

def array? : Json → Option (List Json)
  | array items => some items
  | _ => none

def object? : Json → Option (List (String × Json))
  | object members => some members
  | _ => none

/-- A whole number that is written without a sign, a point and a power of ten, and fits in 64 bits.
-/
def natural? : Json → Option Nat
  | number text => do
    guard (text.all Char.isDigit)
    let n := Nat.ofDigitChars 10 text 0
    guard (n ≤ 0xFFFFFFFFFFFFFFFF)
    return n
  | _ => none

/-- The values of the fields of a record. A record is written as an object, in which each field
stands at most once and nothing else does, or as an array of the values of its first fields. -/
def record? (fields : List String) : Json → Option (List (Option Json))
  | object members =>
    let names := members.map (·.1)
    if names.all fields.contains && fields.all (names.count · ≤ 1) then
      some (fields.map fun field => members.lookup field)
    else
      none
  | array items =>
    if items.length ≤ fields.length then
      some (items.map some ++ List.replicate (fields.length - items.length) none)
    else
      none
  | _ => none

/-- The value of a field, or `default` if the field is absent. -/
def fieldOr {α : Type} (default : α) (read : Json → Option α) : Option Json → Option α
  | none => some default
  | some v => read v

/-- The value of a field that may be null or absent. -/
def fieldOptional {α : Type} (read : Json → Option α) : Option Json → Option (Option α)
  | none => some none
  | some null => some none
  | some v => (read v).map some

end Json

end ManifestAssist
