import ManifestAssist.Text.Blank
import ManifestAssist.Text.Part

/-! # Value slots

The start of a line up to a cursor holds a value if it has a key ahead of a colon and a space. The
value is what follows, without the white space in front of it and without an opening quote.
-/

namespace ManifestAssist

open Text

/-- A key with the part of its value that is ahead of a cursor. -/
structure Slot where
  key : String
  /-- The column at which the key starts. -/
  keyColumn : Nat
  value : Text
  /-- The column at which the value starts. -/
  valueColumn : Nat
  deriving DecidableEq, Repr

namespace Slot

def isQuote (c : Char) : Bool :=
  c == '"' || c == '\''

/-- Drops hyphens that have a space behind them, and the spaces. -/
def dropBullets : Text → Text
  | '-' :: ' ' :: rest => dropBullets (dropSpaces rest)
  | text => text
  termination_by text => text.length
  decreasing_by
    have := (List.dropWhile_sublist isSpace (l := rest)).length_le
    simp only [dropSpaces, List.length_cons]
    omega

def dropOpeningQuote : Text → Text
  | c :: rest => if isQuote c then rest else c :: rest
  | [] => []

/-- The slot at the end of the start of a line. -/
def ofTyped? (typed : Text) : Option Slot := do
  let entry := dropBullets (dropSpaces typed)
  let (front, back) ← splitAtFirst [':', ' '] entry
  let key := trimWhile isQuote front
  guard (key ≠ [] ∧ ' ' ∉ key)
  let value := dropOpeningQuote (trimStart back)
  return {
    key := String.ofList key
    keyColumn := typed.bytes - entry.bytes
    value
    valueColumn := typed.bytes - value.bytes }

end Slot

end ManifestAssist
