import ManifestAssist.Decimal.Binary64

/-! # Shortest decimals

A finite number is written with the fewest digits that are read back as the same number: those of a
decimal in the interval of all that are rounded to it.
-/

namespace ManifestAssist

/-- Digits times a power of ten. -/
structure Decimal where
  digits : Nat
  exponent : Int
  deriving DecidableEq, Repr

namespace Decimal

open Binary64 (twoTo tenTo)

/-- Compares `a` times a power of ten with `n` times a power of two. -/
def compareScaled (a : Nat) (i : Int) (n : Nat) (j : Int) : Ordering :=
  compare (a * tenTo i * twoTo (-j)) (n * twoTo j * tenTo (-i))

/-- Is the decimal rounded to this number? The interval reaches half way to the neighbours, the
lower of which is closer at a power of two, and holds its ends if the significand is even. -/
def readsBack (significand : Nat) (exponent : Int) (d : Decimal) : Bool :=
  let isNarrow := significand == twoTo 52 && Binary64.minExponent < exponent
  let lower := if isNarrow then 4 * significand - 1 else 4 * significand - 2
  let fromLower := compareScaled d.digits d.exponent lower (exponent - 2)
  let fromUpper := compareScaled d.digits d.exponent (4 * significand + 2) (exponent - 2)
  let isEven := significand % 2 == 0
  (fromLower == .gt || (isEven && fromLower == .eq)) &&
    (fromUpper == .lt || (isEven && fromUpper == .eq))

/-- The quotient of a number by a power of ten, as a fraction. -/
def onGrid (significand : Nat) (exponent grid : Int) : Nat × Nat :=
  (significand * twoTo exponent * tenTo (-grid), twoTo (-exponent) * tenTo grid)

/-- The multiple of a power of ten that is read back, if there is one: the nearer of the two around
the number, or the even one. -/
def nearest? (significand : Nat) (exponent grid : Int) : Option Decimal :=
  let (num, den) := onGrid significand exponent grid
  let below : Decimal := ⟨num / den, grid⟩
  let above : Decimal := ⟨num / den + 1, grid⟩
  let isRead := readsBack significand exponent
  match isRead below, isRead above with
  | true, true => some ⟨Binary64.roundDiv num den, grid⟩
  | true, false => some below
  | false, true => some above
  | false, false => none

/-- A bound on the power of ten above a number, from its length in bits. -/
def magnitude (significand : Nat) (exponent : Int) : Int :=
  ((significand.log2 + 1 : Int) + exponent) * 30103 / 100000 + 1

/-- The shortest decimal of a number above zero: the coarsest grid is tried first. -/
def shortest (significand : Nat) (exponent : Int) : Decimal :=
  let top := magnitude significand exponent
  let grids := (List.range 20).map fun (n : Nat) => top - n
  let exact : Decimal := ⟨significand * Nat.pow 5 (-exponent).toNat, exponent⟩
  (grids.findSome? (nearest? significand exponent)).getD exact

/-- Moves the zeros at the end of the digits to the exponent. -/
def normalize (d : Decimal) : Decimal :=
  go (Nat.toDigits 10 d.digits).length d
where
  go : Nat → Decimal → Decimal
    | 0, d => d
    | n + 1, d =>
      if d.digits % 10 = 0 ∧ d.digits ≠ 0 then go n ⟨d.digits / 10, d.exponent + 1⟩ else d

def zeros (n : Nat) : List Char :=
  List.replicate n '0'

/-- Writes a decimal above zero. It is positional if its point falls within 16 digits of the front,
or behind at most four zeros, and has a power of ten otherwise. -/
def write (d : Decimal) : List Char :=
  let digits := Nat.toDigits 10 d.digits
  let length : Int := digits.length
  let point := length + d.exponent
  if 0 ≤ d.exponent ∧ point ≤ 16 then
    digits ++ zeros d.exponent.toNat ++ ['.', '0']
  else if 0 < point ∧ point ≤ 16 then
    digits.take point.toNat ++ '.' :: digits.drop point.toNat
  else if -5 < point ∧ point ≤ 0 then
    '0' :: '.' :: zeros (-point).toNat ++ digits
  else
    let power := 'e' :: (toString (point - 1)).toList
    match digits with
    | first :: second :: rest => first :: '.' :: second :: rest ++ power
    | digits => digits ++ power

end Decimal

namespace Binary64

def sign (negative : Bool) (text : List Char) : List Char :=
  if negative then '-' :: text else text

/-- The text of a number, with a point in front of the names of the special ones. -/
def write : Binary64 → List Char
  | finite negative 0 _ => sign negative ['0', '.', '0']
  | finite negative m e => sign negative (Decimal.shortest m e).normalize.write
  | infinite negative => sign negative ['.', 'i', 'n', 'f']
  | nan => ['.', 'n', 'a', 'n']

end Binary64

end ManifestAssist
