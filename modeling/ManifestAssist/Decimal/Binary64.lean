/-! # Binary floating-point numbers

Numbers with a significand of 53 bits, held as exact integers: a significand times a power of two. A
decimal number is rounded to the nearest of them, and to the even one of two that are equally near.
-/

namespace ManifestAssist

/-- A signed significand times a power of two, an infinity, or no number. -/
inductive Binary64 where
  | finite (negative : Bool) (significand : Nat) (exponent : Int)
  | infinite (negative : Bool)
  | nan
  deriving DecidableEq, Repr

namespace Binary64

/-- The exponent of the least numbers above zero. -/
def minExponent : Int := -1074

/-- The exponent of the greatest finite numbers. -/
def maxExponent : Int := 971

/-- The quotient rounded to the nearest integer, and to the even one of two. -/
def roundDiv (num den : Nat) : Nat :=
  let q := num / den
  let r := num % den
  if 2 * r < den then q
  else if 2 * r = den then (if q % 2 = 0 then q else q + 1)
  else q + 1

/-- A power of two. One below one counts as one. -/
def twoTo (exponent : Int) : Nat :=
  Nat.pow 2 exponent.toNat

/-- A power of ten. One below one counts as one. -/
def tenTo (exponent : Int) : Nat :=
  Nat.pow 10 exponent.toNat

/-- The quotient times a power of two, as a fraction. -/
def scale (num den : Nat) (exponent : Int) : Nat × Nat :=
  (num * twoTo exponent, den * twoTo (-exponent))

/-- The number nearest to a quotient of positive integers. -/
def ofFraction (negative : Bool) (num den : Nat) : Binary64 :=
  let guess : Int := (num.log2 : Int) - den.log2 - 53
  let (n, d) := scale num den (-guess)
  let exponent := max minExponent (if n / d < twoTo 53 then guess else guess + 1)
  let (n, d) := scale num den (-exponent)
  let significand := roundDiv n d
  let (significand, exponent) :=
    if significand = twoTo 53 then (twoTo 52, exponent + 1) else (significand, exponent)
  if maxExponent < exponent then infinite negative else finite negative significand exponent

/-- The number nearest to `digits` times a power of ten. Powers that are far out of range are not
computed: such a number is zero or infinite. -/
def ofDecimal (negative : Bool) (digits : Nat) (exponent : Int) : Binary64 :=
  if digits = 0 then finite negative 0 minExponent
  else
    let magnitude := exponent + (Nat.toDigits 10 digits).length
    if 320 < magnitude then infinite negative
    else if magnitude < -340 then finite negative 0 minExponent
    else ofFraction negative (digits * tenTo exponent) (tenTo (-exponent))

def isFinite : Binary64 → Bool
  | finite .. => true
  | _ => false

/-- Are two numbers the same key? The two zeros are, and so is what is no number. -/
def same : Binary64 → Binary64 → Bool
  | finite s m e, finite t n f => (m == 0 && n == 0) || (s == t && m == n && e == f)
  | infinite s, infinite t => s == t
  | nan, nan => true
  | _, _ => false

end Binary64

end ManifestAssist
