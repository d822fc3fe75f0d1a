/-
Doubles as bit patterns, and the double nearest to a decimal.

- `Binary64`: the 64 bits of a double: a sign, eleven exponent bits, fifty-two fraction bits.
- `significand`, `scale`: a finite double is `significand * 2 ^ scale` up to its sign.
- `pow2`, `pow10`: powers of two and ten.
- `roundRatio`: the double nearest to a ratio of naturals, a tie going to the even neighbour.
- `ofDecimal`: the double nearest to `digits * 10 ^ power`.
- `mul`, `div`: the doubles nearest to the exact product and quotient.

A double is kept as bits so that equality of doubles is equality of what is stored.
-/
namespace GraphGen

/-- a power of two -/
def pow2 (n : Nat) : Nat := Nat.pow 2 n

/-- a power of ten -/
def pow10 (n : Nat) : Nat := Nat.pow 10 n

/-- the bits of a double -/
structure Binary64 where
  bits : UInt64
  deriving DecidableEq, Inhabited, Repr

namespace Binary64

/-- whether the sign bit is set -/
def isNegative (d : Binary64) : Bool :=
  pow2 63 ≤ d.bits.toNat

/-- the eleven exponent bits -/
def exponentBits (d : Binary64) : Nat :=
  d.bits.toNat / pow2 52 % pow2 11

/-- the fifty-two fraction bits -/
def fractionBits (d : Binary64) : Nat :=
  d.bits.toNat % pow2 52

/-- whether the double is a number, neither infinite nor a NaN -/
def isFinite (d : Binary64) : Bool :=
  d.exponentBits != 2047

/-- the integer significand of a finite double -/
def significand (d : Binary64) : Nat :=
  if d.exponentBits = 0 then d.fractionBits else pow2 52 + d.fractionBits

/-- the power of two that goes with the significand -/
def scale (d : Binary64) : Int :=
  if d.exponentBits = 0 then -1074 else (d.exponentBits : Int) - 1075

/-- a double of its sign and the 63 bits below it -/
def ofParts (negative : Bool) (rest : Nat) : Binary64 :=
  ⟨UInt64.ofNat ((if negative then pow2 63 else 0) + rest)⟩

/-- the 63 bits of infinity -/
def infinityBits : Nat :=
  2047 * pow2 52

/-! ## Nearest double -/

/-- the quotient rounded to the nearest integer, a tie going to the even one -/
def divideToEven (num den : Nat) : Nat :=
  let q := num / den
  let r := num % den
  if 2 * r < den then q
  else if den < 2 * r then q + 1
  else if q % 2 = 0 then q else q + 1

/-- the exponent `q` at which `num / den` has a significand below `2 ^ 53`, and at least `2 ^ 52` unless `q` is least -/
def scaleOfRatio (num den : Nat) : Int :=
  let guess : Int := (Nat.log2 num : Int) - (Nat.log2 den : Int) - 52
  let fits (q : Int) : Bool :=
    if 0 ≤ q then num < pow2 53 * (den * pow2 q.toNat) else num * pow2 (-q).toNat < pow2 53 * den
  let q := if fits (guess - 1) then guess - 1 else if fits guess then guess else guess + 1
  if q < -1074 then -1074 else q

/-- the 63 bits below the sign of the double nearest to a positive ratio -/
def roundRatio (num den : Nat) : Nat :=
  let q := scaleOfRatio num den
  let m := if 0 ≤ q then divideToEven num (den * pow2 q.toNat) else divideToEven (num * pow2 (-q).toNat) den
  -- a significand of 2 ^ 53 after rounding carries into the exponent, which the sum below does by itself
  let bits := if m < pow2 52 then m else m - pow2 52 + (q + 1075).toNat * pow2 52
  if infinityBits < bits then infinityBits else bits

/-- the double nearest to `digits * 10 ^ power`, infinite when none is near enough -/
def ofDecimal (negative : Bool) (digits : Nat) (power : Int) : Binary64 :=
  let size : Int := (Nat.toDigits 10 digits).length
  if digits = 0 then ofParts negative 0
  else if 310 < size + power then ofParts negative infinityBits
  else if size + power < -330 then ofParts negative 0
  else if 0 ≤ power then ofParts negative (roundRatio (digits * pow10 power.toNat) 1)
  else ofParts negative (roundRatio digits (pow10 (-power).toNat))

/-! ## Arithmetic -/

/-- the double nearest to `num / den * 2 ^ scale` -/
def ofScaledRatio (negative : Bool) (num den : Nat) (scale : Int) : Binary64 :=
  if num = 0 then ofParts negative 0
  else ofParts negative (roundRatio (num * pow2 scale.toNat) (den * pow2 (-scale).toNat))

/-- the product of two finite doubles -/
def mul (a b : Binary64) : Binary64 :=
  ofScaledRatio (a.isNegative != b.isNegative) (a.significand * b.significand) 1 (a.scale + b.scale)

/-- the quotient of a finite double by one that is not zero -/
def div (a b : Binary64) : Binary64 :=
  ofScaledRatio (a.isNegative != b.isNegative) a.significand b.significand (a.scale - b.scale)

end Binary64

end GraphGen
