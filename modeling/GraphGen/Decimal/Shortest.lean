/-
Shortest decimal digits of a double.

- `onGrid`: the decimals next to a value whose last digit has a given place.
- `shortest`: the fewest digits that read back as the double, and among those the decimal nearest to it; of two that
  are as near, the greater.
- `Layout`: how a decimal is written: where positional notation ends and how a fraction and an exponent look.
- `Binary64.display`: positional at every size, without a fraction when there is none.
- `Binary64.literal`: positional for moderate sizes and always with a fraction or an exponent.
-/
import GraphGen.Decimal.Binary64

namespace GraphGen

namespace Binary64

/-- a comparison of `a * 10 ^ p` with `b * 2 ^ q` -/
def compareScaled (a : Nat) (p : Int) (b : Nat) (q : Int) : Ordering :=
  compare (a * pow10 p.toNat * pow2 (-q).toNat) (b * pow2 q.toNat * pow10 (-p).toNat)

/-- whether `a * 10 ^ p` reads back as the positive finite double `d` -/
def readsBack (d : Binary64) (a : Nat) (p : Int) : Bool :=
  let m := d.significand
  -- in units of a quarter of the last place, because the gap below a power of two is half the gap above it
  let q := d.scale - 2
  let low := if d.fractionBits = 0 && 1 < d.exponentBits then 4 * m - 1 else 4 * m - 2
  let high := 4 * m + 2
  match compareScaled a p low q, compareScaled a p high q with
  | .gt, .lt => true
  | .eq, _ => m % 2 = 0
  | _, .eq => m % 2 = 0
  | _, _ => false

/-- the greatest `a` with `a * 10 ^ p` not above the value of `d` -/
def floorAt (d : Binary64) (p : Int) : Nat :=
  (d.significand * pow2 d.scale.toNat * pow10 (-p).toNat) / (pow2 (-d.scale).toNat * pow10 p.toNat)

/-- whether the value of `d` is nearer to `a * 10 ^ p` than to the next decimal on that grid -/
def lowerIsNearer (d : Binary64) (a : Nat) (p : Int) : Bool :=
  -- twice the value against the sum of the two neighbours
  compareScaled (2 * a + 1) p (2 * d.significand) d.scale == .gt

/-- the decimal nearest to `d` among the two neighbours on the grid of `10 ^ p` that read back as `d`; a value halfway
between them goes to the greater -/
def onGrid (d : Binary64) (p : Int) : Option Nat :=
  let a := d.floorAt p
  match d.readsBack a p, d.readsBack (a + 1) p with
  | true, true => some (if d.lowerIsNearer a p then a else a + 1)
  | true, false => some a
  | false, true => some (a + 1)
  | false, false => none

/-- the power of ten of the first digit of a positive finite double -/
def leadingPower (d : Binary64) : Int :=
  -- the binary size times log10 2, one too low at most
  let guess := ((Nat.log2 d.significand : Int) + d.scale) * 30103 / 100000
  if d.floorAt (guess + 1) = 0 then guess else guess + 1

/-- the first grid with a hit, from the coarsest one on; a double needs at most seventeen digits -/
def searchGrid (d : Binary64) : Nat → Int → Nat × Int
  | 0, p => (d.floorAt p, p)
  | n + 1, p =>
    match d.onGrid p with
    | some a => (a, p)
    | none => searchGrid d n (p - 1)

/-- takes zeros off the end of the digits -/
def dropZeros : Nat → Nat → Int → Nat × Int
  | 0, a, p => (a, p)
  | n + 1, a, p => if a % 10 = 0 then dropZeros n (a / 10) (p + 1) else (a, p)

/-- the shortest decimal `a * 10 ^ p` that reads back as a positive finite double -/
def shortest (d : Binary64) : Nat × Int :=
  let (a, p) := d.searchGrid 18 (d.leadingPower + 1)
  dropZeros 20 a p

/-! ## Written forms -/

/-- how the digits of a decimal are laid out -/
structure Layout where
  /-- an exponent of ten up to which an integer or fraction is written positionally, when there is a limit -/
  highest : Option Int
  /-- an exponent of ten down to which a small fraction is written positionally, when there is a limit -/
  lowest : Option Int
  /-- whether an integer keeps a fraction of zero -/
  keepsFraction : Bool

/-- the digits of a natural number -/
def digitsOf (n : Nat) : List Char :=
  Nat.toDigits 10 n

/-- the digits without an exponent -/
def positional (keepsFraction : Bool) (digits : List Char) (power : Int) : List Char :=
  if 0 ≤ power then
    digits ++ List.replicate power.toNat '0' ++ (if keepsFraction then ['.', '0'] else [])
  else
    let places := (-power).toNat
    if places < digits.length then digits.take (digits.length - places) ++ '.' :: digits.drop (digits.length - places)
    else ['0', '.'] ++ List.replicate (places - digits.length) '0' ++ digits

/-- the digits with a point after the first one and an exponent -/
def exponential (digits : List Char) (exponent : Int) : List Char :=
  let lead := digits.take 1
  let rest := digits.drop 1
  lead ++ (if rest.isEmpty then [] else '.' :: rest) ++ 'e' ::
    (if exponent < 0 then '-' :: digitsOf exponent.natAbs else digitsOf exponent.natAbs)

/-- the written form of a double under a layout -/
def write (layout : Layout) (d : Binary64) : String :=
  let sign := if d.isNegative then ['-'] else []
  if !d.isFinite then
    if d.fractionBits = 0 then String.ofList (sign ++ ['i', 'n', 'f']) else "NaN"
  else if d.significand = 0 then String.ofList (sign ++ positional layout.keepsFraction ['0'] 0)
  else
    let (a, p) := d.shortest
    let digits := digitsOf a
    let exponent : Int := digits.length + p - 1
    let fits := (match layout.highest with | some h => exponent ≤ h | none => true)
      && (match layout.lowest with | some l => l ≤ exponent | none => true)
    String.ofList (sign ++ if fits then positional layout.keepsFraction digits p else exponential digits exponent)

/-- positional at every size, and no fraction when there is none -/
def display (d : Binary64) : String :=
  d.write ⟨none, none, false⟩

/-- positional from `1e-5` up to below `1e16`, always recognisable as no integer -/
def literal (d : Binary64) : String :=
  d.write ⟨some 15, some (-5), true⟩

end Binary64

end GraphGen
