/-
Numbers in JSON text.

- `number`: a number and what follows it. Whole numbers that fit into 64 bits are exact, all others are doubles.
- `absorb`: the leading digits of a number, as many as fit into 64 bits.
- `scaled?`: a whole number times a power of ten, as a double.

The double of a number need not be the one nearest to what is written. Digits beyond 64 bits only count as places, and
there is a rounding when the digits become a double and another one when a power of ten is applied to it. A number close
to the greatest double can be out of range for that reason.
-/
import GraphGen.Json.Value
import GraphGen.Text.Digits

namespace GraphGen.Json

/-! ## Digits -/

/-- the whole digits of a number: a single zero, or digits without a leading zero -/
def wholeDigits (cs : List Char) : Option (List Char × List Char) :=
  match cs with
  | '0' :: rest => if (rest.head?.map Char.isDigit).getD false then none else some (['0'], rest)
  | cs =>
    if (cs.takeWhile Char.isDigit).isEmpty then none
    else some (cs.takeWhile Char.isDigit, cs.dropWhile Char.isDigit)

/-- the digits after a point, when there is one -/
def fractionDigits (cs : List Char) : Option (Option (List Char) × List Char) :=
  match cs with
  | '.' :: rest =>
    if (rest.takeWhile Char.isDigit).isEmpty then none
    else some (some (rest.takeWhile Char.isDigit), rest.dropWhile Char.isDigit)
  | cs => some (none, cs)

/-- the sign and digits of an exponent, when there is one -/
def exponentDigits (cs : List Char) : Option (Option (Bool × List Char) × List Char) :=
  match cs with
  | e :: rest =>
    if e == 'e' || e == 'E' then
      let (negative, rest) := match rest with
        | '-' :: rest => (true, rest)
        | '+' :: rest => (false, rest)
        | rest => (false, rest)
      if (rest.takeWhile Char.isDigit).isEmpty then none
      else some (some (negative, rest.takeWhile Char.isDigit), rest.dropWhile Char.isDigit)
    else some (none, cs)
  | [] => some (none, [])

/-- takes digits in after `n` up to the first one with which it would not fit into 64 bits, and counts the others -/
def absorb (n : Nat) : List Char → Nat × Nat
  | [] => (n, 0)
  | c :: rest =>
    let next := 10 * n + Text.decimalValue [c]
    if next < pow2 64 then absorb next rest else (n, rest.length + 1)

/-! ## Values -/

/-- the value of a whole number of 64 bits: exact, but a double for a negative zero and below the signed integers -/
def wholeNumber (negative : Bool) (n : Nat) : Json :=
  if !negative then int n
  else if n = 0 || pow2 63 < n then real (Binary64.ofDecimal true n 0)
  else int (-(n : Int))

/-- the double nearest to a power of ten -/
def tenTo (n : Nat) : Binary64 :=
  Binary64.ofDecimal false 1 n

/-- a number of 64 bits times a power of ten, rounded after every step; none when it is too great -/
def scaled? (negative : Bool) (n : Nat) (power : Int) : Option Binary64 :=
  let start := Binary64.ofDecimal negative n 0
  if n = 0 then some start
  else if 308 < power then none
  else if 0 ≤ power then
    let product := start.mul (tenTo power.toNat)
    if product.isFinite then some product else none
  else if -308 ≤ power then some (start.div (tenTo (-power).toNat))
  -- no power of ten below is a double, and after two steps nothing is left of a number of 64 bits
  else if -616 ≤ power then some ((start.div (tenTo 308)).div (tenTo (-power - 308).toNat))
  else some (Binary64.ofDecimal negative 0 0)

/-- a number; one that is no finite double is refused -/
def number (cs : List Char) : Option (Json × List Char) := do
  let (negative, cs) := match cs with
    | '-' :: rest => (true, rest)
    | cs => (false, cs)
  let (whole, cs) ← wholeDigits cs
  let (fraction, cs) ← fractionDigits cs
  let (exponent, cs) ← exponentDigits cs
  let (n, left) := absorb 0 whole
  if fraction.isNone && exponent.isNone && left = 0 then pure (wholeNumber negative n, cs)
  else
    let places := fraction.getD []
    -- digits after the point are taken in even where whole ones were left out
    let (n, dropped) := absorb n places
    let (down, digits) := exponent.getD (false, [])
    let shift : Int := if down then -(Text.decimalValue digits : Int) else Text.decimalValue digits
    let value ← scaled? negative n (shift + left - (places.length - dropped))
    pure (real value, cs)

end GraphGen.Json
