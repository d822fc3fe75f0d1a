/-
Numbers written as digits.

- `hexValue?`, `hexNumber?`: the value of hexadecimal digits.
- `decimalValue`: the value of decimal digits.
- `plainUnit?`: the character of a code point that is no surrogate.
-/
namespace GraphGen.Text

/-- the value of a hexadecimal digit -/
def hexValue? (c : Char) : Option Nat :=
  if '0' ≤ c && c ≤ '9' then some (c.toNat - 48)
  else if 'a' ≤ c && c ≤ 'f' then some (c.toNat - 87)
  else if 'A' ≤ c && c ≤ 'F' then some (c.toNat - 55)
  else none

/-- the value of hexadecimal digits -/
def hexNumber? (cs : List Char) : Option Nat :=
  cs.foldlM (fun n c => (hexValue? c).map (16 * n + ·)) 0

/-- the value of decimal digits -/
def decimalValue (digits : List Char) : Nat :=
  digits.foldl (fun n c => 10 * n + (c.toNat - 48)) 0

/-- the character of a code point that is no surrogate -/
def plainUnit? (n : Nat) : Option Char :=
  if 0xd800 ≤ n && n < 0xe000 then none else some (Char.ofNat n)

end GraphGen.Text
