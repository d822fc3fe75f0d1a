/-
Quoted text in which only printable characters stand as they are.

- `hexDigits`: a number in lower-case hexadecimal without leading zeros.
- `escape`: the written form of one character inside the quotes.
- `quoted`: a text between double quotes.
-/
import GraphGen.Text.Printable

namespace GraphGen.Text

/-- a number in lower-case hexadecimal without leading zeros -/
def hexDigits (n : Nat) : List Char :=
  Nat.toDigits 16 n

/-- the written form of a character: short escapes for the usual controls, the code point for all else unprintable -/
def escape (c : Char) : List Char :=
  match c with
  | '"' => ['\\', '"']
  | '\\' => ['\\', '\\']
  | '\n' => ['\\', 'n']
  | '\r' => ['\\', 'r']
  | '\t' => ['\\', 't']
  | '\x00' => ['\\', '0']
  | c => if isPrintable c then [c] else ['\\', 'u', '{'] ++ hexDigits c.toNat ++ ['}']

/-- a text between double quotes with its characters in written form -/
def quoted (s : String) : String :=
  String.ofList ('"' :: s.toList.flatMap escape ++ ['"'])

end GraphGen.Text
