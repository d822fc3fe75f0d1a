/-
Printed values, arguments and directives.

- `quote`: a string in a document: a block of lines when it has line breaks and no character that must be escaped, and
  otherwise one line between quotes.
- `printValue`, `printArguments`, `printDirectives`: the forms that documents and schemas share.

The level is the number of spaces before the line on which the text starts; only block strings depend on it.
-/
import GraphGen.Syntax.Value
import GraphGen.Text.Blank
import GraphGen.Text.Pieces

namespace GraphGen.Printer

/-- two spaces a level -/
def step : Nat := 2

/-- the spaces before a line -/
def spaces (level : Nat) : String :=
  String.ofList (List.replicate level ' ')

/-- whether a character stands as it is in a block string -/
def standsInBlock (c : Char) : Bool :=
  c == '\r' || c == '\n' || c == '\t' || (0x20 ≤ c.toNat && c.toNat ≤ 0xffff)

/-- decimal digits, at least four -/
def fourDigits (n : Nat) : List Char :=
  let digits := Nat.toDigits 10 n
  List.replicate (4 - digits.length) '0' ++ digits

/-- the written form of a character between quotes; a character that cannot stand there gives its number in decimal -/
def escapeChar (c : Char) : List Char :=
  match c with
  | '\r' => ['\\', 'r']
  | '\n' => ['\\', 'n']
  | '\t' => ['\\', 't']
  | '"' => ['\\', '"']
  | '\\' => ['\\', '\\']
  | c => if 0x20 ≤ c.toNat && c.toNat ≤ 0xffff then [c] else ['\\', 'u'] ++ fourDigits c.toNat

/-- a string on one line -/
def quoteLine (s : String) : String :=
  String.ofList ('"' :: s.toList.flatMap escapeChar ++ ['"'])

/-- a line of a block string; a blank line stays empty -/
def blockLine (level : Nat) (line : String) : String :=
  if line.toList.all Text.isBlank then "\n"
  else spaces level ++ Text.replace "\"\"\"" "\\\"\"\"" line ++ "\n"

/-- a string over several lines -/
def quoteBlock (level : Nat) (s : String) : String :=
  "\"\"\"\n" ++ String.join ((Text.lines s).map (blockLine (level + step))) ++ spaces level ++ "\"\"\""

/-- a string as a document holds it -/
def quote (level : Nat) (s : String) : String :=
  if s.toList.contains '\n' && s.toList.all standsInBlock then quoteBlock level s else quoteLine s

mutual

/-- a value -/
def printValue (level : Nat) : Value → String
  | .var name => "$" ++ name
  | .int n => toString n.toInt
  | .float d => d.display
  | .string s => quote level s
  | .boolean b => if b then "true" else "false"
  | .null => "null"
  | .enum name => name
  | .list items => "[" ++ String.intercalate ", " (printItems level items) ++ "]"
  | .object fields => "\x7b" ++ String.intercalate ", " (printFields level fields) ++ "\x7d"

/-- the items of a list -/
def printItems (level : Nat) : List Value → List String
  | [] => []
  | item :: rest => printValue level item :: printItems level rest

/-- the fields of an object or the arguments of a field -/
def printFields (level : Nat) : List (String × Value) → List String
  | [] => []
  | (name, value) :: rest => (name ++ ": " ++ printValue level value) :: printFields level rest

end

/-- arguments between parentheses, nothing when there are none -/
def printArguments (level : Nat) (arguments : List (String × Value)) : String :=
  if arguments.isEmpty then "" else "(" ++ String.intercalate ", " (printFields level arguments) ++ ")"

/-- applied directives, each after a space -/
def printDirectives (level : Nat) (directives : List Directive) : String :=
  String.join (directives.map fun d => " @" ++ d.name ++ printArguments level d.arguments)

/-- a default value after an equals sign -/
def printDefault (level : Nat) (default : Option Value) : String :=
  match default with
  | some value => " = " ++ printValue level value
  | none => ""

end GraphGen.Printer
