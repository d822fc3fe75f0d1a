/-
Printed JSON.

- `quote`: a string between quotes; the quote, the backslash and controls are escaped, all else stands as it is.
- `compress`: a value without spaces.
- `pretty`: a value over several lines, two spaces a level, `[]` and `{}` when empty.
-/
import GraphGen.Decimal.Shortest
import GraphGen.Json.Value
import GraphGen.Text.Quoted

namespace GraphGen.Json

/-- the written form of a character inside a string -/
def escapeChar (c : Char) : List Char :=
  match c with
  | '"' => ['\\', '"']
  | '\\' => ['\\', '\\']
  | '\x08' => ['\\', 'b']
  | '\x0c' => ['\\', 'f']
  | '\n' => ['\\', 'n']
  | '\r' => ['\\', 'r']
  | '\t' => ['\\', 't']
  | c =>
    if c.toNat < 0x20 then
      ['\\', 'u', '0', '0'] ++ (if c.toNat < 0x10 then ['0'] else []) ++ Text.hexDigits c.toNat
    else [c]

/-- a string between quotes -/
def quote (s : String) : String :=
  String.ofList ('"' :: s.toList.flatMap escapeChar ++ ['"'])

/-- the text of a number, a literal or a string -/
def printReal (d : Binary64) : String :=
  if d.isFinite then d.literal else "null"

mutual

/-- a value without spaces -/
def compress : Json → String
  | null => "null"
  | bool b => if b then "true" else "false"
  | int n => toString n
  | real d => printReal d
  | str s => quote s
  | arr items => "[" ++ String.intercalate "," (compressItems items) ++ "]"
  | obj members => "\x7b" ++ String.intercalate "," (compressMembers members) ++ "\x7d"

/-- the items without spaces -/
def compressItems : List Json → List String
  | [] => []
  | item :: rest => compress item :: compressItems rest

/-- the members without spaces -/
def compressMembers : List (String × Json) → List String
  | [] => []
  | (key, value) :: rest => (quote key ++ ":" ++ compress value) :: compressMembers rest

end

/-- a line break and the spaces of a level -/
def newline (level : Nat) : String :=
  String.ofList ('\n' :: List.replicate (2 * level) ' ')

/-- parts between brackets, one a line -/
def layOut (opening closing : String) (level : Nat) (parts : List String) : String :=
  if parts.isEmpty then opening ++ closing
  else
    opening ++ newline (level + 1) ++ String.intercalate ("," ++ newline (level + 1)) parts ++ newline level ++ closing

mutual

/-- a value over several lines, its continuation lines at `level` -/
def prettyAt (level : Nat) : Json → String
  | null => "null"
  | bool b => if b then "true" else "false"
  | int n => toString n
  | real d => printReal d
  | str s => quote s
  | arr items => layOut "[" "]" level (prettyItems (level + 1) items)
  | obj members => layOut "\x7b" "\x7d" level (prettyMembers (level + 1) members)

/-- the items, each over several lines -/
def prettyItems (level : Nat) : List Json → List String
  | [] => []
  | item :: rest => prettyAt level item :: prettyItems level rest

/-- the members, each over several lines -/
def prettyMembers (level : Nat) : List (String × Json) → List String
  | [] => []
  | (key, value) :: rest => (quote key ++ ": " ++ prettyAt level value) :: prettyMembers level rest

end

/-- a value over several lines -/
def pretty (value : Json) : String :=
  prettyAt 0 value

end GraphGen.Json
