/-
Reading JSON text.

- `parse?`: the value of a text. Every member of an object is kept, also one that is mentioned twice.
- `read?`: the canonical value of a text.
- `maxDepth`: how many arrays and objects may be open at once.

Every function takes the rest of the text and returns what it read with what is left. The number of characters left
bounds the recursion, since each step reads at least one.
-/
import GraphGen.Json.Number

namespace GraphGen.Json

/-- how many arrays and objects may be open at once -/
def maxDepth : Nat := 127

/-- the characters that may stand between tokens -/
def isSpace (c : Char) : Bool :=
  c == ' ' || c == '\n' || c == '\t' || c == '\r'

/-- the rest of a text from its next token on -/
def skipSpace (cs : List Char) : List Char :=
  cs.dropWhile isSpace

/-! ## Strings -/

/-- the character of a short escape -/
def shortEscape? : Char → Option Char
  | '"' => some '"'
  | '\\' => some '\\'
  | '/' => some '/'
  | 'b' => some '\x08'
  | 'f' => some '\x0c'
  | 'n' => some '\n'
  | 'r' => some '\r'
  | 't' => some '\t'
  | _ => none

/-- the character of a pair of surrogates -/
def pairedUnits? (high low : Nat) : Option Char :=
  if 0xd800 ≤ high && high < 0xdc00 && 0xdc00 ≤ low && low < 0xe000 then
    some (Char.ofNat (0x10000 + (high - 0xd800) * 0x400 + (low - 0xdc00)))
  else none

/-- the characters of a string up to its closing quote, and what follows the quote -/
def stringBody : List Char → Option (List Char × List Char)
  | '"' :: rest => some ([], rest)
  | '\\' :: 'u' :: a :: b :: c :: d :: rest => do
    let unit ← Text.hexNumber? [a, b, c, d]
    match Text.plainUnit? unit with
    | some ch =>
      let (body, rest) ← stringBody rest
      pure (ch :: body, rest)
    | none =>
      match rest with
      | '\\' :: 'u' :: e :: f :: g :: h :: rest =>
        let low ← Text.hexNumber? [e, f, g, h]
        let ch ← pairedUnits? unit low
        let (body, rest) ← stringBody rest
        pure (ch :: body, rest)
      | _ => none
  | '\\' :: e :: rest => do
    let ch ← shortEscape? e
    let (body, rest) ← stringBody rest
    pure (ch :: body, rest)
  | c :: rest =>
    if c.toNat < 0x20 || c == '\\' then none
    else do
      let (body, rest) ← stringBody rest
      pure (c :: body, rest)
  | [] => none

/-! ## Values -/

mutual

/-- a value, with at most `depth` further arrays and objects open at once -/
def value (depth : Nat) : Nat → List Char → Option (Json × List Char)
  | 0, _ => none
  | fuel + 1, cs =>
    match skipSpace cs with
    | 'n' :: 'u' :: 'l' :: 'l' :: rest => some (null, rest)
    | 't' :: 'r' :: 'u' :: 'e' :: rest => some (bool true, rest)
    | 'f' :: 'a' :: 'l' :: 's' :: 'e' :: rest => some (bool false, rest)
    | '"' :: rest => (stringBody rest).map fun (body, rest) => (str (String.ofList body), rest)
    | '[' :: rest =>
      if depth = 0 then none
      else
        match skipSpace rest with
        | ']' :: rest => some (arr [], rest)
        | rest => (items (depth - 1) fuel rest).map fun (found, rest) => (arr found, rest)
    | '{' :: rest =>
      if depth = 0 then none
      else
        match skipSpace rest with
        | '}' :: rest => some (obj [], rest)
        | rest => (members (depth - 1) fuel rest).map fun (found, rest) => (obj found, rest)
    | cs => number cs

/-- the items of an array up to its closing bracket -/
def items (depth : Nat) : Nat → List Char → Option (List Json × List Char)
  | 0, _ => none
  | fuel + 1, cs => do
    let (item, cs) ← value depth fuel cs
    match skipSpace cs with
    | ',' :: rest =>
      let (more, rest) ← items depth fuel rest
      pure (item :: more, rest)
    | ']' :: rest => pure ([item], rest)
    | _ => none

/-- the members of an object up to its closing brace -/
def members (depth : Nat) : Nat → List Char → Option (List (String × Json) × List Char)
  | 0, _ => none
  | fuel + 1, cs =>
    match skipSpace cs with
    | '"' :: rest => do
      let (key, rest) ← stringBody rest
      match skipSpace rest with
      | ':' :: rest =>
        let (item, rest) ← value depth fuel rest
        match skipSpace rest with
        | ',' :: rest =>
          let (more, rest) ← members depth fuel rest
          pure ((String.ofList key, item) :: more, rest)
        | '}' :: rest => pure ([(String.ofList key, item)], rest)
        | _ => none
      | _ => none
    | _ => none

end

/-- the value of a text, with every mention of a member -/
def parse? (text : String) : Option Json :=
  let cs := text.toList
  match value maxDepth (cs.length + 1) cs with
  | some (found, rest) => if (skipSpace rest).isEmpty then some found else none
  | none => none

/-- the canonical value of a text -/
def read? (text : String) : Option Json :=
  (parse? text).map canonical

end GraphGen.Json
