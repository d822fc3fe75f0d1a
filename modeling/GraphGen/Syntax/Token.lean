/-
Tokens of documents and schemas.

- `Token`: punctuation, a name, or the value of a number or string.
- `Lexeme`: a token with the line and column where it starts.
- `blockText`: the text of a block string, without its common indentation and its blank first and last lines.
- `lex`: the lexemes of a text. It fails on an unknown character, a malformed number or string, and when more than
  `maxOpen` brackets are open at once.

The first character of a token decides how many characters belong to it; the walk over the text skips the others.
-/
import GraphGen.Decimal.Binary64
import GraphGen.Text.Blank
import GraphGen.Text.Digits
import GraphGen.Text.Pieces

namespace GraphGen

/-- a token; a bracket, a mark or a separator is a single character of punctuation -/
inductive Token where
  | punct (c : Char)
  | ellipsis
  | name (text : String)
  | int (value : Int64)
  | float (value : Binary64)
  | string (text : String)
  deriving DecidableEq, Inhabited

/-- a place in a text, lines and columns counted from one -/
structure Position where
  line : Nat
  column : Nat
  deriving DecidableEq, Inhabited, Repr

/-- a token and where it starts -/
structure Lexeme where
  token : Token
  position : Position
  deriving Inhabited

namespace Token

/-! ## Names and numbers -/

/-- whether a name may start with the character -/
def isNameStart (c : Char) : Bool :=
  c == '_' || c.isAlpha

/-- whether a name may go on with the character -/
def isNameRest (c : Char) : Bool :=
  isNameStart c || c.isDigit

/-- whether the text is a name -/
def isName (s : String) : Bool :=
  match s.toList with
  | [] => false
  | c :: rest => isNameStart c && rest.all isNameRest

/-- whether a character ends a number -/
def endsNumber (c : Char) : Bool :=
  " \n\r\t,#!$:=@|&()[]\x7b\x7d".toList.contains c

/-- whether the characters are an integer: an optional sign, and digits without a leading zero -/
def isWhole (cs : List Char) : Bool :=
  match (match cs with | '-' :: rest => rest | cs => cs) with
  | [] => false
  | ['0'] => true
  | c :: rest => c.isDigit && c != '0' && rest.all Char.isDigit

/-- the characters before and after the last one that satisfies `p` -/
def cutLast (p : Char → Bool) : List Char → Option (List Char × List Char)
  | [] => none
  | c :: rest =>
    match cutLast p rest with
    | some (before, after) => some (c :: before, after)
    | none => if p c then some ([], rest) else none

/-- the value of an exponent: a sign or a digit from one to eight, and digits -/
def exponentValue? (cs : List Char) : Option Int :=
  match cs with
  | '-' :: rest => if !rest.isEmpty && rest.all Char.isDigit then some (-(Text.decimalValue rest : Int)) else none
  | '+' :: rest => if !rest.isEmpty && rest.all Char.isDigit then some (Text.decimalValue rest) else none
  | c :: rest =>
    if '1' ≤ c && c ≤ '8' && rest.all Char.isDigit then some (Text.decimalValue (c :: rest)) else none
  | [] => none

/-- the sign and the digits of a whole number -/
def signAndDigits (cs : List Char) : Bool × List Char :=
  match cs with
  | '-' :: rest => (true, rest)
  | cs => (false, cs)

/-- the double of a whole part, the digits after the point and an exponent -/
def floatValue? (whole : List Char) (places exponent : Option (List Char)) : Option Binary64 := do
  if !isWhole whole then none
  let digits := places.getD []
  if places.isSome && (digits.isEmpty || !digits.all Char.isDigit) then none
  let power ← match exponent with
    | none => some 0
    | some cs => exponentValue? cs
  let (negative, whole) := signAndDigits whole
  pure (Binary64.ofDecimal negative (Text.decimalValue (whole ++ digits)) (power - digits.length))

/-- the token of the characters of a number -/
def ofNumber? (cs : List Char) : Option Token :=
  let isExponentMark (c : Char) : Bool := c == 'e' || c == 'E'
  if cs.any fun c => c == '.' || isExponentMark c then
    match cutLast isExponentMark cs with
    | some (mantissa, exponent) =>
      -- a point after the exponent mark is left in the exponent, which refuses it
      match cutLast (· == '.') mantissa with
      | some (whole, places) => (floatValue? whole (some places) (some exponent)).map float
      | none => (floatValue? mantissa none (some exponent)).map float
    | none =>
      match cutLast (· == '.') cs with
      | some (whole, places) => (floatValue? whole (some places) none).map float
      | none => none
  else if isWhole cs then
    let (negative, digits) := signAndDigits cs
    let n : Int := if negative then -(Text.decimalValue digits : Int) else Text.decimalValue digits
    if -(pow2 63) ≤ n && n < pow2 63 then some (int (Int64.ofInt n)) else none
  else none

/-! ## Strings -/

/-- the value of four hexadecimal digits, the first of which may be a plus sign instead -/
def escapedCode? (cs : List Char) : Option Nat :=
  match cs with
  | '+' :: rest => if rest.isEmpty then none else Text.hexNumber? rest
  | cs => Text.hexNumber? cs

/-- the character of a short escape -/
def shortEscape? : Char → Option Char
  | '"' => some '"'
  | '\\' => some '\\'
  | '/' => some '/'
  | 'b' => some '\x10'
  | 'f' => some '\x0c'
  | 'n' => some '\n'
  | 'r' => some '\r'
  | 't' => some '\t'
  | _ => none

/-- the characters of a string up to its closing quote, and how many characters were read -/
def stringBody : List Char → Option (List Char × Nat)
  | '"' :: _ => some ([], 1)
  | '\\' :: 'u' :: a :: b :: c :: d :: rest => do
    let code ← escapedCode? [a, b, c, d]
    let ch ← Text.plainUnit? code
    let (body, count) ← stringBody rest
    pure (ch :: body, count + 6)
  | '\\' :: e :: rest => do
    let ch ← shortEscape? e
    let (body, count) ← stringBody rest
    pure (ch :: body, count + 2)
  | c :: rest =>
    if c == '\n' || c == '\\' then none
    else do
      let (body, count) ← stringBody rest
      pure (c :: body, count + 1)
  | [] => none

/-- the raw characters of a block string up to its closing quotes; a backslash before three quotes keeps them open -/
def blockBody : List Char → Option (List Char)
  | '"' :: '"' :: '"' :: _ => some []
  | '\\' :: '"' :: '"' :: '"' :: rest => (blockBody rest).map fun body => '\\' :: '"' :: '"' :: '"' :: body
  | c :: rest => (blockBody rest).map (c :: ·)
  | [] => none

/-- the number of bytes of a character -/
def byteSize (c : Char) : Nat :=
  c.utf8Size

/-- the number of bytes of a line -/
def byteLength : List Char → Nat
  | [] => 0
  | c :: rest => byteSize c + byteLength rest

/-- the bytes of the blank characters at the start of a line -/
def indentBytes (line : List Char) : Nat :=
  byteLength (line.takeWhile Text.isBlank)

/-- a line without the characters that start in its first `n` bytes -/
def dropBytes : Nat → List Char → List Char
  | 0, line => line
  | _, [] => []
  | n + 1, c :: rest => dropBytes (n + 1 - byteSize c) rest

/-- whether a line is blank -/
def isBlankLine (line : List Char) : Bool :=
  line.all Text.isBlank

/-- the text of the raw characters of a block string -/
def blockText (raw : List Char) : String :=
  match Text.cutLines [] raw with
  | [] => ""
  | first :: rest =>
    if isBlankLine first && rest.all isBlankLine then ""
    else
      let indents := (rest.filter fun line => !isBlankLine line).map indentBytes
      let cut (line : List Char) : List Char :=
        match indents.min? with
        | some indent => if indent ≤ byteLength line then dropBytes indent line else line
        | none => line
      let kept := (first :: rest.map cut).dropWhile isBlankLine
      let kept := (kept.reverse.dropWhile isBlankLine).reverse
      let unescape (line : List Char) : String :=
        Text.replace "\\\"\"\"" "\"\"\"" (String.ofList line)
      String.intercalate "\n" (kept.map unescape)

/-! ## Lexing -/

/-- how many brackets may be open at once -/
def maxOpen : Nat := 50

/-- the number of open brackets after a token, unless too many are open -/
def countOpen? (opened : Nat) : Token → Option Nat
  | punct c =>
    if c == '(' || c == '[' || c == '{' then if opened < maxOpen then some (opened + 1) else none
    else if c == ')' || c == ']' || c == '}' then some (opened - 1)
    else some opened
  | _ => some opened

/-- the place after characters of one line -/
def Position.advance (p : Position) (count : Nat) : Position :=
  ⟨p.line, p.column + count⟩

/-- the place after the characters of a block string -/
def Position.afterBlock (p : Position) (cs : List Char) : Position :=
  let breaks := cs.count '\n'
  if breaks = 0 then ⟨p.line, p.column + cs.length⟩
  else ⟨p.line + breaks, (cs.reverse.takeWhile (· != '\n')).length + 1⟩

/-- the characters of a block string with its quotes -/
def blockSpan (raw : List Char) : List Char :=
  ['"', '"', '"'] ++ raw ++ ['"', '"', '"']

/-- the token at the head of a text, how many characters it has, and the place after it -/
def readToken (p : Position) (cs : List Char) : Option (Token × Nat × Position) :=
  match cs with
  | '.' :: '.' :: '.' :: _ => some (ellipsis, 3, Position.advance p 3)
  | '"' :: '"' :: '"' :: rest => do
    let raw ← blockBody rest
    pure (string (blockText raw), raw.length + 6, Position.afterBlock p (blockSpan raw))
  | '"' :: rest => do
    let (body, count) ← stringBody rest
    pure (string (String.ofList body), count + 1, Position.advance p (count + 1))
  | c :: _ =>
    if "()[]\x7b\x7d!$:=@|&".toList.contains c then some (punct c, 1, Position.advance p 1)
    else if isNameStart c then
      let text := cs.takeWhile isNameRest
      some (name (String.ofList text), text.length, Position.advance p text.length)
    else if c == '-' || c.isDigit then
      let text := cs.takeWhile fun c => !endsNumber c
      (ofNumber? text).map fun token => (token, text.length, Position.advance p text.length)
    else none
  | [] => none

/-- where the walk over a text stands: between tokens, inside a comment, or inside a token with characters to skip -/
inductive Walk where
  | between
  | comment
  | inside (skip : Nat)

/-- the lexemes of the rest of a text -/
def lexFrom (walk : Walk) (p : Position) (opened : Nat) : List Char → Option (List Lexeme)
  | [] => some []
  | c :: rest =>
    match walk with
    | .inside (n + 1) => lexFrom (if n = 0 then .between else .inside n) p opened rest
    | .comment =>
      if c == '\n' || c == '\r' then lexFrom .between ⟨p.line + 1, 1⟩ opened rest
      else lexFrom .comment (Position.advance p 1) opened rest
    | _ =>
      if c == '\uFEFF' || c == '\r' then lexFrom .between p opened rest
      else if c == '\t' then lexFrom .between (Position.advance p 8) opened rest
      else if c == '\n' then lexFrom .between ⟨p.line + 1, 1⟩ opened rest
      else if c == ' ' || c == ',' then lexFrom .between (Position.advance p 1) opened rest
      else if c == '#' then lexFrom .comment (Position.advance p 1) opened rest
      else
        match readToken p (c :: rest) with
        | none => none
        | some (token, size, next) =>
          match countOpen? opened token with
          | none => none
          | some opened =>
            (lexFrom (if size ≤ 1 then .between else .inside (size - 1)) next opened rest).map (⟨token, p⟩ :: ·)

/-- the lexemes of a text -/
def lex (text : String) : Option (List Lexeme) :=
  lexFrom .between ⟨1, 1⟩ 0 text.toList

end Token

end GraphGen
