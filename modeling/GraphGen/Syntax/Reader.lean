/-
Reading values, types and directives off lexemes.

- `Reader`: takes what it reads off the front of the lexemes, or fails.
- `repeatWhile`: reads items as long as the next token asks for one.
- `block`: one or more items between brackets.
- `value`, `typeExpr`, `arguments`, `directives`: the forms that documents and schemas share.
- `Reader.ofText?`: what a reader makes of a whole text.

A reader never looks further than one token ahead. The number of lexemes left bounds repetition and nesting, since
every item and every level takes one at least.
-/
import GraphGen.Syntax.Token
import GraphGen.Syntax.Value

namespace GraphGen

/-- takes what it reads off the front of the lexemes, or fails -/
abbrev Reader (α : Type) := StateT (List Lexeme) Option α

namespace Reader

/-- the next lexeme -/
def next : Reader Lexeme := fun lexemes =>
  match lexemes with
  | [] => none
  | lexeme :: rest => some (lexeme, rest)

/-- the next token, left where it is -/
def peek : Reader (Option Token) := fun lexemes =>
  some (lexemes.head?.map Lexeme.token, lexemes)

/-- the number of lexemes left -/
def left : Reader Nat := fun lexemes =>
  some (lexemes.length, lexemes)

/-- whether the next token is `token`, which is then taken -/
def accept (token : Token) : Reader Bool := do
  if (← peek) = some token then
    let _ ← next
    pure true
  else pure false

/-- takes the token, which must come next -/
def expect (token : Token) : Reader Unit := do
  if !(← accept token) then failure

/-- takes the punctuation, which must come next -/
def expectPunct (c : Char) : Reader Unit :=
  expect (.punct c)

/-- takes a name -/
def anyName : Reader String := do
  match (← next).token with
  | .name text => pure text
  | _ => failure

/-- takes a name when one comes next -/
def optionalName : Reader (Option String) := do
  match ← peek with
  | some (.name _) => some <$> anyName
  | _ => pure none

/-- takes a string when one comes next -/
def optionalString : Reader (Option String) := do
  match ← peek with
  | some (.string text) =>
    let _ ← next
    pure (some text)
  | _ => pure none

/-! ## Repetition -/

/-- reads items as long as the next token asks for one, at most as many as the first argument says -/
def repeatUpTo {α : Type} (asks : Token → Bool) (item : Reader α) : Nat → Reader (List α)
  | 0 => pure []
  | n + 1 => do
    match ← peek with
    | some token =>
      if asks token then
        let found ← item
        let more ← repeatUpTo asks item n
        pure (found :: more)
      else pure []
    | none => pure []

/-- reads items as long as the next token asks for one -/
def repeatWhile {α : Type} (asks : Token → Bool) (item : Reader α) : Reader (List α) := do
  repeatUpTo asks item (← left)

/-- reads items up to the closing bracket, which is taken too -/
def itemsUntil {α : Type} (closing : Char) (item : Reader α) : Reader (List α) := do
  let items ← repeatWhile (· != .punct closing) item
  expectPunct closing
  pure items

/-- one or more items between brackets -/
def block {α : Type} (opening closing : Char) (item : Reader α) : Reader (List α) := do
  expectPunct opening
  let items ← itemsUntil closing item
  if items.isEmpty then failure else pure items

/-- one or more items between brackets, or none when the opening bracket is missing -/
def optionalBlock {α : Type} (opening closing : Char) (item : Reader α) : Reader (List α) := do
  if (← peek) = some (.punct opening) then block opening closing item else pure []

/-- names with `separator` between them, and optionally before the first one -/
def separatedNames (separator : Char) : Reader (List String) := do
  let _ ← accept (.punct separator)
  let first ← anyName
  let more ← repeatWhile (· = .punct separator) do
    expectPunct separator
    anyName
  pure (first :: more)

/-! ## Shared forms -/

/-- the value of a word -/
def wordValue (text : String) : Value :=
  if text = "true" then .boolean true
  else if text = "false" then .boolean false
  else if text = "null" then .null
  else .enum text

/-- a value with at most `depth` levels of nesting; a constant holds no variables -/
def valueUpTo (constant : Bool) : Nat → Reader Value
  | 0 => failure
  | depth + 1 => do
    match (← next).token with
    | .name text => pure (wordValue text)
    | .int n => pure (.int n)
    | .float d => pure (.float d)
    | .string text => pure (.string text)
    | .punct opening =>
      if opening = '$' then if constant then failure else .var <$> anyName
      else if opening = '[' then .list <$> itemsUntil ']' (valueUpTo constant depth)
      else if opening = '{' then
        let field : Reader (String × Value) := do
          let name ← anyName
          expectPunct ':'
          let value ← valueUpTo constant depth
          pure (name, value)
        .ofFields <$> itemsUntil '}' field
      else failure
    | .ellipsis => failure

/-- a value -/
def value (constant : Bool) : Reader Value := do
  valueUpTo constant ((← left) + 1)

/-- a type with at most `depth` levels of lists -/
def typeUpTo : Nat → Reader TypeExpr
  | 0 => failure
  | depth + 1 => do
    let inner ← match (← next).token with
      | .name text => pure (TypeExpr.named text)
      | .punct '[' => do
        let item ← typeUpTo depth
        expectPunct ']'
        pure (TypeExpr.list item)
      | _ => failure
    if ← accept (.punct '!') then pure (.nonNull inner) else pure inner

/-- a type -/
def typeExpr : Reader TypeExpr := do
  typeUpTo ((← left) + 1)

/-- a default value when an equals sign comes next -/
def optionalDefault : Reader (Option Value) := do
  if ← accept (.punct '=') then some <$> value true else pure none

/-- arguments when an opening parenthesis comes next -/
def arguments : Reader (List (String × Value)) :=
  optionalBlock '(' ')' do
    let name ← anyName
    expectPunct ':'
    let argument ← value false
    pure (name, argument)

/-- the applied directives that come next -/
def directives : Reader (List Directive) :=
  repeatWhile (· = .punct '@') do
    expectPunct '@'
    let name ← anyName
    let arguments ← arguments
    pure ⟨name, arguments⟩

/-- what a reader makes of a whole text -/
def ofText? {α : Type} (reader : Reader α) (text : String) : Option α := do
  let lexemes ← Token.lex text
  let (found, rest) ← reader lexemes
  if rest.isEmpty then pure found else none

/-- one or more items up to the end of the lexemes -/
def all {α : Type} (item : Reader α) : Reader (List α) := do
  let items ← repeatWhile (fun _ => true) item
  if items.isEmpty then failure else pure items

end Reader

end GraphGen
