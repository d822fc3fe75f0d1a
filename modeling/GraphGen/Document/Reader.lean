/-
Reading executable documents.

- `selection`: a field, a spread or an inline fragment; the word `on` after the dots always opens a type condition.
- `operation`, `fragment`: definitions.
- `Document.parse?`: the document of a text.
-/
import GraphGen.Document.Basic
import GraphGen.Syntax.Reader

namespace GraphGen.Reader

/-- a selection with at most `depth` levels of nesting -/
def selectionUpTo : Nat → Reader Selection
  | 0 => failure
  | depth + 1 => do
    if ← accept .ellipsis then
      match ← peek with
      | some (.name "on") => do
        let _ ← next
        let condition ← anyName
        let directives ← directives
        let selections ← block '{' '}' (selectionUpTo depth)
        pure (.inline (some condition) directives selections)
      | some (.name _) => do
        let name ← anyName
        let directives ← directives
        pure (.spread name directives)
      | _ => do
        let directives ← directives
        let selections ← block '{' '}' (selectionUpTo depth)
        pure (.inline none directives selections)
    else
      let first ← anyName
      let second ← if ← accept (.punct ':') then some <$> anyName else pure none
      let arguments ← arguments
      let directives ← directives
      let selections ← optionalBlock '{' '}' (selectionUpTo depth)
      match second with
      | some name => pure (.field (some first) name arguments directives selections)
      | none => pure (.field none first arguments directives selections)

/-- the selections between braces -/
def selectionSet : Reader SelectionSet := do
  let depth ← left
  block '{' '}' (selectionUpTo depth)

/-- a declared variable -/
def variableDefinition : Reader VariableDefinition := do
  expectPunct '$'
  let name ← anyName
  expectPunct ':'
  let type ← typeExpr
  let default ← optionalDefault
  pure ⟨name, type, default⟩

/-- what follows the keyword of an operation -/
def operationAfter (kind : OperationKind) (position : Position) : Reader Operation := do
  let name ← optionalName
  let declared ← optionalBlock '(' ')' variableDefinition
  let directives ← directives
  let selections ← selectionSet
  pure ⟨.keyword kind name declared directives, selections, position⟩

/-- what follows the keyword of a fragment definition -/
def fragmentAfter : Reader Fragment := do
  let name ← anyName
  expect (.name "on")
  let condition ← anyName
  let directives ← directives
  let selections ← selectionSet
  pure ⟨name, condition, directives, selections⟩

/-- a definition -/
def definition : Reader Definition := do
  match ← peek with
  | some (.punct '{') =>
    let lexemes ← get
    let selections ← selectionSet
    pure (.operation ⟨.bare, selections, (lexemes.head?.map Lexeme.position).getD ⟨1, 1⟩⟩)
  | _ =>
    let lexeme ← next
    match lexeme.token with
    | .name "query" => .operation <$> operationAfter .query lexeme.position
    | .name "mutation" => .operation <$> operationAfter .mutation lexeme.position
    | .name "subscription" => .operation <$> operationAfter .subscription lexeme.position
    | .name "fragment" => .fragment <$> fragmentAfter
    | _ => failure

end GraphGen.Reader

/-- the document of a text -/
def GraphGen.Document.parse? (text : String) : Option GraphGen.Document :=
  GraphGen.Reader.ofText? (GraphGen.Reader.all GraphGen.Reader.definition) text
