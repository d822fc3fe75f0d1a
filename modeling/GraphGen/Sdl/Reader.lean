/-
Reading schema documents.

- `typeBodyAfter`: what follows the keyword of a type, for definitions and extensions alike.
- `addsSomething`: what an extension must add, by kind; the interfaces of an interface extension alone do not count.
- `SchemaDocument.parse?`: the document of a text.
-/
import GraphGen.Sdl.Basic
import GraphGen.Syntax.Reader

namespace GraphGen.Reader

/-- an argument or an input field -/
def inputValue : Reader InputValueDeclaration := do
  let description ← optionalString
  let name ← anyName
  expectPunct ':'
  let type ← typeExpr
  let default ← optionalDefault
  let directives ← directives
  pure ⟨description, name, type, default, directives⟩

/-- a field of an object or interface -/
def fieldDeclaration : Reader FieldDeclaration := do
  let description ← optionalString
  let name ← anyName
  let arguments ← optionalBlock '(' ')' inputValue
  expectPunct ':'
  let type ← typeExpr
  let directives ← directives
  pure ⟨description, name, arguments, type, directives⟩

/-- a value of an enum -/
def enumValue : Reader EnumValueDeclaration := do
  let description ← optionalString
  let name ← anyName
  let directives ← directives
  pure ⟨description, name, directives⟩

/-- the interfaces after the word `implements` -/
def interfaces : Reader (List String) := do
  if ← accept (.name "implements") then separatedNames '&' else pure []

/-- the members after an equals sign -/
def unionMembers : Reader (List String) := do
  if ← accept (.punct '=') then separatedNames '|' else pure []

/-- what follows the keyword of a type: its name, directives and body -/
def typeAfter (description : Option String) (keyword : String) : Reader TypeDeclaration := do
  let name ← anyName
  match keyword with
  | "scalar" =>
    let directives ← directives
    pure ⟨description, name, directives, .scalar⟩
  | "type" =>
    let interfaces ← interfaces
    let directives ← directives
    let fields ← optionalBlock '{' '}' fieldDeclaration
    pure ⟨description, name, directives, .object interfaces fields⟩
  | "interface" =>
    let interfaces ← interfaces
    let directives ← directives
    let fields ← optionalBlock '{' '}' fieldDeclaration
    pure ⟨description, name, directives, .interface interfaces fields⟩
  | "union" =>
    let directives ← directives
    let members ← unionMembers
    pure ⟨description, name, directives, .union members⟩
  | "enum" =>
    let directives ← directives
    let values ← optionalBlock '{' '}' enumValue
    pure ⟨description, name, directives, .enum values⟩
  | "input" =>
    let directives ← directives
    let fields ← optionalBlock '{' '}' inputValue
    pure ⟨description, name, directives, .inputObject fields⟩
  | _ => failure

/-- whether an extension adds something to its type -/
def addsSomething (extension : TypeDeclaration) : Bool :=
  !extension.directives.isEmpty ||
    match extension.body with
    | .scalar => false
    | .object interfaces fields => !interfaces.isEmpty || !fields.isEmpty
    | .interface _ fields => !fields.isEmpty
    | .union members => !members.isEmpty
    | .enum values => !values.isEmpty
    | .inputObject fields => !fields.isEmpty

/-- a root type in a schema definition -/
def rootEntry : Reader (String × String) := do
  let kind ← anyName
  expectPunct ':'
  let name ← anyName
  pure (kind, name)

/-- the root types of a schema definition, each kind at most once -/
def rootsOf (directives : List Directive) : List (String × String) → Option RootDeclaration
  | [] => some ⟨directives, none, none, none⟩
  | (kind, name) :: rest => do
    let found ← rootsOf directives rest
    match kind, found with
    | "query", ⟨_, none, mutation, subscription⟩ => some ⟨directives, some name, mutation, subscription⟩
    | "mutation", ⟨_, query, none, subscription⟩ => some ⟨directives, query, some name, subscription⟩
    | "subscription", ⟨_, query, mutation, none⟩ => some ⟨directives, query, mutation, some name⟩
    | _, _ => none

/-- what follows the word `schema` -/
def rootsAfter : Reader RootDeclaration := do
  let directives ← directives
  expectPunct '{'
  let entries ← itemsUntil '}' rootEntry
  match rootsOf directives entries with
  | some roots => pure roots
  | none => failure

/-- a place a directive may be applied to -/
def directiveLocation : Reader DirectiveLocation := do
  match DirectiveLocation.ofName? (← anyName) with
  | some location => pure location
  | none => failure

/-- the places after the word `on`; there are none when neither a name nor a bar follows -/
def directiveLocations : Reader (List DirectiveLocation) := do
  let barred ← accept (.punct '|')
  match ← peek, barred with
  | some (.name _), _ =>
    let first ← directiveLocation
    let more ← repeatWhile (· = .punct '|') do
      expectPunct '|'
      directiveLocation
    pure (first :: more)
  | _, true => failure
  | _, false => pure []

/-- what follows the word `directive` -/
def directiveAfter (description : Option String) : Reader DirectiveDeclaration := do
  expectPunct '@'
  let name ← anyName
  let arguments ← optionalBlock '(' ')' inputValue
  let repeatable ← accept (.name "repeatable")
  expect (.name "on")
  let locations ← directiveLocations
  pure ⟨description, name, arguments, repeatable, locations⟩

/-- a definition of a schema document; schema definitions and extensions have no description -/
def schemaDefinition : Reader SchemaDefinition := do
  let description ← optionalString
  match ← anyName, description with
  | "schema", none => .roots <$> rootsAfter
  | "extend", none =>
    let extension ← typeAfter none (← anyName)
    if addsSomething extension then pure (.extension extension) else failure
  | "directive", description => .directive <$> directiveAfter description
  | keyword, description => .type <$> typeAfter description keyword

end GraphGen.Reader

/-- the schema document of a text -/
def GraphGen.SchemaDocument.parse? (text : String) : Option GraphGen.SchemaDocument :=
  GraphGen.Reader.ofText? (GraphGen.Reader.all GraphGen.Reader.schemaDefinition) text
