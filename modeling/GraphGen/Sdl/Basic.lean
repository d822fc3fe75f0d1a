/-
Schema documents.

- `DirectiveLocation`: the places a directive may be applied to.
- `TypeBody`: what a type is and holds, by kind.
- `TypeDeclaration`: a type definition or extension: its name, description, directives and body.
- `RootDeclaration`: a schema definition, which names the root types.
- `DirectiveDeclaration`: a directive definition.
- `SchemaDefinition`, `SchemaDocument`: definitions in the order they were written.
-/
import GraphGen.Syntax.Value

namespace GraphGen

/-- the kind of a named type -/
inductive TypeKind where
  | scalar
  | object
  | interface
  | union
  | enum
  | inputObject
  deriving DecidableEq, Inhabited

namespace TypeKind

/-- the introspection name of the kind -/
def name : TypeKind → String
  | scalar => "SCALAR"
  | object => "OBJECT"
  | interface => "INTERFACE"
  | union => "UNION"
  | enum => "ENUM"
  | inputObject => "INPUT_OBJECT"

/-- the kind in plain words -/
def words : TypeKind → String
  | scalar => "scalar"
  | object => "object"
  | interface => "interface"
  | union => "union"
  | enum => "enum"
  | inputObject => "input object"

/-- whether values of the kind have no selections -/
def isLeaf : TypeKind → Bool
  | scalar | enum => true
  | _ => false

/-- whether values of the kind have one of several object types -/
def isAbstract : TypeKind → Bool
  | interface | union => true
  | _ => false

/-- whether values of the kind carry selections -/
def isComposite : TypeKind → Bool
  | object | interface | union => true
  | _ => false

/-- every kind -/
def all : List TypeKind :=
  [scalar, object, interface, union, enum, inputObject]

end TypeKind

/-- a place a directive may be applied to -/
inductive DirectiveLocation where
  | query
  | mutation
  | subscription
  | field
  | fragmentDefinition
  | fragmentSpread
  | inlineFragment
  | schema
  | scalar
  | object
  | fieldDefinition
  | argumentDefinition
  | interface
  | union
  | enum
  | enumValue
  | inputObject
  | inputFieldDefinition
  | variableDefinition
  deriving DecidableEq, Inhabited

namespace DirectiveLocation

/-- the written name of the location -/
def name : DirectiveLocation → String
  | query => "QUERY"
  | mutation => "MUTATION"
  | subscription => "SUBSCRIPTION"
  | field => "FIELD"
  | fragmentDefinition => "FRAGMENT_DEFINITION"
  | fragmentSpread => "FRAGMENT_SPREAD"
  | inlineFragment => "INLINE_FRAGMENT"
  | schema => "SCHEMA"
  | scalar => "SCALAR"
  | object => "OBJECT"
  | fieldDefinition => "FIELD_DEFINITION"
  | argumentDefinition => "ARGUMENT_DEFINITION"
  | interface => "INTERFACE"
  | union => "UNION"
  | enum => "ENUM"
  | enumValue => "ENUM_VALUE"
  | inputObject => "INPUT_OBJECT"
  | inputFieldDefinition => "INPUT_FIELD_DEFINITION"
  | variableDefinition => "VARIABLE_DEFINITION"

/-- every location -/
def all : List DirectiveLocation :=
  [query, mutation, subscription, field, fragmentDefinition, fragmentSpread, inlineFragment, schema, scalar, object,
    fieldDefinition, argumentDefinition, interface, union, enum, enumValue, inputObject, inputFieldDefinition,
    variableDefinition]

/-- the location of a written name -/
def ofName? (text : String) : Option DirectiveLocation :=
  all.find? fun location => location.name = text

end DirectiveLocation

/-- an argument or an input field -/
structure InputValueDeclaration where
  description : Option String
  name : String
  type : TypeExpr
  default : Option Value
  directives : List Directive
  deriving Inhabited

/-- a field of an object or interface -/
structure FieldDeclaration where
  description : Option String
  name : String
  arguments : List InputValueDeclaration
  type : TypeExpr
  directives : List Directive
  deriving Inhabited

/-- a value of an enum -/
structure EnumValueDeclaration where
  description : Option String
  name : String
  directives : List Directive
  deriving Inhabited

/-- what a declared type is and holds -/
inductive TypeBody where
  | scalar
  | object (interfaces : List String) (fields : List FieldDeclaration)
  | interface (interfaces : List String) (fields : List FieldDeclaration)
  | union (members : List String)
  | enum (values : List EnumValueDeclaration)
  | inputObject (fields : List InputValueDeclaration)
  deriving Inhabited

/-- the kind of the type that a body belongs to -/
def TypeBody.kind : TypeBody → TypeKind
  | scalar => .scalar
  | object _ _ => .object
  | interface _ _ => .interface
  | union _ => .union
  | enum _ => .enum
  | inputObject _ => .inputObject

/-- a type definition or extension -/
structure TypeDeclaration where
  description : Option String
  name : String
  directives : List Directive
  body : TypeBody
  deriving Inhabited

/-- a schema definition -/
structure RootDeclaration where
  directives : List Directive
  query : Option String
  mutation : Option String
  subscription : Option String
  deriving Inhabited

/-- a directive definition -/
structure DirectiveDeclaration where
  description : Option String
  name : String
  arguments : List InputValueDeclaration
  repeatable : Bool
  locations : List DirectiveLocation
  deriving Inhabited

/-- a definition of a schema document -/
inductive SchemaDefinition where
  | roots (declaration : RootDeclaration)
  | type (declaration : TypeDeclaration)
  | extension (declaration : TypeDeclaration)
  | directive (declaration : DirectiveDeclaration)
  deriving Inhabited

/-- the definitions of a schema document -/
abbrev SchemaDocument := List SchemaDefinition

end GraphGen
