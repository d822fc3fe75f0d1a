/-
Declared types before they are written.

- `Property`, `EnumMember`, `Declaration`: a declared type with its comment, name and properties or values.
- `SchemaScope`: what references to schema types are written with.
- `SchemaScope.reference`: a scalar as a property of the type of all scalars, any other type by the name it gets.
- `SchemaScope.fieldProperty`, `inputProperty`: the property of a field, of an argument or of an input field.
- `SchemaScope.argumentsName`: the name of the type of a field's arguments.
-/
import GraphGen.Config.Shared
import GraphGen.Output.Comment
import GraphGen.Text.Uppercase

namespace GraphGen

/-- a property of a declared type -/
structure Property where
  comment : Option String := none
  key : String
  type : String
  optional : Bool := false
  readOnly : Bool := false
  deriving DecidableEq, Inhabited

/-- a value of a declared enum -/
structure EnumMember where
  comment : Option String := none
  name : String
  deriving DecidableEq, Inhabited

/-- what a name is declared as -/
inductive DeclarationBody where
  /-- another name for a type -/
  | abbreviation (type : String)
  /-- an object type that includes some others -/
  | object (bases : List String) (properties : List Property)
  | enumeration (members : List EnumMember)
  deriving DecidableEq, Inhabited

/-- a declared type -/
structure Declaration where
  comment : Option String := none
  name : String
  /-- the type parameters, with their brackets -/
  parameters : String := ""
  body : DeclarationBody
  deriving DecidableEq, Inhabited

/-- the properties of an object type -/
def Declaration.properties (d : Declaration) : List Property :=
  match d.body with
  | .object _ properties => properties
  | _ => []

/-- what references to schema types are written with -/
structure SchemaScope where
  schema : Schema
  dialect : Dialect
  names : NameAffixes
  options : ShapeSettings
  readOnly : Bool

namespace SchemaScope

/-- the name of the type whose properties are the scalars -/
def scalarsName : String := "Scalars"

/-- the name that a schema type gets -/
def typeName (scope : SchemaScope) (name : String) : String :=
  scope.names.apply name

/-- a named type: a scalar as a property of the type of all scalars, any other type by the name it gets -/
def namedReference (scope : SchemaScope) (name : String) : String :=
  if scope.schema.kind? name = some .scalar then scope.dialect.propertyType scalarsName name else scope.typeName name

/-- a type with its wrappers -/
def reference (scope : SchemaScope) (type : WrappedType) : String :=
  type.wrap (scope.namedReference type.name) scope.dialect.encoder

/-- the property of a field -/
def fieldProperty (scope : SchemaScope) (comment : Option String) (field : Field) : Property where
  comment := comment
  key := field.name
  type := scope.reference field.type
  optional := scope.options.isOptional field.type
  readOnly := scope.readOnly

/-- the property of an argument or an input field, which may also be left out when it has a default -/
def inputProperty (scope : SchemaScope) (comment : Option String) (value : InputValue) : Property where
  comment := comment
  key := value.name
  type := scope.reference value.type
  optional := scope.options.isOptional value.type || value.default.isSome
  readOnly := scope.readOnly

/-- the property that tells the type name of an object -/
def typenameProperties (scope : SchemaScope) (type : NamedType) : List Property :=
  if type.kind = .object && !scope.options.skipTypename then
    [{ key := "__typename"
       type := scope.dialect.stringLiteral type.name
       optional := !scope.options.nonOptionalTypename }]
  else []

/-- the type of all scalars -/
def scalarsDeclaration (scalars : ScalarTargets) (types : List NamedType) : Declaration where
  comment := some "All built-in and custom scalars, mapped to their actual values"
  name := scalarsName
  body := .object [] (types.map fun type => { key := type.name, type := scalars.target type.name })

/-- a union of the types that its members get -/
def memberUnion (scope : SchemaScope) (type : NamedType) : String :=
  String.intercalate " | " (type.members.map scope.typeName)

/-- the schema name that the type of a field's arguments is made of -/
def argumentsTypeName (type field : String) : String :=
  type ++ Text.capitalize field ++ "Args"

/-- the name of the type of a field's arguments -/
def argumentsName (names : NameAffixes) (type field : String) : String :=
  names.apply (argumentsTypeName type field)

end SchemaScope

end GraphGen
