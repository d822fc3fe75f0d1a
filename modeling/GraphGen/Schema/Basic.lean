/-
The schema that selections are resolved against.

- `NamedType`: a type with its content by kind; fields stand under their names in order.
- `Schema`: the types in order of declaration, the declared directives and the root types.
- `possibleTypes`: the object types that a value of a type can have.
- `fits`: whether a value of one type satisfies a condition on another.
- `requireType`, `requireField`: look-ups that fail with an error.
-/
import GraphGen.Document.Basic
import GraphGen.Error
import GraphGen.Sdl.Basic
import GraphGen.Table
import GraphGen.Text.Pieces
import GraphGen.Wrapping

namespace GraphGen

/-- an applied directive with its arguments in written form -/
structure AppliedDirective where
  name : String
  arguments : List (String × String)
  deriving DecidableEq, Inhabited

/-- the written form of an argument -/
def AppliedDirective.argument? (use : AppliedDirective) (name : String) : Option String :=
  use.arguments.lookup name

/-- that something should no longer be used, and why -/
structure Deprecation where
  reason : Option String
  deriving DecidableEq, Inhabited

/-- the reason of a deprecation, with the standard one when none is given -/
def Deprecation.text (d : Deprecation) : String :=
  d.reason.getD "No longer supported"

/-- an argument or an input field; its default value is in written form -/
structure InputValue where
  name : String
  description : Option String
  type : WrappedType
  default : Option String
  directives : List AppliedDirective
  deriving DecidableEq, Inhabited

/-- a field of an object or interface -/
structure Field where
  name : String
  description : Option String
  type : WrappedType
  arguments : List InputValue
  directives : List AppliedDirective
  deprecation : Option Deprecation
  deriving DecidableEq, Inhabited

/-- whether the directive of that name is applied to the field -/
def Field.carries (field : Field) (name : String) : Bool :=
  field.directives.any fun use => use.name = name

/-- a value of an enum -/
structure EnumValue where
  name : String
  description : Option String
  deprecation : Option Deprecation
  deriving DecidableEq, Inhabited

/-- what a type holds -/
inductive TypeContent where
  | scalar
  | object (interfaces : List String) (fields : Table Field)
  | interface (fields : Table Field)
  | union (members : List String)
  | enum (values : List EnumValue)
  | inputObject (fields : Table InputValue)
  deriving Inhabited

/-- a type of a schema -/
structure NamedType where
  name : String
  description : Option String
  directives : List AppliedDirective
  content : TypeContent
  /-- whether this is one of the scalars that every schema has -/
  builtin : Bool
  deriving Inhabited

namespace NamedType

/-- the kind of the type -/
def kind (type : NamedType) : TypeKind :=
  match type.content with
  | .scalar => .scalar
  | .object _ _ => .object
  | .interface _ => .interface
  | .union _ => .union
  | .enum _ => .enum
  | .inputObject _ => .inputObject

/-- the fields of an object or interface -/
def fields (type : NamedType) : Table Field :=
  match type.content with
  | .object _ fields => fields
  | .interface fields => fields
  | _ => .empty

/-- the fields of an input object -/
def inputFields (type : NamedType) : Table InputValue :=
  match type.content with
  | .inputObject fields => fields
  | _ => .empty

/-- the interfaces that an object implements -/
def interfaces (type : NamedType) : List String :=
  match type.content with
  | .object interfaces _ => interfaces
  | _ => []

/-- the members of a union -/
def members (type : NamedType) : List String :=
  match type.content with
  | .union members => members
  | _ => []

/-- the values of an enum -/
def enumValues (type : NamedType) : List EnumValue :=
  match type.content with
  | .enum values => values
  | _ => []

/-- whether the type implements the interface -/
def implements (type : NamedType) (interface : String) : Bool :=
  type.interfaces.contains interface

/-- whether the type is part of the introspection system -/
def isMeta (type : NamedType) : Bool :=
  Text.startsWith "__" type.name

end NamedType

/-- a declared directive -/
structure DeclaredDirective where
  name : String
  description : Option String
  arguments : List InputValue
  locations : List DirectiveLocation
  deriving Inhabited

/-- the names of the root types -/
structure Roots where
  query : Option String
  mutation : Option String
  subscription : Option String
  deriving DecidableEq, Inhabited

/-- the name of the root type of a kind -/
def Roots.get? (roots : Roots) : OperationKind → Option String
  | .query => roots.query
  | .mutation => roots.mutation
  | .subscription => roots.subscription

/-- the types, directives and root types of a schema document -/
structure Schema where
  document : SchemaDocument
  types : Table NamedType
  directives : Table DeclaredDirective
  roots : Roots
  deriving Inhabited

namespace Schema

/-- the scalars that every schema has, in their order -/
def builtinScalars : List String :=
  ["ID", "String", "Boolean", "Int", "Float"]

/-- the type of a name -/
def type? (schema : Schema) (name : String) : Option NamedType :=
  schema.types.get? name

/-- the type of a name, which must be known -/
def requireType (schema : Schema) (name : String) : Except Error NamedType :=
  match schema.type? name with
  | some type => .ok type
  | none => .error (.unknownType name)

/-- a field of an object or interface, both of which must be known -/
def requireField (schema : Schema) (type field : String) : Except Error Field :=
  match schema.requireType type with
  | .error error => .error error
  | .ok found =>
    match found.fields.get? field with
    | some field => .ok field
    | none => .error (.unknownField type field)

/-- the kind of the type of a name -/
def kind? (schema : Schema) (name : String) : Option TypeKind :=
  (schema.type? name).map NamedType.kind

/-- the types of a kind in order -/
def ofKind (schema : Schema) (kind : TypeKind) : List NamedType :=
  schema.types.values.filter fun type => type.kind = kind

/-- the objects that name the interface, once for every time they name it -/
def implementors (schema : Schema) (interface : String) : List String :=
  schema.types.values.flatMap fun type => (type.interfaces.filter (· = interface)).map fun _ => type.name

/-- the object types that a value of a type can have -/
def possibleTypes (schema : Schema) (name : String) : List String :=
  match schema.type? name with
  | none => []
  | some type =>
    match type.content with
    | .object _ _ => [type.name]
    | .union members => members
    | .interface _ => schema.implementors name
    | _ => []

/-- whether a value of type `concrete` satisfies a condition on `condition`: it is that type, implements that
interface or is a member of that union -/
def fits (schema : Schema) (concrete condition : String) : Bool :=
  concrete = condition ||
    match schema.type? concrete with
    | none => false
    | some type =>
      type.implements condition ||
        match schema.type? condition with
        | some other => other.members.contains concrete
        | none => false

/-- whether values of the type have no selections -/
def isLeaf (schema : Schema) (name : String) : Bool :=
  match schema.type? name with
  | some type => type.kind.isLeaf
  | none => false

/-- the fields of the input object of a name -/
def inputObject? (schema : Schema) (name : String) : Option (Table InputValue) :=
  match schema.type? name with
  | some type =>
    match type.content with
    | .inputObject fields => some fields
    | _ => none
  | none => none

/-- the name of the root type of a kind -/
def rootName? (schema : Schema) (kind : OperationKind) : Option String :=
  schema.roots.get? kind

/-- the root type of a kind -/
def root? (schema : Schema) (kind : OperationKind) : Option NamedType :=
  (schema.rootName? kind).bind schema.type?

/-- the types that schema plugins declare: all but the built-in scalars and the introspection system -/
def ownTypes (schema : Schema) : List NamedType :=
  schema.types.values.filter fun type => !type.builtin && !type.isMeta

end Schema

end GraphGen
