/-
Schemas from schema documents.

- `NamedType.ofDeclaration`: the type of a definition.
- `NamedType.extend?`: a type with the content of an extension of the same kind added; a field that is already there is
  replaced in place.
- `Schema.ofDocument`: definitions first and extensions after them, both in document order; then the root types and
  all references are checked.
- `Schema.parse`, `Schema.parseWith`: the schema of a text, and of a text with further texts appended.

A built-in scalar may be declared again, which changes nothing. Root types that no schema definition names are the
types of the default names, where such types exist.
-/
import GraphGen.Schema.Basic
import GraphGen.Sdl.Reader

namespace GraphGen

/-- an applied directive in written form -/
def AppliedDirective.ofDirective (d : Directive) : AppliedDirective :=
  ⟨d.name, d.arguments.map fun (name, value) => (name, value.render)⟩

/-- the text of a written string: without its quotes, and with its escaped quotes plain -/
def bareText (written : String) : String :=
  let inner := match written.toList with
    | '"' :: rest => if rest.getLast? = some '"' then rest.dropLast else '"' :: rest
    | cs => cs
  Text.replace "\\\"" "\"" (String.ofList inner)

/-- the deprecation that applied directives state -/
def Deprecation.ofUses (uses : List AppliedDirective) : Option Deprecation :=
  (uses.find? fun use => use.name = "deprecated").map fun use => ⟨(use.argument? "reason").map bareText⟩

/-- the argument or input field of a declaration -/
def InputValue.ofDeclaration (d : InputValueDeclaration) : InputValue :=
  ⟨d.name, d.description, WrappedType.ofExpr d.type, d.default.map Value.render, d.directives.map .ofDirective⟩

/-- the field of a declaration -/
def Field.ofDeclaration (d : FieldDeclaration) : Field :=
  let uses := d.directives.map AppliedDirective.ofDirective
  ⟨d.name, d.description, WrappedType.ofExpr d.type, d.arguments.map .ofDeclaration, uses, Deprecation.ofUses uses⟩

/-- the enum value of a declaration -/
def EnumValue.ofDeclaration (d : EnumValueDeclaration) : EnumValue :=
  ⟨d.name, d.description, Deprecation.ofUses (d.directives.map .ofDirective)⟩

/-- declared fields under their names -/
def fieldEntries (fields : List FieldDeclaration) : List (String × Field) :=
  fields.map fun d => (d.name, .ofDeclaration d)

/-- declared input fields under their names -/
def inputEntries (fields : List InputValueDeclaration) : List (String × InputValue) :=
  fields.map fun d => (d.name, .ofDeclaration d)

/-- what a declared type holds; the interfaces of an interface are not recorded -/
def TypeContent.ofBody : TypeBody → TypeContent
  | .scalar => .scalar
  | .object interfaces fields => .object interfaces (.ofList (fieldEntries fields))
  | .interface _ fields => .interface (.ofList (fieldEntries fields))
  | .union members => .union members
  | .enum values => .enum (values.map .ofDeclaration)
  | .inputObject fields => .inputObject (.ofList (inputEntries fields))

/-- what a type holds after an extension, which must be of the same kind -/
def TypeContent.extend? : TypeContent → TypeBody → Option TypeContent
  | .scalar, .scalar => some .scalar
  | .object interfaces fields, .object more added =>
    some (.object (interfaces ++ more) (fields.insertAll (fieldEntries added)))
  | .interface fields, .interface _ added => some (.interface (fields.insertAll (fieldEntries added)))
  | .union members, .union added => some (.union (members ++ added))
  | .enum values, .enum added => some (.enum (values ++ added.map .ofDeclaration))
  | .inputObject fields, .inputObject added => some (.inputObject (fields.insertAll (inputEntries added)))
  | _, _ => none

namespace NamedType

/-- the type of a definition -/
def ofDeclaration (d : TypeDeclaration) : NamedType :=
  ⟨d.name, d.description, d.directives.map .ofDirective, .ofBody d.body, false⟩

/-- a built-in scalar -/
def builtinScalar (name : String) : NamedType :=
  ⟨name, none, [], .scalar, true⟩

/-- the type with an extension of the same kind added -/
def extend? (type : NamedType) (extension : TypeDeclaration) : Option NamedType :=
  (type.content.extend? extension.body).map fun content =>
    { type with directives := type.directives ++ extension.directives.map .ofDirective, content }

end NamedType

/-- the directive of a declaration -/
def DeclaredDirective.ofDeclaration (d : DirectiveDeclaration) : DeclaredDirective :=
  ⟨d.name, d.description, d.arguments.map .ofDeclaration, d.locations⟩

namespace Schema

/-! ## Definitions and extensions -/

/-- the built-in scalars -/
def builtinTypes : Table NamedType :=
  .ofList (builtinScalars.map fun name => (name, .builtinScalar name))

/-- enters a defined type, which must be new or declare a built-in scalar again -/
def declareType (types : Table NamedType) (d : TypeDeclaration) : Except Error (Table NamedType) :=
  match types.get? d.name with
  | none => .ok (types.insert d.name (.ofDeclaration d))
  | some existing =>
    if existing.builtin && d.body.kind = .scalar then .ok types
    else .error (.invalidSchema (.duplicateType d.name))

/-- adds an extension to its type, which must exist and be of the same kind -/
def applyExtension (types : Table NamedType) (extension : TypeDeclaration) : Except Error (Table NamedType) :=
  match types.get? extension.name with
  | none => .error (.unknownType extension.name)
  | some type =>
    match type.extend? extension with
    | some extended => .ok (types.insert extension.name extended)
    | none => .error (.invalidSchema (.extensionKind extension.name))

/-- the type definitions of a document in order -/
def definedTypes (document : SchemaDocument) : List TypeDeclaration :=
  document.filterMap fun
    | .type d => some d
    | _ => none

/-- the type extensions of a document in order -/
def extensionsOf (document : SchemaDocument) : List TypeDeclaration :=
  document.filterMap fun
    | .extension d => some d
    | _ => none

/-- the directives of a document; a later definition of a name replaces an earlier one in place -/
def declaredDirectives (document : SchemaDocument) : Table DeclaredDirective :=
  .ofList <| document.filterMap fun
    | .directive d => some (d.name, .ofDeclaration d)
    | _ => none

/-- the types of a document -/
def typesOf (document : SchemaDocument) : Except Error (Table NamedType) := do
  let defined ← (definedTypes document).foldlM declareType builtinTypes
  (extensionsOf document).foldlM applyExtension defined

/-! ## Root types -/

/-- the root types that schema definitions name, in the order they are named -/
def namedRoots (document : SchemaDocument) : List (OperationKind × String) :=
  document.flatMap fun
    | .roots d =>
      (d.query.map fun name => (OperationKind.query, name)).toList
        ++ (d.mutation.map fun name => (OperationKind.mutation, name)).toList
        ++ (d.subscription.map fun name => (OperationKind.subscription, name)).toList
    | _ => []

/-- the last name that is given for a kind -/
def lastRoot (named : List (OperationKind × String)) (kind : OperationKind) : Option String :=
  (named.reverse.find? fun entry => entry.1 = kind).map Prod.snd

/-- the root type of a kind: the one named last, or else the type of the default name -/
def rootOf (types : Table NamedType) (named : List (OperationKind × String)) (kind : OperationKind) : Option String :=
  match lastRoot named kind with
  | some name => some name
  | none => if types.contains kind.typeName then some kind.typeName else none

/-- the root types of a document with these types -/
def rootsOf (types : Table NamedType) (named : List (OperationKind × String)) : Roots :=
  ⟨rootOf types named .query, rootOf types named .mutation, rootOf types named .subscription⟩

/-- the order in which named roots are checked: the query first, then of mutation and subscription the one that was
named later; the query comes between the two when it was named after both -/
def rootCheckOrder (named : List (OperationKind × String)) : List OperationKind :=
  let order := (named.map Prod.fst).eraseDups
  let others := (order.filter (· ≠ .query)).reverse
  match others, order with
  | [later, earlier], [_, _, .query] => [later, .query, earlier]
  | others, order => order.filter (· = .query) ++ others

/-! ## References -/

/-- the type of a reference must be known -/
def checkKnown (types : Table NamedType) (name : String) : Except Error Unit :=
  if types.contains name then .ok () else .error (.unknownType name)

/-- the types of a field and of its arguments must be known -/
def checkField (types : Table NamedType) (field : Field) : Except Error Unit := do
  checkKnown types field.type.name
  field.arguments.forM fun argument => checkKnown types argument.type.name

/-- the kind of the type of a name -/
def kindIn (types : Table NamedType) (name : String) : Option TypeKind :=
  (types.get? name).map NamedType.kind

/-- fields and input fields have known types, interfaces are interfaces, and members are objects -/
def checkType (types : Table NamedType) (type : NamedType) : Except Error Unit := do
  type.fields.values.forM (checkField types)
  type.inputFields.values.forM fun field => checkKnown types field.type.name
  type.interfaces.forM fun interface =>
    if kindIn types interface = some .interface then .ok ()
    else .error (.invalidSchema (.notAnInterface type.name interface))
  type.members.forM fun member =>
    if kindIn types member = some .object then .ok ()
    else .error (.invalidSchema (.notAnObject type.name member))

/-- every root type and every reference of a type -/
def refuseUnknownTypes (types : Table NamedType) (named : List (OperationKind × String)) : Except Error Unit := do
  (rootCheckOrder named).forM fun kind =>
    match lastRoot named kind with
    | some name => checkKnown types name
    | none => .ok ()
  types.values.forM (checkType types)

/-! ## Schemas -/

/-- the schema of a document -/
def ofDocument (document : SchemaDocument) : Except Error Schema := do
  let types ← typesOf document
  let named := namedRoots document
  refuseUnknownTypes types named
  pure ⟨document, types, declaredDirectives document, rootsOf types named⟩

/-- the schema of a text -/
def parse (text : String) : Except Error Schema :=
  match SchemaDocument.parse? text with
  | some document => ofDocument document
  | none => .error (.schemaParse "the text is not a schema document")

/-- the schema of a text with further texts appended, each on a new line -/
def parseWith (text : String) (extensions : List String) : Except Error Schema :=
  parse (String.intercalate "\n" (text :: extensions))

end Schema

end GraphGen
