/-
Shapes as types of a target.

- `Strategy.pick`: references into the schema types: picks for fields under their own names, property look-ups for
  renamed ones, object types for the type name and for fields with selections, all joined as an intersection.
- `Strategy.inline`: one object type per shape that names no schema type: scalars by their targets and enums as unions
  of their values.
- `Target`: what shapes are written with.
- `ShapePart`: what a shape is written as, an object type or some fields of a schema type, with its property names.
- `Target.renderUnion`: the shapes of a selection set as one type.

A field under an optional key loses its outer nullable mark where the dialect's optional keys admit `null`.
-/
import GraphGen.Dialect.Basic
import GraphGen.Shape.Basic

namespace GraphGen

/-- how shapes refer to what they select -/
inductive Strategy where
  | pick
  | inline
  deriving DecidableEq, Inhabited

/-- what shapes are written with -/
structure Target where
  schema : Schema
  dialect : Dialect
  scalarType : String → String
  typeName : String → String
  options : ShapeSettings

/-- a selected field whose nested shapes are written -/
inductive FlatField where
  | typename (key literal : String) (optional : Bool)
  | leaf (key : String) (field : Field)
  | link (key : String) (field : Field) (shape : String)
  deriving DecidableEq, Inhabited

namespace FlatField

/-- the response key -/
def key : FlatField → String
  | typename key _ _ => key
  | leaf key _ => key
  | link key _ _ => key

/-- whether the response key differs from the name of the field -/
def isRenamed : FlatField → Bool
  | typename key _ _ => key != "__typename"
  | leaf key field => key != field.name
  | link key field _ => key != field.name

end FlatField

/-- a shape whose nested shapes are written -/
structure FlatShape where
  type : String
  fields : List FlatField
  deriving DecidableEq, Inhabited

/-- the response keys in order -/
def FlatShape.keys (shape : FlatShape) : List String :=
  shape.fields.map FlatField.key

/-- a part of a written shape -/
inductive ShapePart where
  /-- an object type -/
  | object (members : List ObjectMember)
  /-- some fields of a type under their own names -/
  | pick (type : String) (names : List String)
  deriving DecidableEq, Inhabited

namespace ShapePart

/-- the property names of the part -/
def names : ShapePart → List String
  | object members => members.map (·.key)
  | pick _ names => names

/-- the part as a type -/
def write (dialect : Dialect) : ShapePart → String
  | object members => dialect.object members
  | pick type names => dialect.pick type names

end ShapePart

namespace Target

/-- several strings as alternatives -/
def literals (target : Target) (texts : List String) : String :=
  String.intercalate " | " (texts.map target.dialect.stringLiteral)

/-- whether a field of the type has an optional key -/
def isOptional (target : Target) (type : WrappedType) : Bool :=
  target.options.isOptional type

/-! ## Picks -/

/-- the type names of a shape -/
def typenameField? : FlatField → Option ObjectMember
  | .typename key literal optional => some ⟨key, literal, optional⟩
  | _ => none

/-- the name of a leaf under its own name -/
def pickedName? : FlatField → Option String
  | .leaf key field => if key = field.name then some field.name else none
  | _ => none

/-- the property of a leaf under another name -/
def renamedField? (target : Target) (typeName : String) : FlatField → Option ObjectMember
  | .leaf key field =>
    if key = field.name then none
    else some ⟨key, target.dialect.propertyType typeName field.name, target.isOptional field.type⟩
  | _ => none

/-- the property of a field with selections -/
def linkField? (target : Target) : FlatField → Option ObjectMember
  | .link key field shape => some ⟨key, field.type.wrap shape target.dialect.encoder, target.isOptional field.type⟩
  | _ => none

/-- an object type unless there are no properties -/
def objectPart (members : List ObjectMember) : List ShapePart :=
  if members.isEmpty then [] else [.object members]

/-- some fields of a type unless there are none -/
def pickPart (type : String) (names : List String) : List ShapePart :=
  if names.isEmpty then [] else [.pick type names]

/-- a shape as references into the schema types -/
def pickParts (target : Target) (shape : FlatShape) : List ShapePart :=
  let typeName := target.typeName shape.type
  objectPart (shape.fields.filterMap typenameField?)
    ++ pickPart typeName (shape.fields.filterMap pickedName?)
    ++ objectPart (shape.fields.filterMap (target.renamedField? typeName))
    ++ objectPart (shape.fields.filterMap target.linkField?)

/-! ## Inlined types -/

/-- a leaf type without reference to the schema types -/
def writtenLeaf (target : Target) (name : String) : String :=
  match target.schema.type? name with
  | some type =>
    if type.enumValues.isEmpty then target.scalarType name else target.literals (type.enumValues.map (·.name))
  | none => target.scalarType name

/-- the property of a field whose named type is written as `base` -/
def inlineProperty (target : Target) (key : String) (type : WrappedType) (base : String) : ObjectMember :=
  let optional := target.isOptional type
  let written :=
    if optional && target.dialect.nullUnderOptionalKey then type.wrapping.wrapInner base target.dialect.encoder
    else type.wrap base target.dialect.encoder
  ⟨key, written, optional⟩

/-- the property of a field of a shape -/
def inlineField (target : Target) : FlatField → ObjectMember
  | .typename key literal optional => ⟨key, literal, optional⟩
  | .leaf key field => target.inlineProperty key field.type (target.writtenLeaf field.type.name)
  | .link key field shape => target.inlineProperty key field.type shape

/-- a shape as one object type -/
def inlinePart (target : Target) (shape : FlatShape) : ShapePart :=
  .object (shape.fields.map target.inlineField)

/-! ## Shapes -/

/-- a shape whose nested shapes are written as a type -/
def renderFlat (target : Target) (strategy : Strategy) (shape : FlatShape) : String :=
  match strategy with
  | .pick => target.dialect.intersection ((target.pickParts shape).map (·.write target.dialect))
  | .inline => (target.inlinePart shape).write target.dialect

mutual

/-- a shape with its nested shapes written -/
def flatten (target : Target) (strategy : Strategy) : TypeShape → FlatShape
  | .mk type fields => ⟨type, flattenFields target strategy fields⟩

/-- several shapes as types -/
def renderShapes (target : Target) (strategy : Strategy) : List TypeShape → List String
  | [] => []
  | shape :: rest => target.renderFlat strategy (flatten target strategy shape) :: renderShapes target strategy rest

/-- a field with its nested shapes written -/
def flattenField (target : Target) (strategy : Strategy) : ShapeField → FlatField
  | .typename key names optional => .typename key (target.literals names) optional
  | .leaf key field => .leaf key field
  | .link key field shapes => .link key field (target.dialect.union (renderShapes target strategy shapes))

/-- fields with their nested shapes written -/
def flattenFields (target : Target) (strategy : Strategy) : List ShapeField → List FlatField
  | [] => []
  | field :: rest => flattenField target strategy field :: flattenFields target strategy rest

end

/-- the shapes of a selection set as one type -/
def renderUnion (target : Target) (strategy : Strategy) (shapes : List TypeShape) : String :=
  target.dialect.union (target.renderShapes strategy shapes)

end Target

end GraphGen
