/-
Shapes of selections.

- `TypeShape`: what a selection set selects on one concrete type: fields under response keys.
- `ShapeField`: the type name, a field without selections, or a field with the shapes of its selections.
- `ShapeSettings`: how the type name and nullable fields are treated.

Shapes hold schema fields and no target text; `Shape/Render` writes them.
-/
import GraphGen.Schema.Basic

namespace GraphGen

/-- how the type name and nullable fields are treated -/
structure ShapeSettings where
  /-- whether the type name is left out unless it is selected -/
  skipTypename : Bool
  /-- whether a type name that is not selected has a required key -/
  nonOptionalTypename : Bool
  /-- whether keys of nullable fields are required too -/
  avoidOptionals : Bool
  deriving DecidableEq, Inhabited

/-- the options that are off -/
def ShapeSettings.plain : ShapeSettings := ⟨false, false, false⟩

/-- whether a field of the type has an optional key -/
def ShapeSettings.isOptional (options : ShapeSettings) (type : WrappedType) : Bool :=
  type.isNullable && !options.avoidOptionals

mutual

/-- what a selection set selects on one concrete type; an interface stands for itself when nothing narrows it -/
inductive TypeShape where
  | mk (type : String) (fields : List ShapeField)

/-- a selected field under its response key -/
inductive ShapeField where
  | typename (key : String) (names : List String) (optional : Bool)
  | leaf (key : String) (field : Field)
  | link (key : String) (field : Field) (shapes : List TypeShape)

end

instance : Inhabited TypeShape := ⟨.mk "" []⟩

instance : Inhabited ShapeField := ⟨.typename "" [] false⟩

namespace ShapeField

/-- the response key -/
def key : ShapeField → String
  | typename key _ _ => key
  | leaf key _ => key
  | link key _ _ => key

end ShapeField

namespace TypeShape

/-- the concrete type -/
def type : TypeShape → String
  | mk type _ => type

/-- the fields in the order of their keys' first mention -/
def fields : TypeShape → List ShapeField
  | mk _ fields => fields

/-- the response keys in order -/
def keys (shape : TypeShape) : List String :=
  shape.fields.map ShapeField.key

end TypeShape

end GraphGen
