/-
Types as a name under lists and non-null marks, and their encodings.

- `Wrapping`: whether the named type is required, and for every list around it, innermost first, whether that is.
- `Encoder`: how a target writes a list, a nullable and a required type.
- `Wrapping.wrap`: the wrapped type, written from the named type outwards.
- `Wrapping.wrapInner`: the same with the outermost type required, for targets that put its nullability on the key.
- `WrappedType`: a name and its wrapping; `ofExpr` reads a type expression and `render` writes one.
-/
import GraphGen.Syntax.Value

namespace GraphGen

/-- how a target writes wrapped types -/
structure Encoder where
  list : String → String
  nullable : String → String
  required : String → String := id

/-- the wrappers around a named type -/
structure Wrapping where
  /-- whether the named type itself is required -/
  innerRequired : Bool
  /-- whether each list is required, innermost first -/
  lists : List Bool
  deriving DecidableEq, Inhabited

namespace Wrapping

/-- a nullable type without lists -/
def nullable : Wrapping := ⟨false, []⟩

/-- a required type without lists -/
def required : Wrapping := ⟨true, []⟩

/-- a further list around all others -/
def inList (w : Wrapping) (required : Bool) : Wrapping :=
  ⟨w.innerRequired, w.lists ++ [required]⟩

/-- the number of lists -/
def depth (w : Wrapping) : Nat :=
  w.lists.length

/-- whether the outermost type is required -/
def isRequired (w : Wrapping) : Bool :=
  w.lists.getLast?.getD w.innerRequired

/-- whether the outermost type may be null -/
def isNullable (w : Wrapping) : Bool :=
  !w.isRequired

/-- the same wrappers with the outermost type required -/
def requireOuter (w : Wrapping) : Wrapping :=
  match w.lists with
  | [] => ⟨true, []⟩
  | lists => ⟨w.innerRequired, lists.dropLast ++ [true]⟩

/-- a type marked as required or nullable -/
def mark (encoder : Encoder) (required : Bool) (type : String) : String :=
  if required then encoder.required type else encoder.nullable type

/-- the named type `base` under the wrappers, innermost first -/
def wrap (w : Wrapping) (base : String) (encoder : Encoder) : String :=
  w.lists.foldl (fun type required => mark encoder required (encoder.list type)) (mark encoder w.innerRequired base)

/-- the named type `base` under the wrappers, with the outermost type required -/
def wrapInner (w : Wrapping) (base : String) (encoder : Encoder) : String :=
  w.requireOuter.wrap base encoder

theorem wrap_inList (w : Wrapping) (required : Bool) (base : String) (encoder : Encoder) :
    (w.inList required).wrap base encoder = mark encoder required (encoder.list (w.wrap base encoder)) := by
  simp [wrap, inList]

end Wrapping

/-- a named type and its wrappers -/
structure WrappedType where
  name : String
  wrapping : Wrapping
  deriving DecidableEq, Inhabited

namespace WrappedType

/-- the reference of a type expression -/
def ofExpr : TypeExpr → WrappedType
  | .named name => ⟨name, .nullable⟩
  | .list item => ⟨(ofExpr item).name, (ofExpr item).wrapping.inList false⟩
  | .nonNull inner => ⟨(ofExpr inner).name, (ofExpr inner).wrapping.requireOuter⟩

/-- the reference with `base` in place of its name -/
def wrap (type : WrappedType) (base : String) (encoder : Encoder) : String :=
  type.wrapping.wrap base encoder

/-- whether a value may be null -/
def isNullable (type : WrappedType) : Bool :=
  type.wrapping.isNullable

/-- whether a value is a list -/
def isList (type : WrappedType) : Bool :=
  0 < type.wrapping.depth

/-- brackets around a list and an exclamation mark after a required type -/
def sdlEncoder : Encoder where
  list item := "[" ++ item ++ "]"
  nullable type := type
  required type := type ++ "!"

/-- the reference as a type expression is written -/
def render (type : WrappedType) : String :=
  type.wrap type.name sdlEncoder

end WrappedType

end GraphGen
