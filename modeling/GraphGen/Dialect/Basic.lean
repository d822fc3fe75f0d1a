/-
The type syntax of a target.

- `ObjectMember`: a property of an object type.
- `Dialect`: how a target writes lists and nullable types, literals, picks, property look-ups, object types,
  intersections and unions.
- `NameAffixes`: type names with a fixed text before and after them.
- `ScalarTargets`: the target types of scalars, and the type of those without one.
-/
import GraphGen.Table
import GraphGen.Wrapping

namespace GraphGen

/-- a property of an object type -/
structure ObjectMember where
  key : String
  type : String
  optional : Bool
  deriving DecidableEq, Inhabited

/-- how a target writes types -/
structure Dialect where
  encoder : Encoder
  /-- the type of one string -/
  stringLiteral : String → String
  /-- a type restricted to some of its fields -/
  pick : String → List String → String
  /-- the type of one field of a type -/
  propertyType : String → String → String
  /-- an object type -/
  object : List ObjectMember → String
  /-- a type with the properties of all parts -/
  intersection : List String → String
  /-- a type of which one of the members holds -/
  union : List String → String
  /-- whether an optional key admits `null`, so that its value needs no outer mark -/
  nullUnderOptionalKey : Bool

/-- type names with a fixed text before and after them -/
structure NameAffixes where
  lead : String
  trail : String
  deriving DecidableEq, Inhabited

namespace NameAffixes

/-- names as they are -/
def plain : NameAffixes := ⟨"", ""⟩

/-- the name made of a schema name -/
def apply (names : NameAffixes) (name : String) : String :=
  names.lead ++ name ++ names.trail

end NameAffixes

/-- the target types of scalars, and the type of those without one -/
structure ScalarTargets where
  entries : Table String
  fallback : String
  deriving Inhabited

namespace ScalarTargets

/-- the map of listed scalars -/
def ofList (entries : List (String × String)) (fallback : String) : ScalarTargets :=
  ⟨.ofList entries, fallback⟩

/-- the map with further targets, each in place of an earlier one for the same scalar -/
def overriddenBy (map : ScalarTargets) (overrides : List (String × String)) : ScalarTargets :=
  { map with entries := map.entries.insertAll overrides }

/-- the map with another type for scalars without a target -/
def defaultingTo (map : ScalarTargets) (fallback : String) : ScalarTargets :=
  { map with fallback }

/-- whether the scalar has a target -/
def contains (map : ScalarTargets) (scalar : String) : Bool :=
  map.entries.contains scalar

/-- the target of a scalar -/
def target? (map : ScalarTargets) (scalar : String) : Option String :=
  map.entries.get? scalar

/-- the target of a scalar, or the type of those without one -/
def target (map : ScalarTargets) (scalar : String) : String :=
  (map.target? scalar).getD map.fallback

/-- no scalars, and `any` for all -/
def empty : ScalarTargets := ofList [] "any"

/-- the built-in scalars in TypeScript and in Flow -/
def typeScript : ScalarTargets :=
  ofList [("ID", "string"), ("String", "string"), ("Boolean", "boolean"), ("Int", "number"), ("Float", "number")] "any"

/-- the built-in scalars in Java -/
def java : ScalarTargets :=
  ofList [("ID", "Object"), ("String", "String"), ("Boolean", "Boolean"), ("Int", "Integer"), ("Float", "Double")]
    "Object"

/-- the built-in scalars and dates in C# -/
def cSharp : ScalarTargets :=
  ofList [("ID", "string"), ("String", "string"), ("Boolean", "bool"), ("Int", "int"), ("Float", "double"),
    ("Date", "DateTime")] "object"

/-- the built-in scalars in Kotlin -/
def kotlin : ScalarTargets :=
  ofList [("ID", "Any"), ("String", "String"), ("Boolean", "Boolean"), ("Int", "Int"), ("Float", "Float")] "Any"

end ScalarTargets

end GraphGen
