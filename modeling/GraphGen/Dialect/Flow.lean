/-
The type syntax of Flow.

- `needsParentheses`: whether a type is a union or intersection outside all brackets.
- `Dialect.flow`: the dialect, with exact or open objects and writable or read-only properties.

Parts of an object are spread into one object type, because an intersection of exact objects has no values.
-/
import GraphGen.Dialect.TypeScript

namespace GraphGen

namespace Dialect

namespace Flow

/-- whether an operator that follows a space stands at bracket depth zero; `afterSpace` tells of the character before -/
def operatorAt (depth : Nat) (afterSpace : Bool) : List Char → Bool
  | [] => false
  | c :: rest =>
    if c == '(' || c == '\x7b' || c == '[' || c == '<' then operatorAt (depth + 1) false rest
    else if c == ')' || c == '\x7d' || c == ']' || c == '>' then operatorAt (depth - 1) false rest
    else if (c == '|' || c == '&') && depth == 0 && afterSpace then true
    else operatorAt depth (c == ' ') rest

/-- whether a type is a union or intersection outside all brackets -/
def needsParentheses (type : String) : Bool :=
  operatorAt 0 false type.toList

/-- a type marked as nullable -/
def nullable (type : String) : String :=
  if needsParentheses type then "?(" ++ type ++ ")" else "?" ++ type

/-- parts between the braces of an object type -/
def braced (exact : Bool) (parts : List String) : String :=
  let opening := if exact then "\x7b|" else "\x7b"
  let closing := if exact then "|\x7d" else "\x7d"
  opening ++ " " ++ String.intercalate ", " parts ++ " " ++ closing

/-- a property -/
def property (readOnly : Bool) (field : ObjectMember) : String :=
  (if readOnly then "+" else "") ++ field.key ++ (if field.optional then "?" else "") ++ ": " ++ field.type

/-- the object type without properties -/
def emptyObject (exact : Bool) : String :=
  if exact then "\x7b||\x7d" else "\x7b\x7d"

/-- an object type -/
def object (exact readOnly : Bool) (fields : List ObjectMember) : String :=
  if fields.isEmpty then emptyObject exact else braced exact (fields.map (property readOnly))

/-- parts spread into one object type -/
def intersection (exact : Bool) : List String → String
  | [] => emptyObject exact
  | [part] => part
  | parts => braced exact (parts.map ("..." ++ ·))

/-- an array type -/
def list (readOnly : Bool) (item : String) : String :=
  (if readOnly then "$ReadOnlyArray<" else "Array<") ++ item ++ ">"

end Flow

/-- the type syntax of Flow -/
def flow (exact readOnly : Bool) : Dialect where
  encoder := { list := Flow.list readOnly, nullable := Flow.nullable }
  stringLiteral := singleQuoted
  pick type fields := "$Pick<" ++ type ++ ", " ++ Flow.braced exact (fields.map (· ++ ": *")) ++ ">"
  propertyType type field := "$ElementType<" ++ type ++ ", '" ++ field ++ "'>"
  object := Flow.object exact readOnly
  intersection := Flow.intersection exact
  union := parenthesized (Flow.emptyObject exact)
  nullUnderOptionalKey := false

end Dialect

end GraphGen
