/-
The type syntax of TypeScript.

- `NullMark`: how a nullable type is marked.
- `Dialect.typeScript`: the dialect, with mutable or read-only properties and arrays.
-/
import GraphGen.Dialect.Basic
import GraphGen.Text.Pieces

namespace GraphGen

/-- how a nullable type is marked -/
inductive NullMark where
  /-- the alias that the schema types declare -/
  | maybe
  /-- a union with `null` -/
  | union
  /-- a text in which the first letter T stands for the type -/
  | template (text : String)
  deriving DecidableEq, Inhabited

/-- a type marked as nullable -/
def NullMark.mark : NullMark → String → String
  | maybe, type => "Maybe<" ++ type ++ ">"
  | union, type => type ++ " | null"
  | template text, type => Text.replaceFirst 'T' type text

namespace Dialect

/-- one alternative as it is, several between parentheses, and the empty object when there is none -/
def parenthesized (emptyObject : String) : List String → String
  | [] => emptyObject
  | [member] => member
  | members => "(" ++ String.intercalate " | " members ++ ")"

/-- a string between single quotes -/
def singleQuoted (text : String) : String :=
  "'" ++ text ++ "'"

namespace TypeScript

/-- a property -/
def property (immutable : Bool) (field : ObjectMember) : String :=
  (if immutable then "readonly " else "") ++ field.key ++ (if field.optional then "?" else "") ++ ": " ++ field.type

/-- an object type -/
def object (immutable : Bool) (fields : List ObjectMember) : String :=
  if fields.isEmpty then "\x7b\x7d" else "\x7b " ++ String.intercalate "; " (fields.map (property immutable)) ++ " \x7d"

/-- parts joined by ampersands -/
def intersection : List String → String
  | [] => "\x7b\x7d"
  | parts => String.intercalate " & " parts

/-- an array type -/
def list (immutable : Bool) (item : String) : String :=
  (if immutable then "ReadonlyArray<" else "Array<") ++ item ++ ">"

end TypeScript

/-- the type syntax of TypeScript -/
def typeScript (style : NullMark) (immutable : Bool) : Dialect where
  encoder := { list := TypeScript.list immutable, nullable := style.mark }
  stringLiteral := singleQuoted
  pick type fields := "Pick<" ++ type ++ ", " ++ String.intercalate " | " (fields.map singleQuoted) ++ ">"
  propertyType type field := type ++ "['" ++ field ++ "']"
  object := TypeScript.object immutable
  intersection := TypeScript.intersection
  union := parenthesized "\x7b\x7d"
  nullUnderOptionalKey := true

end Dialect

end GraphGen
