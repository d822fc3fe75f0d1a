/-
Values, types and directives as they are written in documents and schemas.

- `Value`: a literal value; the fields of an object stand in the order of their names, each once.
- `TypeExpr`: a named type under lists and non-null marks.
- `Directive`: an applied directive with its arguments.
- `Value.render`: a value on one line, its strings quoted with escapes for all that is not printable.
- `TypeExpr.render`: a type expression.
-/
import GraphGen.Decimal.Shortest
import GraphGen.Text.Quoted

namespace GraphGen

/-- a literal value or a variable -/
inductive Value where
  | var (name : String)
  | int (value : Int64)
  | float (value : Binary64)
  | string (value : String)
  | boolean (value : Bool)
  | null
  | enum (name : String)
  | list (items : List Value)
  | object (fields : List (String × Value))
  deriving Inhabited

/-- a type as it is written -/
inductive TypeExpr where
  | named (name : String)
  | list (item : TypeExpr)
  | nonNull (inner : TypeExpr)
  deriving DecidableEq, Inhabited

/-- an applied directive -/
structure Directive where
  name : String
  arguments : List (String × Value)
  deriving Inhabited

namespace Value

/-- enters a field at the place of its name; a later field replaces an earlier one of the same name -/
def insertField (name : String) (value : Value) : List (String × Value) → List (String × Value)
  | [] => [(name, value)]
  | field :: rest =>
    if name = field.1 then (name, value) :: rest
    else if name < field.1 then (name, value) :: field :: rest
    else field :: insertField name value rest

/-- an object of fields in the order they were written -/
def ofFields (fields : List (String × Value)) : Value :=
  object (fields.foldl (fun sorted (name, value) => insertField name value sorted) [])

mutual

/-- a value on one line -/
def render : Value → String
  | var name => "$" ++ name
  | int n => toString n.toInt
  | float d => d.display
  | string s => Text.quoted s
  | boolean b => if b then "true" else "false"
  | null => "null"
  | enum name => name
  | list items => "[" ++ String.intercalate ", " (renderItems items) ++ "]"
  | object fields => "\x7b" ++ String.intercalate ", " (renderFields fields) ++ "\x7d"

/-- the items of a list, each on one line -/
def renderItems : List Value → List String
  | [] => []
  | item :: rest => render item :: renderItems rest

/-- the fields of an object, each on one line -/
def renderFields : List (String × Value) → List String
  | [] => []
  | (name, value) :: rest => (name ++ ": " ++ render value) :: renderFields rest

end

end Value

namespace TypeExpr

/-- the named type inside all lists and non-null marks -/
def base : TypeExpr → String
  | named name => name
  | list item => item.base
  | nonNull inner => inner.base

/-- a type as it is written -/
def render : TypeExpr → String
  | named name => name
  | list item => "[" ++ item.render ++ "]"
  | nonNull inner => inner.render ++ "!"

end TypeExpr

end GraphGen
