/-
JSON values.

- `Json`: a value; the members of an object keep their order.
- `Json.canonical`: a value in which every object names each member once, the last value standing at the place of the
  first mention.
- `get?`, `asString?`, `asBool?`, `asStrings?`, `asNat?`: what a reader of configuration asks of a value.

A text may mention a member of an object twice. The reader keeps both mentions, since some formats refuse that; all
else works on canonical values.
-/
import GraphGen.Decimal.Binary64
import GraphGen.Table

namespace GraphGen

/-- a JSON value; `real` holds the numbers that were written with a fraction or an exponent or are out of range -/
inductive Json where
  | null
  | bool (value : Bool)
  | int (value : Int)
  | real (value : Binary64)
  | str (value : String)
  | arr (items : List Json)
  | obj (members : List (String × Json))
  deriving Inhabited

namespace Json

/-! ## Canonical values -/

mutual

/-- the value with each member named once -/
def canonical : Json → Json
  | null => null
  | bool b => bool b
  | int n => int n
  | real d => real d
  | str s => str s
  | arr items => arr (canonicalItems items)
  | obj members => obj (Table.ofList (canonicalMembers members)).entries

/-- the items, each canonical -/
def canonicalItems : List Json → List Json
  | [] => []
  | item :: rest => canonical item :: canonicalItems rest

/-- the members, each with a canonical value -/
def canonicalMembers : List (String × Json) → List (String × Json)
  | [] => []
  | (key, value) :: rest => (key, canonical value) :: canonicalMembers rest

end

/-! ## Questions -/

/-- the member of an object -/
def get? (key : String) : Json → Option Json
  | obj members => members.lookup key
  | _ => none

/-- the text of a string -/
def asString? : Json → Option String
  | str s => some s
  | _ => none

/-- the truth of a boolean -/
def asBool? : Json → Option Bool
  | bool b => some b
  | _ => none

/-- the texts of an array of strings -/
def asStrings? : Json → Option (List String)
  | arr items => items.mapM asString?
  | _ => none

/-- the members of an object -/
def asMembers? : Json → Option (List (String × Json))
  | obj members => some members
  | _ => none

/-- an integer from 0 to `limit` -/
def asNat? (limit : Nat) : Json → Option Nat
  | int n => if 0 ≤ n && n ≤ limit then some n.toNat else none
  | _ => none

/-- whether the value is `null` -/
def isNull : Json → Bool
  | null => true
  | _ => false

/-- an array of strings -/
def strings (texts : List String) : Json :=
  arr (texts.map str)

/-- a string, or `null` when there is none -/
def optional : Option String → Json
  | some text => str text
  | none => null

end Json

end GraphGen
