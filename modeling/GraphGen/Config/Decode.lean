/-
Reading configuration values.

- `Decode`: a reading of a value that can fail with a message.
- `truth`, `text`, `optionalText`, `texts`, `oneOf`: readings of single values.
- `members`: the members of a configuration object; some configurations may also be given as an array of their values in
  a fixed order.
- `field`: a member of a configuration, or its default when it is absent.

A missing configuration (`null`) has no members. Members that nobody asks for are ignored.
-/
import GraphGen.Error
import GraphGen.Json.Value

namespace GraphGen.Config

/-- a reading of a value that can fail with a message -/
abbrev Decode (α : Type) := Json → Except String α

/-- a value of the kind that is asked for, or a message -/
def required {α : Type} (kind : String) (read? : Json → Option α) : Decode α := fun value =>
  match read? value with
  | some found => .ok found
  | none => .error ("expected " ++ kind)

/-- a boolean -/
def truth : Decode Bool := required "a boolean" Json.asBool?

/-- a string -/
def text : Decode String := required "a string" Json.asString?

/-- a string, or nothing -/
def optionalText : Decode (Option String)
  | .null => .ok none
  | value => (text value).map some

/-- an integer from 0 to 255 -/
def octet : Decode Nat := required "an integer from 0 to 255" (Json.asNat? 255)

/-- an object of strings -/
def texts : Decode (List (String × String)) :=
  required "an object of strings" fun value =>
    value.asMembers?.bind fun members => members.mapM fun (key, value) => value.asString?.map fun text => (key, text)

/-- the name that a value gives: a string, or an object with the name as its only key -/
def choiceName? : Json → Option String
  | .str name => some name
  | .obj [(name, .null)] => some name
  | _ => none

/-- one of some named choices -/
def oneOf {α : Type} (choices : List (String × α)) : Decode α :=
  required "a known name" fun value => (choiceName? value).bind fun name => choices.lookup name

/-- the members of a configuration object -/
def members : Decode (List (String × Json))
  | .null => .ok []
  | .obj members => .ok members
  | _ => .error "expected an object"

/-- the members of a configuration that may also be an array of the values of `names` in their order -/
def membersInOrder (names : List String) : Decode (List (String × Json))
  | .arr items =>
    if items.length ≤ names.length then .ok (names.zip items) else .error "the list has too many values"
  | value => members value

/-- a member of a configuration, or its default when it is absent -/
def field {α : Type} (members : List (String × Json)) (name : String) (decode : Decode α) (default : α) :
    Except String α :=
  match members.lookup name with
  | some value => decode value
  | none => .ok default

/-- a reading for a plugin, whose failure names the plugin -/
def read {α : Type} (plugin : String) (decode : Decode α) (config : Json) : Except Error α :=
  match decode config with
  | .ok value => .ok value
  | .error message => .error (.malformedConfig plugin message)

/-- the plugin only matters for the failure -/
theorem read_eq_ok_iff {α : Type} {plugin : String} {decode : Decode α} {config : Json} {value : α} :
    read plugin decode config = .ok value ↔ decode config = .ok value := by
  unfold read
  cases decode config <;> simp

end GraphGen.Config
