/-
The options that plugins for TypeScript and Flow share.

- `SharedOptions`: targets of scalars, type names, and how shapes and properties are written.
- `SharedOptions.ofMembers`: the options among the members of a configuration.
- `SharedOptions.decode`: the options of a configuration that holds nothing else.
-/
import GraphGen.Config.Decode
import GraphGen.Dialect.Basic
import GraphGen.Shape.Basic

namespace GraphGen

/-- the options that plugins for TypeScript and Flow share -/
structure SharedOptions where
  /-- target types of scalars -/
  scalars : List (String × String) := []
  typesPrefix : String := ""
  typesSuffix : String := ""
  skipTypename : Bool := false
  nonOptionalTypename : Bool := false
  avoidOptionals : Bool := false
  immutableTypes : Bool := false
  deriving DecidableEq, Inhabited

namespace SharedOptions

/-- the names of the options in order -/
def fieldNames : List String :=
  ["scalars", "typesPrefix", "typesSuffix", "skipTypename", "nonOptionalTypename", "avoidOptionals", "immutableTypes"]

/-- the options among the members of a configuration -/
def ofMembers (members : List (String × Json)) : Except String SharedOptions := do
  pure {
    scalars := ← Config.field members "scalars" Config.texts []
    typesPrefix := ← Config.field members "typesPrefix" Config.text ""
    typesSuffix := ← Config.field members "typesSuffix" Config.text ""
    skipTypename := ← Config.field members "skipTypename" Config.truth false
    nonOptionalTypename := ← Config.field members "nonOptionalTypename" Config.truth false
    avoidOptionals := ← Config.field members "avoidOptionals" Config.truth false
    immutableTypes := ← Config.field members "immutableTypes" Config.truth false }

/-- the options of a configuration that holds nothing else -/
def decode : Config.Decode SharedOptions := fun config => do
  ofMembers (← Config.membersInOrder fieldNames config)

/-- the names that types get -/
def names (config : SharedOptions) : NameAffixes :=
  ⟨config.typesPrefix, config.typesSuffix⟩

/-- the targets of scalars, those of the configuration over the given ones -/
def scalarTargets (config : SharedOptions) (defaults : ScalarTargets) : ScalarTargets :=
  defaults.overriddenBy config.scalars

/-- how the type name and nullable fields are treated -/
def shapeSettings (config : SharedOptions) : ShapeSettings :=
  ⟨config.skipTypename, config.nonOptionalTypename, config.avoidOptionals⟩

end SharedOptions

end GraphGen
