/-
The possible types of interfaces and unions, for caches that match fragments.

- `PossibleTypes.table`: the names of the possible types under the name of each abstract type.
- `PossibleTypes.introspectionSubset`: the same as part of an introspection result, which older clients read.
- `Plugin.possibleTypes`: the plugin that writes one of the two as JSON or as a module.
-/
import GraphGen.Config.Decode
import GraphGen.Json.Printer
import GraphGen.Plugin.Basic

namespace GraphGen

/-- how a JavaScript module exports its value -/
inductive ModuleSyntax where
  | es2015
  | commonJs
  deriving DecidableEq, Inhabited

/-- the options of the plugin -/
structure PossibleTypesOptions where
  /-- the version of the client that reads the result -/
  clientVersion : Nat
  format : ModuleSyntax
  deriving DecidableEq, Inhabited

namespace PossibleTypesOptions

/-- the options of a configuration -/
def decode : Config.Decode PossibleTypesOptions := fun config => do
  let members ← Config.membersInOrder ["apolloClientVersion", "module"] config
  pure ⟨← Config.field members "apolloClientVersion" Config.octet 3,
    ← Config.field members "module" (Config.oneOf [("es2015", .es2015), ("commonjs", .commonJs)]) .es2015⟩

end PossibleTypesOptions

namespace PossibleTypes

/-- the name of the plugin -/
def pluginName : String := "fragment-matcher"

/-- the options of a configuration; only two versions of the client are known -/
def readConfig (config : Json) : Except Error PossibleTypesOptions := do
  let read ← Config.read pluginName PossibleTypesOptions.decode config
  if read.clientVersion = 2 || read.clientVersion = 3 then pure read
  else
    .error (.malformedConfig pluginName ("apolloClientVersion must be 2 or 3, got " ++ toString read.clientVersion))

/-! ## The data -/

/-- the interfaces and unions in order -/
def abstractTypes (schema : Schema) : List NamedType :=
  schema.types.values.filter (·.kind.isAbstract)

/-- the names of the possible types under the name of each abstract type -/
def table (schema : Schema) : Json :=
  let entries := (abstractTypes schema).map fun type => (type.name, .strings (schema.possibleTypes type.name))
  .obj [("possibleTypes", .obj entries)]

/-- an abstract type with its possible types -/
def typeObject (schema : Schema) (type : NamedType) : Json :=
  let possible := (schema.possibleTypes type.name).map fun name => .obj [("name", .str name)]
  .obj [("kind", .str type.kind.name), ("name", .str type.name), ("possibleTypes", .arr possible)]

/-- the abstract types as part of an introspection result -/
def introspectionSubset (schema : Schema) : Json :=
  .obj [("__schema", .obj [("types", .arr ((abstractTypes schema).map (typeObject schema)))])]

/-! ## The module -/

/-- the declared type of the introspection subset -/
def subsetDeclaration : String :=
  "export interface IntrospectionResultData \x7b\n  __schema: \x7b\n    types: \x7b\n"
    ++ "      kind: string;\n      name: string;\n      possibleTypes: \x7b\n        name: string;\n"
    ++ "      \x7d[];\n    \x7d[];\n  \x7d;\n\x7d"

/-- the declared type of the table -/
def tableDeclaration : String :=
  "export interface PossibleTypesResultData \x7b\n  possibleTypes: \x7b\n    [key: string]: string[];\n  \x7d;\n\x7d"

/-- the file for a result that is written as `json` -/
def fileText (config : PossibleTypesOptions) (file json : String) : String :=
  if Text.endsWith ".json" file then json
  else if Text.endsWith ".ts" file || Text.endsWith ".tsx" file then
    let (declaration, type) :=
      if config.clientVersion = 2 then (subsetDeclaration, "IntrospectionResultData")
      else (tableDeclaration, "PossibleTypesResultData")
    declaration ++ "\n\nconst result: " ++ type ++ " = " ++ json ++ ";\n\nexport default result;"
  else
    match config.format with
    | .es2015 => "const result = " ++ json ++ ";\n\nexport default result;"
    | .commonJs => "module.exports = " ++ json ++ ";"

/-- refuses files that are neither JSON nor modules -/
def check (input : PluginView) : Except Error Unit := do
  requireEnding pluginName input.filePath [".json", ".ts", ".tsx", ".js", ".jsx"]
  let _ ← readConfig input.config

/-- the result for the version of the client -/
def output (input : PluginView) : Except Error Contribution := do
  let config ← readConfig input.config
  let result := if config.clientVersion = 2 then introspectionSubset input.schema else table input.schema
  pure { content := fileText config input.filePath result.pretty }

end PossibleTypes

/-- writes the possible types of interfaces and unions -/
def Plugin.possibleTypes : Plugin where
  name := PossibleTypes.pluginName
  check := PossibleTypes.check
  generate := pureHook PossibleTypes.output

end GraphGen
