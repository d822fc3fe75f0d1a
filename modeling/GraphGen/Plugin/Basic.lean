/-
Plugins: what turns a schema and documents into output.

- `PluginView`: what a plugin sees of an output target.
- `SharedValues`: values that earlier plugins of a target leave for later ones.
- `Contribution`: lines before and after all content, and the content.
- `Plugin`: a name and three hooks: what it adds to the schema, what it refuses, and what it generates.
- `requireEnding`: refuses an output file without one of some endings.
-/
import GraphGen.Document.FragmentIndex
import GraphGen.Json.Value
import GraphGen.Output.ImportLines
import GraphGen.Schema.Basic

namespace GraphGen

/-- what a plugin sees of an output target -/
structure PluginView where
  schema : Schema
  documents : List LocatedDocument
  fragments : FragmentIndex
  /-- the configuration of the target with that of the plugin over it -/
  config : Json
  /-- the path of the generated file -/
  filePath : String
  /-- the names of all plugins of the target in order -/
  pluginNames : List String
  deriving Inhabited

/-- what a plugin writes -/
structure Contribution where
  /-- lines before all content, each once in a target -/
  prepend : List String := []
  content : String := ""
  /-- lines after all content -/
  append : List String := []
  deriving DecidableEq, Inhabited

/-- values under names that the plugins of a target share -/
structure SharedValues where
  values : Table Json
  deriving Inhabited

namespace SharedValues

/-- no values -/
def empty : SharedValues := ⟨.empty⟩

/-- stores a value -/
def insert (ctx : SharedValues) (key : String) (value : Json) : SharedValues :=
  ⟨ctx.values.insert key value⟩

/-- the value under a name -/
def get? (ctx : SharedValues) (key : String) : Option Json :=
  ctx.values.get? key

/-- whether there is a value under a name -/
def contains (ctx : SharedValues) (key : String) : Bool :=
  ctx.values.contains key

/-- removes the value under a name -/
def erase (ctx : SharedValues) (key : String) : SharedValues :=
  ⟨ctx.values.erase key⟩

/-- whether there is no value -/
def isEmpty (ctx : SharedValues) : Bool :=
  ctx.values.isEmpty

/-- the strings of an array of strings -/
def strings? (ctx : SharedValues) (key : String) : Option (List String) :=
  (ctx.get? key).bind Json.asStrings?

/-- a string -/
def string? (ctx : SharedValues) (key : String) : Option String :=
  (ctx.get? key).bind Json.asString?

/-- a boolean -/
def bool? (ctx : SharedValues) (key : String) : Option Bool :=
  (ctx.get? key).bind Json.asBool?

/-- an integer from 0 to `limit` -/
def nat? (ctx : SharedValues) (limit : Nat) (key : String) : Option Nat :=
  (ctx.get? key).bind (Json.asNat? limit)

/-- the name under which plugins for schema types list the types they declared -/
def ownTypesKey : String := "schemaTypes"

/-- lists the types that plugins for schema types declare -/
def listOwnTypes (ctx : SharedValues) (schema : Schema) : SharedValues :=
  ctx.insert ownTypesKey (.strings (schema.ownTypes.map (·.name)))

end SharedValues

/-- a plugin; a failing hook may have changed the shared values before -/
structure Plugin where
  name : String
  /-- schema definitions that are appended to the schema -/
  schemaAdditions : Json → Option String := fun _ => none
  /-- whether the target is fit for the plugin -/
  check : PluginView → Except Error Unit := fun _ => .ok ()
  generate : PluginView → SharedValues → Except Error Contribution × SharedValues

/-- the hook of a plugin that leaves the shared values as they are -/
def pureHook (run : PluginView → Except Error Contribution) (input : PluginView) (ctx : SharedValues) :
    Except Error Contribution × SharedValues :=
  (run input, ctx)

/-- refuses an output file that ends with none of `extensions` -/
def requireEnding (plugin filePath : String) (extensions : List String) : Except Error Unit :=
  if extensions.any fun extension => Text.endsWith extension filePath then .ok ()
  else .error (.outputExtension plugin filePath (String.intercalate ", " extensions))

end GraphGen
