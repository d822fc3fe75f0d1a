/-
Running the plugins of an output target.

- `OutputRequest`: what one output file is generated from.
- `overlay`: the configuration of a plugin over that of its target.
- `prepare`: the schema with what plugins add to it, and the fragments.
- `rejections`: what the plugins refuse, in order.
- `generate`: the text of the output file. All plugins are looked up and asked before the first one generates.
- `problemsOf`: everything that keeps a target from being generated.
- `assemble`: the outputs of the plugins as one text.
-/
import GraphGen.Plugin.Catalog
import GraphGen.Schema.Build

namespace GraphGen

/-- a plugin of a target with its own configuration -/
structure PluginUse where
  name : String
  config : Json := .null
  deriving Inhabited

/-- what one output file is generated from -/
structure OutputRequest where
  filename : String
  /-- the schema without what plugins add -/
  schema : String
  documents : List LocatedDocument
  /-- fragments that documents can spread without being part of them -/
  outsideFragments : List Fragment
  plugins : List PluginUse
  /-- the configuration that all plugins of the target share -/
  config : Json
  deriving Inhabited

/-- the configuration of a plugin over that of its target: members of objects are combined, any other value stands for
itself, and a missing one keeps that of the target -/
def overlay (target plugin : Json) : Json :=
  match target, plugin with
  | target, .null => target
  | .obj base, .obj overrides => .obj ((Table.ofList base).insertAll overrides).entries
  | _, plugin => plugin

/-- the outputs of plugins as one text: the lines before all content, each once, then what content there is, then the
lines after it -/
def assemble (outputs : List Contribution) : String :=
  let prepend := (ImportLines.ofList (outputs.flatMap (·.prepend))).lines
  let contents := (outputs.map (·.content)).filter (!·.isEmpty)
  String.intercalate "\n" (prepend ++ contents ++ outputs.flatMap (·.append))

/-- a plugin and the configuration it runs with -/
structure ConfiguredPlugin where
  plugin : Plugin
  config : Json

/-- a target whose schema and fragments are built -/
structure Run where
  plugins : List ConfiguredPlugin
  schema : Schema
  fragments : FragmentIndex
  target : OutputRequest

namespace OutputRequest

/-- the plugin of an entry, which must be registered -/
def lookup (target : OutputRequest) (catalog : Catalog) (entry : PluginUse) : Except Error ConfiguredPlugin :=
  match catalog.require entry.name with
  | .ok plugin => .ok ⟨plugin, overlay target.config entry.config⟩
  | .error error => .error error

/-- builds the schema with what plugins add to it, and the fragments -/
def prepare (target : OutputRequest) (plugins : List ConfiguredPlugin) : Except Error Run := do
  let extensions := plugins.filterMap fun p => p.plugin.schemaAdditions p.config
  let schema ← Schema.parseWith target.schema extensions
  let fragments ← FragmentIndex.ofDocuments target.documents target.outsideFragments
  pure ⟨plugins, schema, fragments, target⟩

end OutputRequest

/-- the refusal of a plugin; errors that name the plugin themselves are not wrapped -/
def asRejection (plugin : String) (error : Error) : Error :=
  match error with
  | .outputExtension _ _ _ => error
  | .malformedConfig _ _ => error
  | other => .pluginValidation plugin other

namespace Run

/-- what a plugin sees -/
def input (run : Run) (config : Json) : PluginView where
  schema := run.schema
  documents := run.target.documents
  fragments := run.fragments
  config := config
  filePath := run.target.filename
  pluginNames := run.target.plugins.map (·.name)

/-- what a plugin refuses -/
def rejection? (run : Run) (p : ConfiguredPlugin) : Option Error :=
  match p.plugin.check (run.input p.config) with
  | .ok _ => none
  | .error error => some (asRejection p.plugin.name error)

/-- what the plugins refuse, in order -/
def rejections (run : Run) : List Error :=
  run.plugins.filterMap run.rejection?

/-- the outputs of plugins that run one after another; the first failure ends the run -/
def outputs (run : Run) : List ConfiguredPlugin → SharedValues → Except Error (List Contribution) × SharedValues
  | [], ctx => (.ok [], ctx)
  | p :: rest, ctx =>
    match p.plugin.generate (run.input p.config) ctx with
    | (.error error, ctx) => (.error (.pluginGeneration p.plugin.name error), ctx)
    | (.ok output, ctx) =>
      match outputs run rest ctx with
      | (.error error, ctx) => (.error error, ctx)
      | (.ok more, ctx) => (.ok (output :: more), ctx)

end Run

/-- the text of the output file of a target, and the shared values afterwards -/
def generate (catalog : Catalog) (target : OutputRequest) (ctx : SharedValues) :
    Except Error String × SharedValues :=
  match target.plugins.mapM (target.lookup catalog) with
  | .error error => (.error error, ctx)
  | .ok plugins =>
    match target.prepare plugins with
    | .error error => (.error error, ctx)
    | .ok run =>
      match run.rejections with
      | error :: _ => (.error error, ctx)
      | [] =>
        match run.outputs run.plugins ctx with
        | (.error error, ctx) => (.error error, ctx)
        | (.ok outputs, ctx) => (.ok (assemble outputs), ctx)

/-- the values of the results that succeeded -/
def successes {α : Type} (results : List (Except Error α)) : List α :=
  results.filterMap fun
    | .ok value => some value
    | .error _ => none

/-- the errors of the results that failed -/
def failures {α : Type} (results : List (Except Error α)) : List Error :=
  results.filterMap fun
    | .ok _ => none
    | .error error => some error

/-- everything that keeps a target from being generated: unknown plugins, then the schema or the fragments, or else what
the known plugins refuse -/
def problemsOf (catalog : Catalog) (target : OutputRequest) : List Error :=
  let lookups := target.plugins.map (target.lookup catalog)
  failures lookups ++
    match target.prepare (successes lookups) with
    | .error error => [error]
    | .ok run => run.rejections

end GraphGen
