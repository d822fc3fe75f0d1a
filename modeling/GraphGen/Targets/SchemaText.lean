/-
The schema as a schema document again.

- `SchemaDocument.withoutDirectives`: a document without directive definitions and applied directives.
- `SchemaDocument.sorted`: the schema definition, then types, extensions and directives by name; fields, input fields
  and enum values of type definitions by name. Extensions keep the order inside them.
- `SchemaTextOptions`, `Plugin.schemaText`: the plugin that prints the document.
-/
import GraphGen.Config.Decode
import GraphGen.Plugin.Basic
import GraphGen.Sdl.Printer

namespace GraphGen

/-! ## Without directives -/

/-- an argument or input field without directives -/
def InputValueDeclaration.withoutDirectives (d : InputValueDeclaration) : InputValueDeclaration :=
  { d with directives := [] }

/-- a field without directives on it and on its arguments -/
def FieldDeclaration.withoutDirectives (d : FieldDeclaration) : FieldDeclaration :=
  { d with directives := [], arguments := d.arguments.map (·.withoutDirectives) }

/-- an enum value without directives -/
def EnumValueDeclaration.withoutDirectives (d : EnumValueDeclaration) : EnumValueDeclaration :=
  { d with directives := [] }

/-- the body of a type without directives in it -/
def TypeBody.withoutDirectives : TypeBody → TypeBody
  | scalar => scalar
  | object interfaces fields => object interfaces (fields.map (·.withoutDirectives))
  | interface interfaces fields => interface interfaces (fields.map (·.withoutDirectives))
  | union members => union members
  | enum values => enum (values.map (·.withoutDirectives))
  | inputObject fields => inputObject (fields.map (·.withoutDirectives))

/-- a type without directives on it and in it -/
def TypeDeclaration.withoutDirectives (d : TypeDeclaration) : TypeDeclaration :=
  { d with directives := [], body := d.body.withoutDirectives }

/-- a definition without directives, none for the definition of a directive -/
def SchemaDefinition.withoutDirectives? : SchemaDefinition → Option SchemaDefinition
  | roots d => some (roots { d with directives := [] })
  | type d => some (type d.withoutDirectives)
  | extension d => some (extension d.withoutDirectives)
  | directive _ => none

/-- a document without directive definitions and applied directives -/
def SchemaDocument.withoutDirectives (document : SchemaDocument) : SchemaDocument :=
  document.filterMap SchemaDefinition.withoutDirectives?

/-! ## Sorted -/

/-- items by name; those of one name keep their order -/
def sortByName {α : Type} (name : α → String) (items : List α) : List α :=
  items.mergeSort fun a b => decide (name a ≤ name b)

/-- the body of a type with its fields or values by name -/
def TypeBody.sorted : TypeBody → TypeBody
  | object interfaces fields => object interfaces (sortByName (·.name) fields)
  | interface interfaces fields => interface interfaces (sortByName (·.name) fields)
  | enum values => enum (sortByName (·.name) values)
  | inputObject fields => inputObject (sortByName (·.name) fields)
  | body => body

/-- a definition with the fields or values of a type by name -/
def SchemaDefinition.sorted : SchemaDefinition → SchemaDefinition
  | type d => type { d with body := d.body.sorted }
  | definition => definition

/-- the group of a definition: the schema definition, types, extensions, directives -/
def SchemaDefinition.group : SchemaDefinition → Nat
  | roots _ => 0
  | type _ => 1
  | extension _ => 2
  | directive _ => 3

/-- the name that a definition is sorted by -/
def SchemaDefinition.sortName : SchemaDefinition → String
  | roots _ => ""
  | type d => d.name
  | extension d => d.name
  | directive d => d.name

/-- whether a definition may stand before another: by group, then by name -/
def SchemaDefinition.before (a b : SchemaDefinition) : Bool :=
  a.group < b.group || (a.group = b.group && a.sortName ≤ b.sortName)

/-- a document in the order of groups and names -/
def SchemaDocument.sorted (document : SchemaDocument) : SchemaDocument :=
  (document.mergeSort SchemaDefinition.before).map (·.sorted)

/-! ## The plugin -/

/-- the options of the plugin -/
structure SchemaTextOptions where
  includeDirectives : Bool
  sort : Bool
  deriving DecidableEq, Inhabited

namespace SchemaTextOptions

/-- the options of a configuration -/
def decode : Config.Decode SchemaTextOptions := fun config => do
  let members ← Config.membersInOrder ["includeDirectives", "sort"] config
  pure ⟨← Config.field members "includeDirectives" Config.truth true, ← Config.field members "sort" Config.truth false⟩

/-- the document that is printed -/
def apply (config : SchemaTextOptions) (document : SchemaDocument) : SchemaDocument :=
  let kept := if config.includeDirectives then document else document.withoutDirectives
  if config.sort then kept.sorted else kept

end SchemaTextOptions

namespace SchemaText

/-- the name of the plugin -/
def pluginName : String := "schema-ast"

/-- refuses other files than schema documents -/
def check (input : PluginView) : Except Error Unit := do
  requireEnding pluginName input.filePath [".graphql", ".gql", ".graphqls"]
  let _ ← Config.read pluginName SchemaTextOptions.decode input.config

/-- the printed document -/
def output (input : PluginView) : Except Error Contribution := do
  let config ← Config.read pluginName SchemaTextOptions.decode input.config
  pure { content := Text.trimEnd (config.apply input.schema.document).print }

end SchemaText

/-- prints the schema with what plugins add to it -/
def Plugin.schemaText : Plugin where
  name := SchemaText.pluginName
  check := SchemaText.check
  generate := pureHook SchemaText.output

end GraphGen
