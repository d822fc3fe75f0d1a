/-
Documents as constants of a TypeScript module.

- `DocumentMode`: what a constant holds: a tagged template, a syntax tree, or text; or no constants but a re-export.
- `DocumentConstants.constants`: a constant for every fragment and then for every named operation, with the fragments
  that it needs: those spread in it where it refers to their constants, all it reaches where it carries them itself.
- `Constant.render`: a constant as it is written.
- `Plugin.documentConstants`: the plugin that writes the constants.
-/
import GraphGen.Config.Decode
import GraphGen.Document.Printer
import GraphGen.Document.Tree
import GraphGen.Json.Printer
import GraphGen.Plugin.Basic
import GraphGen.Targets.TypeScriptTypes

namespace GraphGen

/-- how documents become constants -/
inductive DocumentMode where
  /-- a tagged template with the constants of fragments put in -/
  | template
  /-- a syntax tree with all fragments it needs -/
  | tree
  /-- a syntax tree that takes fragments from their constants -/
  | treeWithImports
  /-- the text with the texts of all fragments it needs -/
  | text
  /-- a re-export from another module -/
  | external
  deriving DecidableEq, Inhabited

/-- the modes under their written names -/
def DocumentMode.choices : List (String × DocumentMode) :=
  [("graphQLTag", template), ("documentNode", tree), ("documentNodeImportFragments", treeWithImports), ("string", text),
    ("external", external)]

/-- the options of the plugin -/
structure DocumentConstantsOptions where
  mode : DocumentMode
  /-- the module that constants are re-exported from -/
  externalModule : Option String
  /-- the module of the template tag, with a number sign before the exported name when it has one -/
  tagImport : Option String
  documentPrefix : String
  documentSuffix : String
  fragmentPrefix : String
  fragmentSuffix : String
  deriving DecidableEq, Inhabited

namespace DocumentConstantsOptions

/-- the names of the options in order -/
def fieldNames : List String :=
  ["documentMode", "importDocumentNodeExternallyFrom", "gqlImport", "documentVariablePrefix", "documentVariableSuffix",
    "fragmentVariablePrefix", "fragmentVariableSuffix"]

/-- the options of a configuration -/
def decode : Config.Decode DocumentConstantsOptions := fun config => do
  let members ← Config.membersInOrder fieldNames config
  pure {
    mode := ← Config.field members "documentMode" (Config.oneOf DocumentMode.choices) .template
    externalModule := ← Config.field members "importDocumentNodeExternallyFrom" Config.optionalText none
    tagImport := ← Config.field members "gqlImport" Config.optionalText none
    documentPrefix := ← Config.field members "documentVariablePrefix" Config.text ""
    documentSuffix := ← Config.field members "documentVariableSuffix" Config.text "Document"
    fragmentPrefix := ← Config.field members "fragmentVariablePrefix" Config.text ""
    fragmentSuffix := ← Config.field members "fragmentVariableSuffix" Config.text "FragmentDoc" }

/-- a module to re-export from is needed for a re-export, and for nothing else -/
def fault? (config : DocumentConstantsOptions) : Option String :=
  if config.mode = .external then
    if config.externalModule.isNone then some "documentMode `external` requires importDocumentNodeExternallyFrom"
    else none
  else if config.externalModule.isSome then
    some "importDocumentNodeExternallyFrom is only valid with documentMode `external`"
  else none

/-- the line that imports the template tag -/
def tagImportLine (config : DocumentConstantsOptions) : String :=
  let source := config.tagImport.getD "graphql-tag"
  match Text.splitOnce? "#" source with
  | some (origin, name) => "import \x7b " ++ name ++ " \x7d from '" ++ origin ++ "';"
  | none => "import gql from '" ++ source ++ "';"

/-- the name of the constant of an operation -/
def documentName (config : DocumentConstantsOptions) (name : String) : String :=
  config.documentPrefix ++ name ++ config.documentSuffix

/-- the name of the constant of a fragment -/
def fragmentName (config : DocumentConstantsOptions) (name : String) : String :=
  config.fragmentPrefix ++ name ++ config.fragmentSuffix

end DocumentConstantsOptions

/-- a definition as it is printed -/
def Definition.print : Definition → String
  | operation op => op.print
  | fragment f => f.print

/-- the selections of a definition -/
def Definition.selections : Definition → SelectionSet
  | operation op => op.selections
  | fragment f => f.selections

/-- what a constant holds beside its definition -/
inductive ConstantContent where
  | template (spreads : List String)
  | tree (fragments : List Fragment)
  | treeWithImports (spreads : List String)
  | text (fragments : List Fragment)
  deriving Inhabited

/-- a constant -/
structure Constant where
  name : String
  definition : Definition
  content : ConstantContent
  deriving Inhabited

namespace DocumentConstants

/-- the name of the plugin -/
def pluginName : String := "typescript-documents"

/-- the options of a configuration, which must fit together -/
def readConfig (config : Json) : Except Error DocumentConstantsOptions := do
  let read ← Config.read pluginName DocumentConstantsOptions.decode config
  match read.fault? with
  | none => pure read
  | some fault => .error (.malformedConfig pluginName fault)

/-! ## Definitions -/

/-- an operation under the name of its constant, when it is named -/
def namedOperation? (config : DocumentConstantsOptions) (op : Operation) : Option (String × Definition) :=
  op.name.map fun name => (config.documentName name, .operation op)

/-- the definitions that become constants: all fragments, then all named operations -/
def definitions (config : DocumentConstantsOptions) (documents : List LocatedDocument) : List (String × Definition) :=
  (documents.flatMap LocatedDocument.fragments).map (fun f => (config.fragmentName f.name, .fragment f))
    ++ (documents.flatMap LocatedDocument.operations).filterMap (namedOperation? config)

/-! ## Constants -/

/-- the fragments spread in a selection set, each once, which must be known -/
def directFragments (fragments : FragmentIndex) (selections : SelectionSet) : Except Error (List String) :=
  selections.spreads.foldlM (fun met name =>
    if met.contains name then .ok met
    else
      match fragments.require name with
      | .ok _ => .ok (met ++ [name])
      | .error error => .error error) []

/-- the fragments that a selection set needs -/
def neededFragments (fragments : FragmentIndex) (selections : SelectionSet) : Except Error (List Fragment) := do
  pure ((← fragments.closure selections).map (·.fragment))

/-- what a constant holds in a mode -/
def contentOf (mode : DocumentMode) (fragments : FragmentIndex) (selections : SelectionSet) :
    Except Error ConstantContent :=
  match mode with
  | .template | .external => (directFragments fragments selections).map .template
  | .tree => (neededFragments fragments selections).map .tree
  | .treeWithImports => (directFragments fragments selections).map .treeWithImports
  | .text => (neededFragments fragments selections).map .text

/-- the constants of documents -/
def constants (config : DocumentConstantsOptions) (fragments : FragmentIndex) (documents : List LocatedDocument) :
    Except Error (List Constant) :=
  (definitions config documents).mapM fun (name, definition) => do
    pure ⟨name, definition, ← contentOf config.mode fragments definition.selections⟩

/-- a text inside a template literal: backslashes, backticks and openings of substitutions are escaped -/
def templateText (text : String) : String :=
  Text.replace "$\x7b" "\\$\x7b" (Text.replace "`" "\\`" (Text.replace "\\" "\\\\" text))

/-- the printed form of a definition without the line feed at its end -/
def definitionText (definition : Definition) : String :=
  Text.trimEnd definition.print

end DocumentConstants

open DocumentConstants in
/-- a constant as it is written -/
def Constant.render (config : DocumentConstantsOptions) (constant : Constant) : String :=
  let head := "export const " ++ constant.name ++ " = "
  match constant.content with
  | .template spreads =>
    let substitutions := spreads.map fun name => "\n    $\x7b" ++ config.fragmentName name ++ "\x7d"
    head ++ "gql`\n    " ++ definitionText constant.definition ++ String.join substitutions ++ "`;"
  | .tree fragments =>
    let trees := constant.definition.tree :: fragments.map Fragment.tree
    head ++ (documentTree trees).compress ++ " as unknown as DocumentNode;"
  | .treeWithImports spreads =>
    let imports := spreads.map fun name => ",..." ++ config.fragmentName name ++ ".definitions"
    head ++ "\x7b\"kind\":\"Document\",\"definitions\":[" ++ constant.definition.tree.compress ++ String.join imports
      ++ "]\x7d as unknown as DocumentNode;"
  | .text fragments =>
    let texts := (constant.definition :: fragments.map Definition.fragment).map definitionText
    head ++ "`" ++ templateText (String.intercalate "\n" texts) ++ "`;"

namespace DocumentConstants

/-! ## The plugin -/

/-- the re-export of constants, nothing when there are none -/
def reexport (config : DocumentConstantsOptions) (documents : List LocatedDocument) : String :=
  let names := (definitions config documents).map Prod.fst
  if names.isEmpty then ""
  else "export \x7b " ++ String.intercalate ", " names ++ " \x7d from '" ++ config.externalModule.getD "" ++ "';"

/-- the lines that constants need -/
def importLines (config : DocumentConstantsOptions) : List String :=
  match config.mode with
  | .template => [config.tagImportLine]
  | .tree | .treeWithImports => ["import \x7b DocumentNode \x7d from 'graphql';"]
  | .text | .external => []

/-- refuses files that hold no TypeScript -/
def check (input : PluginView) : Except Error Unit := do
  requireEnding pluginName input.filePath TypeScriptTypes.extensions
  let _ ← readConfig input.config

/-- the constants, or their re-export -/
def output (input : PluginView) : Except Error Contribution := do
  let config ← readConfig input.config
  if config.mode = .external then pure { content := reexport config input.documents }
  else
    let constants ← constants config input.fragments input.documents
    pure { prepend := importLines config, content := String.intercalate "\n\n" (constants.map (·.render config)) }

end DocumentConstants

/-- writes documents as constants -/
def Plugin.documentConstants : Plugin where
  name := DocumentConstants.pluginName
  check := DocumentConstants.check
  generate := pureHook DocumentConstants.output

end GraphGen
