/-
Types of the variables and results of operations, and of fragments.

- `OperationTypes.render`: the declared types of all documents, in document order: those of a document's fragments
  before those of its operations.
- `nameOperations`: the names that result types are made of; unnamed operations are counted through all documents.
- `expandInput`: an input type without reference to schema types; an input object inside itself is referred to by name.
- `Plugin.typeScriptOperations`, `Plugin.flowOperations`: the plugins that write the declarations.
-/
import GraphGen.Shape.Render
import GraphGen.Shape.Resolve
import GraphGen.Targets.FlowTypes
import GraphGen.Targets.TypeScriptTypes

namespace GraphGen

/-- how operations are turned into types -/
structure OperationOptions where
  /-- whether types are written out in place of references to schema types -/
  preResolve : Bool
  /-- whether a name that ends in the kind of its operation does not get it again -/
  dedupeSuffix : Bool
  deriving DecidableEq, Inhabited

namespace OperationTypes

/-! ## Names -/

/-- the name that the types of an operation are made of; `number` is its place among unnamed operations -/
def baseName (dedupeSuffix : Bool) (number : Nat) (op : Operation) : String :=
  match op.name with
  | some name => if dedupeSuffix && Text.endsWith op.kind.typeName name then name else name ++ op.kind.typeName
  | none => "Unnamed_" ++ toString number ++ "_" ++ op.kind.typeName

/-- the number of unnamed operations -/
def countUnnamed (operations : List Operation) : Nat :=
  (operations.filter (·.name.isNone)).length

/-- operations under the names that their types are made of, when `before` unnamed ones came before -/
def nameOperations (dedupeSuffix : Bool) (before : Nat) : List Operation → List (String × Operation)
  | [] => []
  | op :: rest =>
    (baseName dedupeSuffix (before + 1) op, op)
      :: nameOperations dedupeSuffix (if op.name.isNone then before + 1 else before) rest

/-! ## Variables -/

/-- walking input types: the input objects that are being expanded, the innermost last; no result when the walk is cut off -/
abbrev InputWalk (α : Type) := StateT (List String) Option α

/-- walks while an input object is being expanded -/
def InputWalk.inside {α : Type} (name : String) (walk : InputWalk α) : InputWalk α := do
  modify (· ++ [name])
  let value ← walk
  modify List.dropLast
  pure value

/-- an input type without reference to schema types but for an input object inside itself, at most `fuel` levels deep -/
def expandInput (target : Target) : Nat → String → InputWalk String
  | 0, _ => failure
  | fuel + 1, name =>
    match target.schema.inputObject? name with
    | none => pure (target.writtenLeaf name)
    | some fields => do
      if (← get).contains name then pure (target.typeName name)
      else
        let members ← InputWalk.inside name <| fields.values.mapM fun field => do
          let base ← expandInput target fuel field.type.name
          pure (target.inlineProperty field.name field.type base)
        pure (target.dialect.object members)

/-- an input type without reference to schema types; no input object is entered twice, so that the walk is never cut off -/
def expandedInput (target : Target) (name : String) : String :=
  ((expandInput target (target.schema.types.size + 1) name).run' []).getD ""

/-- what references to schema types are written with -/
def scopeOf (target : Target) (names : NameAffixes) : SchemaScope :=
  ⟨target.schema, target.dialect, names, target.options, false⟩

/-- what operations are turned into types with -/
structure Setting where
  target : Target
  names : NameAffixes
  options : OperationOptions
  fragments : FragmentIndex

namespace Setting

/-- how shapes refer to what they select -/
def strategy (setting : Setting) : Strategy :=
  if setting.options.preResolve then .inline else .pick

/-- the property of a variable, whose type must be known; it may be left out when it has a default -/
def variableProperty (setting : Setting) (v : VariableDefinition) : Except Error ObjectMember := do
  let type := WrappedType.ofExpr v.type
  let _ ← setting.target.schema.requireType type.name
  let property :=
    if setting.options.preResolve then
      setting.target.inlineProperty v.name type (expandedInput setting.target type.name)
    else
      ⟨v.name, (scopeOf setting.target setting.names).reference type, setting.target.isOptional type⟩
  pure { property with optional := property.optional || v.default.isSome }

/-- the type of the variables of an operation -/
def variablesType (setting : Setting) (declared : List VariableDefinition) : Except Error String := do
  pure (setting.target.dialect.object (← declared.mapM setting.variableProperty))

/-! ## Results -/

/-- the type of a selection set on a schema type -/
def shapeType (setting : Setting) (parent : String) (selections : SelectionSet) : Except Error String := do
  let ctx : ShapeContext := ⟨setting.target.schema, setting.fragments, setting.target.options⟩
  let shapes ← (ShapeContext.runResolve (ctx.resolve parent [selections]) []).1
  pure (setting.target.renderUnion setting.strategy shapes)

/-- another name for a type -/
def declare (setting : Setting) (name type : String) : Declaration where
  name := setting.names.apply name
  body := .abbreviation type

/-- the type of a fragment -/
def fragmentDeclaration (setting : Setting) (fragment : Fragment) : Except Error Declaration := do
  let type ← setting.shapeType fragment.condition fragment.selections
  pure (setting.declare (fragment.name ++ "Fragment") type)

/-- the root type of an operation, which the schema must have -/
def rootName (setting : Setting) (kind : OperationKind) : Except Error String :=
  match setting.target.schema.rootName? kind with
  | some name => .ok name
  | none => .error (.unknownType kind.typeName)

/-- the types of the variables and of the result of an operation -/
def operationDeclarations (setting : Setting) (base : String) (op : Operation) : Except Error (List Declaration) := do
  let root ← setting.rootName op.kind
  let declared ← setting.variablesType op.variableDefinitions
  let result ← setting.shapeType root op.selections
  pure [setting.declare (base ++ "Variables") declared, setting.declare base result]

/-- the declared types of documents, when `before` unnamed operations came before them -/
def declarationsFrom (setting : Setting) (before : Nat) : List LocatedDocument → Except Error (List Declaration)
  | [] => .ok []
  | source :: rest => do
    let fragments ← source.fragments.mapM setting.fragmentDeclaration
    let named := nameOperations setting.options.dedupeSuffix before source.operations
    let operations ← named.mapM fun (base, op) => setting.operationDeclarations base op
    let more ← declarationsFrom setting (before + countUnnamed source.operations) rest
    pure (fragments ++ operations.flatten ++ more)

/-- the declared types of documents -/
def declarations (setting : Setting) (documents : List LocatedDocument) : Except Error (List Declaration) :=
  setting.declarationsFrom 0 documents

end Setting

/-- a declaration in the form that TypeScript and Flow share -/
def write (d : Declaration) : String :=
  match d.body with
  | .abbreviation type => "export type " ++ d.name ++ " = " ++ type ++ ";"
  | _ => ""

/-- the declared types of documents -/
def render (setting : Setting) (documents : List LocatedDocument) : Except Error String := do
  pure (String.intercalate "\n\n" ((← setting.declarations documents).map write))

/-- what operations are turned into types with, given the configuration of a plugin -/
def setting (input : PluginView) (dialect : Dialect) (common : SharedOptions) (options : OperationOptions) :
    Setting where
  target :=
    { schema := input.schema
      dialect := dialect
      scalarType := (common.scalarTargets .typeScript).target
      typeName := common.names.apply
      options := common.shapeSettings }
  names := common.names
  options := options
  fragments := input.fragments

end OperationTypes

/-! ## The plugin for TypeScript -/

/-- the options of the plugin -/
structure TypeScriptOperationsOptions where
  common : SharedOptions
  preResolveTypes : Bool
  /-- the nullable type of T where types are written out -/
  maybeValue : Option String
  dedupeOperationSuffix : Bool
  deriving DecidableEq, Inhabited

namespace TypeScriptOperationsOptions

/-- the options of a configuration -/
def decode : Config.Decode TypeScriptOperationsOptions := fun config => do
  let members ← Config.members config
  pure {
    common := ← SharedOptions.ofMembers members
    preResolveTypes := ← Config.field members "preResolveTypes" Config.truth false
    maybeValue := ← Config.field members "maybeValue" Config.optionalText none
    dedupeOperationSuffix := ← Config.field members "dedupeOperationSuffix" Config.truth false }

/-- how nullable types are marked -/
def nullMark (config : TypeScriptOperationsOptions) : NullMark :=
  if config.preResolveTypes then (config.maybeValue.map NullMark.template).getD .union else .maybe

/-- how operations are turned into types -/
def options (config : TypeScriptOperationsOptions) : OperationOptions :=
  ⟨config.preResolveTypes, config.dedupeOperationSuffix⟩

end TypeScriptOperationsOptions

namespace TypeScriptOperations

/-- the name of the plugin -/
def pluginName : String := "typescript-operations"

/-- refuses files that hold no TypeScript -/
def check (input : PluginView) : Except Error Unit := do
  requireEnding pluginName input.filePath TypeScriptTypes.extensions
  let _ ← Config.read pluginName TypeScriptOperationsOptions.decode input.config

/-- the declarations -/
def output (input : PluginView) : Except Error Contribution := do
  let config ← Config.read pluginName TypeScriptOperationsOptions.decode input.config
  let dialect := Dialect.typeScript config.nullMark config.common.immutableTypes
  let setting := OperationTypes.setting input dialect config.common config.options
  pure { content := ← OperationTypes.render setting input.documents }

end TypeScriptOperations

/-- writes the types of operations and fragments for TypeScript -/
def Plugin.typeScriptOperations : Plugin where
  name := TypeScriptOperations.pluginName
  check := TypeScriptOperations.check
  generate := pureHook TypeScriptOperations.output

/-! ## The plugin for Flow -/

/-- the options of the plugin -/
structure FlowOperationsOptions where
  flow : FlowOptions
  preResolveTypes : Bool
  dedupeOperationSuffix : Bool
  deriving DecidableEq, Inhabited

namespace FlowOperationsOptions

/-- the options of a configuration -/
def decode : Config.Decode FlowOperationsOptions := fun config => do
  let members ← Config.members config
  pure {
    flow := ← FlowOptions.ofMembers members
    preResolveTypes := ← Config.field members "preResolveTypes" Config.truth false
    dedupeOperationSuffix := ← Config.field members "dedupeOperationSuffix" Config.truth false }

/-- how operations are turned into types -/
def options (config : FlowOperationsOptions) : OperationOptions :=
  ⟨config.preResolveTypes, config.dedupeOperationSuffix⟩

end FlowOperationsOptions

namespace FlowOperations

/-- the name of the plugin -/
def pluginName : String := "flow-operations"

/-- refuses files that hold no Flow -/
def check (input : PluginView) : Except Error Unit := do
  requireEnding pluginName input.filePath FlowTypes.extensions
  let _ ← Config.read pluginName FlowOperationsOptions.decode input.config

/-- the declarations -/
def output (input : PluginView) : Except Error Contribution := do
  let config ← Config.read pluginName FlowOperationsOptions.decode input.config
  let setting := OperationTypes.setting input config.flow.dialect config.flow.common config.options
  pure { prepend := [FlowTypes.header], content := ← OperationTypes.render setting input.documents }

end FlowOperations

/-- writes the types of operations and fragments for Flow -/
def Plugin.flowOperations : Plugin where
  name := FlowOperations.pluginName
  check := FlowOperations.check
  generate := pureHook FlowOperations.output

end GraphGen
