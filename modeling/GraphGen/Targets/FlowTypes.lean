/-
The schema as Flow types.

- `FlowTypes.declarations`: the declared types in order: the type of all scalars, and then every declared schema type,
  an object or interface followed by the types of its fields' arguments.
- `FlowTypes.write`: a declaration in Flow; an enum is a frozen object and the type of its values.
- `FlowOptions`, `Plugin.flowTypes`: the plugin that writes the declarations.
-/
import GraphGen.Dialect.Flow
import GraphGen.Plugin.Basic
import GraphGen.Targets.Declaration

namespace GraphGen

/-- the options of the plugin -/
structure FlowOptions where
  common : SharedOptions
  exactObjects : Bool
  readOnlyTypes : Bool
  deriving DecidableEq, Inhabited

namespace FlowOptions

/-- the options among the members of a configuration -/
def ofMembers (members : List (String × Json)) : Except String FlowOptions := do
  pure {
    common := ← SharedOptions.ofMembers members
    exactObjects := ← Config.field members "useFlowExactObjects" Config.truth true
    readOnlyTypes := ← Config.field members "useFlowReadOnlyTypes" Config.truth false }

/-- the options of a configuration -/
def decode : Config.Decode FlowOptions := fun config => do
  ofMembers (← Config.members config)

/-- the type syntax -/
def dialect (config : FlowOptions) : Dialect :=
  .flow config.exactObjects config.readOnlyTypes

end FlowOptions

namespace FlowTypes

/-- the name of the plugin -/
def pluginName : String := "flow"

/-- the endings of the files that hold Flow -/
def extensions : List String :=
  [".js", ".jsx", ".flow"]

/-- the line that every Flow file begins with -/
def header : String := "// @flow"

/-! ## Declarations -/

/-- what references are written with -/
def scope (schema : Schema) (config : FlowOptions) : SchemaScope where
  schema := schema
  dialect := config.dialect
  names := config.common.names
  options := config.common.shapeSettings
  readOnly := config.readOnlyTypes

/-- the properties of arguments or input fields -/
def inputProperties (scope : SchemaScope) (values : List InputValue) : List Property :=
  values.map (scope.inputProperty none)

/-- the types of the arguments of an object's or interface's fields -/
def argumentDeclarations (scope : SchemaScope) (type : NamedType) : List Declaration :=
  (type.fields.values.filter (!·.arguments.isEmpty)).map fun field =>
    { name := SchemaScope.argumentsName scope.names type.name field.name
      body := .object [] (inputProperties scope field.arguments) }

/-- the declarations of a schema type; a union has no comment -/
def typeDeclarations (scope : SchemaScope) (type : NamedType) : List Declaration :=
  let name := scope.typeName type.name
  match type.kind with
  | .scalar => []
  | .object | .interface =>
    let properties := scope.typenameProperties type
      ++ type.fields.values.map fun field => scope.fieldProperty field.description field
    { comment := type.description, name, body := .object (type.interfaces.map scope.typeName) properties }
      :: argumentDeclarations scope type
  | .inputObject =>
    [{ comment := type.description, name, body := .object [] (inputProperties scope type.inputFields.values) }]
  | .enum =>
    [{ comment := type.description
       name
       body := .enumeration (type.enumValues.map fun value => { name := value.name }) }]
  | .union => [{ name, body := .abbreviation (scope.memberUnion type) }]

/-- the declared types in order -/
def declarations (schema : Schema) (config : FlowOptions) : List Declaration :=
  let scope := scope schema config
  let scalars := config.common.scalarTargets .typeScript
  SchemaScope.scalarsDeclaration scalars (schema.ofKind .scalar)
    :: schema.ownTypes.flatMap (typeDeclarations scope)

/-! ## Writing -/

/-- a property on a line of its own, after its comment -/
def propertySteps (property : Property) : List Step :=
  commentSteps property.comment ++
    [.line ((if property.readOnly then "+" else "") ++ property.key ++ (if property.optional then "?" else "") ++ ": "
      ++ property.type ++ ",")]

/-- a value of an enum on a line of its own -/
def memberSteps (member : EnumMember) : List Step :=
  [.line (member.name ++ ": '" ++ member.name ++ "',")]

/-- a declaration after its comment -/
def declarationSteps (config : FlowOptions) (d : Declaration) : List Step :=
  let head := "export type " ++ d.name ++ d.parameters ++ " = "
  commentSteps d.comment ++
    match d.body with
    | .abbreviation type => [.line (head ++ type ++ ";")]
    | .object bases properties =>
      let bases := String.join (bases.map (· ++ " & "))
      let opening := if config.exactObjects then "\x7b|" else "\x7b"
      let closing := if config.exactObjects then "|\x7d;" else "\x7d;"
      [.block (head ++ bases ++ opening) closing (properties.flatMap propertySteps)]
    | .enumeration members =>
      [.block ("export const " ++ d.name ++ "Values = Object.freeze(\x7b") "\x7d);" (members.flatMap memberSteps),
        .blank, .line (head ++ "$Values<typeof " ++ d.name ++ "Values>;")]

/-- a declaration in Flow -/
def write (config : FlowOptions) (d : Declaration) : String :=
  Step.text (declarationSteps config d)

/-! ## The plugin -/

/-- refuses files that hold no Flow -/
def check (input : PluginView) : Except Error Unit := do
  requireEnding pluginName input.filePath extensions
  let _ ← Config.read pluginName FlowOptions.decode input.config

/-- the declarations; their names are listed for later plugins -/
def output (input : PluginView) (ctx : SharedValues) : Except Error Contribution × SharedValues :=
  match Config.read pluginName FlowOptions.decode input.config with
  | .error error => (.error error, ctx)
  | .ok config =>
    let content := String.intercalate "\n\n" ((declarations input.schema config).map (write config))
    (.ok { prepend := [header], content }, ctx.listOwnTypes input.schema)

end FlowTypes

/-- writes the schema as Flow types -/
def Plugin.flowTypes : Plugin where
  name := FlowTypes.pluginName
  check := FlowTypes.check
  generate := FlowTypes.output

end GraphGen
