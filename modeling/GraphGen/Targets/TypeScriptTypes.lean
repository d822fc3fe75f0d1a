/-
The schema as TypeScript types.

- `TypeScriptTypes.declarations`: the declared types in order: the nullable type, the type of all scalars, and then
  every declared schema type, an object or interface followed by the types of its fields' arguments.
- `TypeScriptTypes.write`: a declaration in TypeScript.
- `TypeScriptOptions`, `Plugin.typeScriptTypes`: the plugin that writes the declarations.
-/
import GraphGen.Dialect.TypeScript
import GraphGen.Plugin.Basic
import GraphGen.Targets.Declaration

namespace GraphGen

/-- the options of the plugin -/
structure TypeScriptOptions where
  common : SharedOptions
  /-- the definition of the nullable type of T -/
  maybeValue : String
  enumsAsTypes : Bool
  constEnums : Bool
  /-- whether the directives of a federated schema are known and external fields are left out -/
  federation : Bool
  noExport : Bool
  deriving DecidableEq, Inhabited

namespace TypeScriptOptions

/-- the options of a configuration -/
def decode : Config.Decode TypeScriptOptions := fun config => do
  let members ← Config.members config
  pure {
    common := ← SharedOptions.ofMembers members
    maybeValue := ← Config.field members "maybeValue" Config.text "T | null"
    enumsAsTypes := ← Config.field members "enumsAsTypes" Config.truth false
    constEnums := ← Config.field members "constEnums" Config.truth false
    federation := ← Config.field members "federation" Config.truth false
    noExport := ← Config.field members "noExport" Config.truth false }

end TypeScriptOptions

namespace TypeScriptTypes

/-- the name of the plugin -/
def pluginName : String := "typescript"

/-- the endings of the files that hold TypeScript -/
def extensions : List String :=
  [".ts", ".tsx"]

/-! ## Declarations -/

/-- what references are written with -/
def scope (schema : Schema) (config : TypeScriptOptions) : SchemaScope where
  schema := schema
  dialect := .typeScript .maybe config.common.immutableTypes
  names := config.common.names
  options := config.common.shapeSettings
  readOnly := config.common.immutableTypes

/-- a description with the reason of a deprecation on a line of its own -/
def commentText (description : Option String) (deprecation : Option Deprecation) : String :=
  let text := description.getD ""
  match deprecation with
  | some d => (if text.isEmpty then "" else text ++ "\n") ++ "@deprecated " ++ d.text
  | none => text

/-- the fields that are declared: all, or all that no other service owns -/
def ownFields (config : TypeScriptOptions) (type : NamedType) : List Field :=
  type.fields.values.filter fun field => !(config.federation && field.carries "external")

/-- the properties of an object or interface -/
def objectProperties (scope : SchemaScope) (config : TypeScriptOptions) (type : NamedType) : List Property :=
  scope.typenameProperties type
    ++ (ownFields config type).map fun field =>
      scope.fieldProperty (some (commentText field.description field.deprecation)) field

/-- the properties of arguments or input fields -/
def inputProperties (scope : SchemaScope) (values : List InputValue) : List Property :=
  values.map fun value => scope.inputProperty value.description value

/-- the types of the arguments of an object's or interface's fields -/
def argumentDeclarations (scope : SchemaScope) (config : TypeScriptOptions) (type : NamedType) : List Declaration :=
  ((ownFields config type).filter (!·.arguments.isEmpty)).map fun field =>
    { name := SchemaScope.argumentsName scope.names type.name field.name
      body := .object [] (inputProperties scope field.arguments) }

/-- what an enum is declared as: an enum, or a union of its values -/
def enumBody (scope : SchemaScope) (config : TypeScriptOptions) (type : NamedType) : DeclarationBody :=
  if config.enumsAsTypes then
    .abbreviation (String.intercalate " | " (type.enumValues.map fun value => scope.dialect.stringLiteral value.name))
  else
    .enumeration <| type.enumValues.map fun value =>
      { comment := some (commentText value.description value.deprecation), name := value.name }

/-- the declarations of a schema type -/
def typeDeclarations (scope : SchemaScope) (config : TypeScriptOptions) (type : NamedType) : List Declaration :=
  let declared (body : DeclarationBody) : Declaration :=
    { comment := type.description, name := scope.typeName type.name, body }
  match type.kind with
  | .scalar => []
  | .object | .interface =>
    declared (.object (type.interfaces.map scope.typeName) (objectProperties scope config type))
      :: argumentDeclarations scope config type
  | .inputObject => [declared (.object [] (inputProperties scope type.inputFields.values))]
  | .enum => [declared (enumBody scope config type)]
  | .union => [declared (.abbreviation (scope.memberUnion type))]

/-- the scalars that are listed: all but the one that a federated schema adds -/
def listedScalars (schema : Schema) (config : TypeScriptOptions) : List NamedType :=
  (schema.ofKind .scalar).filter fun type => !(config.federation && type.name = "_FieldSet")

/-- the nullable type -/
def maybeDeclaration (config : TypeScriptOptions) : Declaration where
  name := "Maybe"
  parameters := "<T>"
  body := .abbreviation config.maybeValue

/-- the declared types in order -/
def declarations (schema : Schema) (config : TypeScriptOptions) : List Declaration :=
  let scope := scope schema config
  let scalars := config.common.scalarTargets .typeScript
  maybeDeclaration config :: SchemaScope.scalarsDeclaration scalars (listedScalars schema config)
    :: schema.ownTypes.flatMap (typeDeclarations scope config)

/-! ## Writing -/

/-- a property on a line of its own, after its comment -/
def propertySteps (property : Property) : List Step :=
  commentSteps property.comment ++
    [.line ((if property.readOnly then "readonly " else "") ++ property.key ++ (if property.optional then "?" else "")
      ++ ": " ++ property.type ++ ";")]

/-- a value of an enum on a line of its own, after its comment -/
def memberSteps (member : EnumMember) : List Step :=
  commentSteps member.comment ++ [.line (member.name ++ " = '" ++ member.name ++ "',")]

/-- a declaration after its comment -/
def declarationSteps (config : TypeScriptOptions) (d : Declaration) : List Step :=
  let opening := if config.noExport then "" else "export "
  let head := opening ++ "type " ++ d.name ++ d.parameters ++ " = "
  commentSteps d.comment ++
    match d.body with
    | .abbreviation type => [.line (head ++ type ++ ";")]
    | .object bases properties =>
      let bases := String.join (bases.map (· ++ " & "))
      [.block (head ++ bases ++ "\x7b") "\x7d;" (properties.flatMap propertySteps)]
    | .enumeration members =>
      let keyword := if config.constEnums then "const enum " else "enum "
      [.block (opening ++ keyword ++ d.name ++ " \x7b") "\x7d" (members.flatMap memberSteps)]

/-- a declaration in TypeScript -/
def write (config : TypeScriptOptions) (d : Declaration) : String :=
  Step.text (declarationSteps config d)

/-- declarations with a blank line between them -/
def writeAll (config : TypeScriptOptions) (declarations : List Declaration) : String :=
  String.intercalate "\n\n" (declarations.map (write config))

/-! ## The plugin -/

/-- the definitions that a federated schema relies on -/
def federationDefinitions : String :=
  "scalar _FieldSet\n\ndirective @external on FIELD_DEFINITION\n"
    ++ "directive @requires(fields: _FieldSet!) on FIELD_DEFINITION\n"
    ++ "directive @provides(fields: _FieldSet!) on FIELD_DEFINITION\n"
    ++ "directive @key(fields: _FieldSet!) on OBJECT | INTERFACE\ndirective @extends on OBJECT | INTERFACE"

/-- the definitions that are added to a federated schema -/
def schemaAdditions (config : Json) : Option String :=
  if ((config.get? "federation").bind Json.asBool?).getD false then some federationDefinitions else none

/-- refuses files that hold no TypeScript -/
def check (input : PluginView) : Except Error Unit := do
  requireEnding pluginName input.filePath extensions
  let _ ← Config.read pluginName TypeScriptOptions.decode input.config

/-- the declarations; their names are listed for later plugins -/
def output (input : PluginView) (ctx : SharedValues) : Except Error Contribution × SharedValues :=
  match Config.read pluginName TypeScriptOptions.decode input.config with
  | .error error => (.error error, ctx)
  | .ok config =>
    (.ok { content := writeAll config (declarations input.schema config) }, ctx.listOwnTypes input.schema)

end TypeScriptTypes

/-- writes the schema as TypeScript types -/
def Plugin.typeScriptTypes : Plugin where
  name := TypeScriptTypes.pluginName
  schemaAdditions := TypeScriptTypes.schemaAdditions
  check := TypeScriptTypes.check
  generate := TypeScriptTypes.output

end GraphGen
