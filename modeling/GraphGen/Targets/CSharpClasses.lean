/-
The schema as C# enums, interfaces and classes, nested in one class of a namespace.

- `CSharpClasses.typeSteps`: a declared type.
- `CSharpClasses.imports`: the imports that the types need.
- `CSharpOptions`, `Plugin.cSharpClasses`: the plugin that writes the types.
-/
import GraphGen.Config.Decode
import GraphGen.Plugin.Basic
import GraphGen.Targets.ClassItem

namespace GraphGen

/-- the options of the plugin -/
structure CSharpOptions where
  namespaceName : String
  /-- the name of the class that holds all types -/
  className : String
  scalars : List (String × String)
  deriving DecidableEq, Inhabited

namespace CSharpOptions

/-- the options of a configuration -/
def decode : Config.Decode CSharpOptions := fun config => do
  let members ← Config.membersInOrder ["namespaceName", "className", "scalars"] config
  pure ⟨← Config.field members "namespaceName" Config.text "GraphQLCodeGen",
    ← Config.field members "className" Config.text "Types", ← Config.field members "scalars" Config.texts []⟩

end CSharpOptions

namespace CSharpClasses

/-- the name of the plugin -/
def pluginName : String := "c-sharp"

/-- lists and nullable types -/
def encoder : Encoder where
  list item := "List<" ++ item ++ ">"
  nullable type := type ++ "?"

/-- what types are written with -/
structure Setting where
  schema : Schema
  scalars : ScalarTargets

/-- a type with its wrappers -/
def Setting.typeOf (setting : Setting) (type : WrappedType) : String :=
  hostType setting.schema setting.scalars encoder type

/-- a property of a class or interface -/
structure Member where
  name : String
  description : Option String
  type : WrappedType
  deprecation : Option Deprecation
  deriving DecidableEq, Inhabited

/-- the properties of an object, interface or input object -/
def members (type : NamedType) : List Member :=
  (type.fields.values.map fun field => ⟨field.name, field.description, field.type, field.deprecation⟩)
    ++ type.inputFields.values.map fun field => ⟨field.name, field.description, field.type, none⟩

/-! ## Types -/

/-- a description as a documentation comment -/
def summarySteps : Option String → List Step
  | some description =>
    [.line "/// <summary>"] ++ ((descriptionLines description).map fun line => .line ("/// " ++ line))
      ++ [.line "/// </summary>"]
  | none => []

/-- values of an enum; all but the last end with a comma -/
def valueSteps : List EnumValue → List Step
  | [] => []
  | [value] => summarySteps value.description ++ [.line value.name]
  | value :: rest => summarySteps value.description ++ [.line (value.name ++ ",")] ++ valueSteps rest

/-- the line of a property -/
def propertyLine (setting : Setting) (access : String) (member : Member) : Step :=
  .line (access ++ setting.typeOf member.type ++ " " ++ member.name ++ " \x7b get; set; \x7d")

/-- the line that names the JSON member of a property -/
def jsonNameLine (member : Member) : Step :=
  .line ("[JsonProperty(\"" ++ member.name ++ "\")]")

/-- a property of an interface -/
def interfaceMemberSteps (setting : Setting) (member : Member) : List Step :=
  summarySteps member.description ++ [jsonNameLine member, propertyLine setting "" member]

/-- the line that marks a property as deprecated -/
def obsoleteSteps : Option Deprecation → List Step
  | some d => [.line ("[Obsolete(\"" ++ Text.replace "\"" "\\\"" d.text ++ "\")]")]
  | none => []

/-- a property of a class -/
def classMemberSteps (setting : Setting) (member : Member) : List Step :=
  summarySteps member.description ++ obsoleteSteps member.deprecation ++ [jsonNameLine member]
    ++ (if member.type.isNullable then [] else [.line "[Required]", .line "[JsonRequired]"])
    ++ [propertyLine setting "public " member]

/-- the interfaces of a class -/
def bases (type : NamedType) : String :=
  if type.interfaces.isEmpty then "" else " : " ++ String.intercalate ", " type.interfaces

/-- a region of some steps -/
def region (name : String) (steps : List Step) : List Step :=
  [.line ("#region " ++ name)] ++ steps ++ [.line "#endregion"]

/-- a type; scalars are not declared -/
def typeSteps? (setting : Setting) (type : NamedType) : Option (List Step) :=
  let declared (head : String) (body : List Step) : List Step :=
    summarySteps type.description ++ [.block ("public " ++ head ++ " \x7b") "\x7d" body]
  match type.kind with
  | .scalar => none
  | .enum => some (declared ("enum " ++ type.name) (valueSteps type.enumValues))
  | .union =>
    some <| declared ("class " ++ type.name) <| region "members" <|
      type.members.map fun member => .line ("public " ++ member ++ " As" ++ member ++ " \x7b get; set; \x7d")
  | .interface =>
    some (declared ("interface " ++ type.name) ((members type).flatMap (interfaceMemberSteps setting)))
  | .object | .inputObject =>
    some <| declared ("class " ++ type.name ++ bases type) <| region "members" <|
      (members type).flatMap (classMemberSteps setting)

/-- a type in a region of its own, after a blank line -/
def typeRegion (setting : Setting) (type : NamedType) : List Step :=
  match typeSteps? setting type with
  | some steps => .blank :: region type.name [.lines (Step.text steps)]
  | none => []

/-- the namespace with the class that holds all types -/
def write (setting : Setting) (config : CSharpOptions) : String :=
  Step.text
    [.block ("namespace " ++ config.namespaceName ++ " \x7b") "\x7d"
      [.block ("public class " ++ config.className ++ " \x7b") "\x7d"
        (setting.schema.ownTypes.flatMap (typeRegion setting))]]

/-- whether a type is a class with a required property -/
def hasRequired (type : NamedType) : Bool :=
  (type.kind = .object || type.kind = .inputObject) && (members type).any fun member => !member.type.isNullable

/-- the imports that the types need -/
def imports (schema : Schema) : ImportLines :=
  .ofList (["using System;", "using System.Collections.Generic;", "using Newtonsoft.Json;"]
    ++ (schema.ownTypes.filter hasRequired).map fun _ => "using System.ComponentModel.DataAnnotations;")

/-! ## The plugin -/

/-- refuses other files than C# files -/
def check (input : PluginView) : Except Error Unit := do
  requireEnding pluginName input.filePath [".cs"]
  let _ ← Config.read pluginName CSharpOptions.decode input.config

/-- the imports before the namespace -/
def output (input : PluginView) : Except Error Contribution := do
  let config ← Config.read pluginName CSharpOptions.decode input.config
  let setting : Setting := ⟨input.schema, ScalarTargets.cSharp.overriddenBy config.scalars⟩
  pure { prepend := (imports input.schema).lines, content := write setting config }

end CSharpClasses

/-- writes the schema as C# types -/
def Plugin.cSharpClasses : Plugin where
  name := CSharpClasses.pluginName
  check := CSharpClasses.check
  generate := pureHook CSharpClasses.output

end GraphGen
