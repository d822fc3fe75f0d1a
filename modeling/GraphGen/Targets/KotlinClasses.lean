/-
Enums, input types and, when asked for, object types as Kotlin classes.

- `KotlinClasses.itemSteps`: an enum class or a data class.
- `KotlinClasses.readArgument`: the expression that reads a field out of a map of arguments.
- `KotlinOptions`, `Plugin.kotlinClasses`: the plugin that writes the classes.
-/
import GraphGen.Config.Decode
import GraphGen.Plugin.Basic
import GraphGen.Targets.ClassItem

namespace GraphGen

/-- the options of the plugin -/
structure KotlinOptions where
  /-- the package, when it does not follow from the path -/
  package : Option String
  scalars : List (String × String)
  /-- whether object types have classes too -/
  withTypes : Bool
  deriving DecidableEq, Inhabited

namespace KotlinOptions

/-- the options of a configuration -/
def decode : Config.Decode KotlinOptions := fun config => do
  let members ← Config.membersInOrder ["package", "scalars", "withTypes"] config
  pure ⟨← Config.field members "package" Config.optionalText none, ← Config.field members "scalars" Config.texts [],
    ← Config.field members "withTypes" Config.truth false⟩

end KotlinOptions

namespace KotlinClasses

/-- the name of the plugin -/
def pluginName : String := "kotlin"

/-! ## Types -/

/-- lists and nullable types -/
def encoder : Encoder where
  list item := "Iterable<" ++ item ++ ">"
  nullable type := type ++ "?"

/-- what types are written with -/
structure Setting where
  schema : Schema
  scalars : ScalarTargets

/-- a type with its wrappers -/
def Setting.typeOf (setting : Setting) (type : WrappedType) : String :=
  hostType setting.schema setting.scalars encoder type

/-! ## Reading arguments -/

/-- how a field is read out of a map of arguments -/
inductive Conversion where
  /-- an enum value is taken as it is or looked up by its label -/
  | label
  /-- an input object is built from its own map -/
  | construct
  | cast
  deriving DecidableEq, Inhabited

/-- how a field of a type is read -/
def conversion (schema : Schema) (type : WrappedType) : Conversion :=
  if type.isList then .cast
  else
    match schema.kind? type.name with
    | some .enum => .label
    | some .inputObject => .construct
    | _ => .cast

/-- the expression that reads a field out of the map of arguments -/
def readArgument (setting : Setting) (field : InputValue) : String :=
  let value := "args[\"" ++ field.name ++ "\"]"
  let item := field.type.name
  match conversion setting.schema field.type, field.type.isNullable with
  | .label, true =>
    value ++ " as? " ++ item ++ " ?: (" ++ value ++ " as String?)?.let \x7b " ++ item ++ ".valueOfLabel(it) \x7d"
  | .label, false => value ++ " as? " ++ item ++ " ?: " ++ item ++ ".valueOfLabel(" ++ value ++ " as String)!!"
  | .construct, true => "(" ++ value ++ " as Map<String, Any>?)?.let \x7b " ++ item ++ "(it) \x7d"
  | .construct, false => item ++ "(" ++ value ++ " as Map<String, Any>)"
  | .cast, _ => value ++ " as " ++ setting.typeOf field.type

/-! ## Classes -/

/-- an enum class whose values carry their labels -/
def enumSteps (description : Option String) (name : String) (values : List EnumValue) : List Step :=
  commentSteps description ++
    [.block ("enum class " ++ name ++ "(val label: String) \x7b") "\x7d"
      (commaLines ";" (values.map fun value => value.name ++ "(\"" ++ value.name ++ "\")")
        ++ [.blank,
          .block "companion object \x7b" "\x7d"
            [.line "@JvmStatic",
              .line ("fun valueOfLabel(label: String): " ++ name
                ++ "? = values().find \x7b it.label == label \x7d")]])]

/-- a property of a data class, `null` unless it is given when its type is nullable -/
def parameter (setting : Setting) (name : String) (type : WrappedType) : String :=
  "val " ++ name ++ ": " ++ setting.typeOf type ++ (if type.isNullable then " = null" else "")

/-- the head of a data class with its properties, up to the parenthesis that closes them -/
def headSteps (description : Option String) (name : String) (parameters : List String) : List Step :=
  commentSteps description ++ [.line ("data class " ++ name ++ "("), .indent] ++ commaLines "" parameters ++ [.dedent]

/-- a data class with a constructor from a map of arguments -/
def inputSteps (setting : Setting) (decl : InputClass) : List Step :=
  headSteps decl.description decl.name (decl.fields.map fun field => parameter setting field.name field.type) ++
    [.block ") \x7b" "\x7d"
      ([.line "@Suppress(\"UNCHECKED_CAST\")", .line "constructor(args: Map<String, Any>) : this(", .indent]
        ++ commaLines "" (decl.fields.map (readArgument setting)) ++ [.dedent, .line ")"])]

/-- a data class -/
def objectSteps (setting : Setting) (description : Option String) (name : String) (fields : List Field) : List Step :=
  headSteps description name (fields.map fun field => parameter setting field.name field.type) ++ [.line ")"]

/-- an item -/
def itemSteps (setting : Setting) : ClassItem → List Step
  | .enumeration description name values => enumSteps description name values
  | .input decl => inputSteps setting decl
  | .object description name fields => objectSteps setting description name fields

/-- items with a blank line between them -/
def write (setting : Setting) (items : List ClassItem) : String :=
  String.intercalate "\n\n" (items.map fun item => Step.text (itemSteps setting item))

/-! ## The plugin -/

/-- refuses other files than Kotlin files -/
def check (input : PluginView) : Except Error Unit := do
  requireEnding pluginName input.filePath [".kt"]
  let _ ← Config.read pluginName KotlinOptions.decode input.config

/-- the package before the classes -/
def output (input : PluginView) : Except Error Contribution := do
  let config ← Config.read pluginName KotlinOptions.decode input.config
  let setting : Setting := ⟨input.schema, ScalarTargets.kotlin.overriddenBy config.scalars⟩
  let package := (config.package <|> packageOf? input.filePath).map fun name => "package " ++ name ++ "\n"
  pure { prepend := package.toList, content := write setting (classItems config.withTypes input.schema) }

end KotlinClasses

/-- writes enums, input types and object types as Kotlin classes -/
def Plugin.kotlinClasses : Plugin where
  name := KotlinClasses.pluginName
  check := KotlinClasses.check
  generate := pureHook KotlinClasses.output

end GraphGen
