/-
Enums and input types as Java classes, nested in one class that holds them all.

- `JavaClasses.itemSteps`: an enum or an input class.
- `JavaClasses.readArgument`: the expression that reads a field out of a map of arguments.
- `JavaClasses.imports`: the imports that the classes need.
- `JavaOptions`, `Plugin.javaClasses`: the plugin that writes the classes.
-/
import GraphGen.Config.Decode
import GraphGen.Plugin.Basic
import GraphGen.Targets.ClassItem

namespace GraphGen

/-- the options of the plugin -/
structure JavaOptions where
  /-- the package, when it does not follow from the path -/
  package : Option String
  /-- the name of the class that holds all others -/
  className : String
  scalars : List (String × String)
  deriving DecidableEq, Inhabited

namespace JavaOptions

/-- the options of a configuration -/
def decode : Config.Decode JavaOptions := fun config => do
  let members ← Config.membersInOrder ["package", "className", "scalars"] config
  pure ⟨← Config.field members "package" Config.optionalText none,
    ← Config.field members "className" Config.text "Types",
    ← Config.field members "scalars" Config.texts []⟩

end JavaOptions

namespace JavaClasses

/-- the name of the plugin -/
def pluginName : String := "java"

/-! ## Types -/

/-- lists, and nullable types with their annotation -/
def annotated : Encoder where
  list item := "Iterable<" ++ item ++ ">"
  nullable type := "@Nullable " ++ type

/-- lists; nullable types are not marked -/
def unannotated : Encoder where
  list item := "Iterable<" ++ item ++ ">"
  nullable type := type

/-- what types are written with -/
structure Setting where
  schema : Schema
  scalars : ScalarTargets

namespace Setting

/-- the type that a field is declared with -/
def fieldType (setting : Setting) (type : WrappedType) : String :=
  hostType setting.schema setting.scalars annotated type

/-- the type that a field is cast to -/
def uncheckedType (setting : Setting) (type : WrappedType) : String :=
  hostType setting.schema setting.scalars unannotated type

end Setting

/-! ## Reading arguments -/

/-- how a field is read out of a map of arguments -/
inductive Conversion where
  /-- an input object is built from its own map -/
  | construct
  /-- an enum value is taken as it is or looked up by its label -/
  | label
  /-- each item of a list of input objects is built from its own map -/
  | constructItems
  | cast
  deriving DecidableEq, Inhabited

/-- how a field of a type is read -/
def conversion (schema : Schema) (type : WrappedType) : Conversion :=
  match schema.kind? type.name, type.wrapping.depth with
  | some .inputObject, 0 => .construct
  | some .enum, 0 => .label
  | some .inputObject, 1 => .constructItems
  | _, _ => .cast

/-- the expression that reads a field out of the map of arguments -/
def readArgument (setting : Setting) (field : InputValue) : String :=
  let value := "args.get(\"" ++ field.name ++ "\")"
  let item := field.type.name
  match conversion setting.schema field.type with
  | .construct => "new " ++ item ++ "((Map<String, Object>) " ++ value ++ ")"
  | .label =>
    value ++ " instanceof " ++ item ++ " ? (" ++ item ++ ") " ++ value ++ " : " ++ item ++ ".valueOfLabel((String) "
      ++ value ++ ")"
  | .constructItems =>
    value ++ " == null ? null : StreamSupport.stream(((Iterable<Map<String, Object>>) " ++ value
      ++ ").spliterator(), false).map(" ++ item ++ "::new).collect(Collectors.toList())"
  | .cast => "(" ++ setting.uncheckedType field.type ++ ") " ++ value

/-! ## Classes -/

/-- an enum whose values carry their labels -/
def enumSteps (description : Option String) (name : String) (values : List EnumValue) : List Step :=
  commentSteps description ++
    [.block ("public enum " ++ name ++ " \x7b") "\x7d"
      (commaLines ";" (values.map fun value => value.name ++ "(\"" ++ value.name ++ "\")")
        ++ [.blank, .line "public final String label;", .blank,
          .block (name ++ "(String label) \x7b") "\x7d" [.line "this.label = label;"], .blank,
          .line ("private static final Map<String, " ++ name ++ "> BY_LABEL = new HashMap<>();"), .blank,
          .block "static \x7b" "\x7d"
            [.block ("for (" ++ name ++ " e : values()) \x7b") "\x7d" [.line "BY_LABEL.put(e.label, e);"]], .blank,
          .block ("public static " ++ name ++ " valueOfLabel(String label) \x7b") "\x7d"
            [.line "return BY_LABEL.get(label);"]])]

/-- the declaration of a field -/
def fieldSteps (setting : Setting) (field : InputValue) : List Step :=
  commentSteps field.description ++ [.line ("private " ++ setting.fieldType field.type ++ " " ++ field.name ++ ";")]

/-- the methods that read and write a field -/
def accessorSteps (setting : Setting) (field : InputValue) : List Step :=
  let type := setting.fieldType field.type
  let accessor := Text.capitalize field.name
  [.blank,
    .line ("public " ++ type ++ " get" ++ accessor ++ "() \x7b return this." ++ field.name ++ "; \x7d"),
    .line ("public void set" ++ accessor ++ "(" ++ type ++ " " ++ field.name ++ ") \x7b this." ++ field.name ++ " = "
      ++ field.name ++ "; \x7d")]

/-- a class with a constructor from a map of arguments -/
def inputSteps (setting : Setting) (decl : InputClass) : List Step :=
  let assignments := decl.fields.map fun field =>
    Step.line ("this." ++ field.name ++ " = " ++ readArgument setting field ++ ";")
  commentSteps decl.description ++
    [.block ("public static class " ++ decl.name ++ " \x7b") "\x7d"
      (decl.fields.flatMap (fieldSteps setting)
        ++ [.blank, .line "@SuppressWarnings(\"unchecked\")",
          .block ("public " ++ decl.name ++ "(Map<String, Object> args) \x7b") "\x7d"
            [.block "if (args != null) \x7b" "\x7d" assignments]]
        ++ decl.fields.flatMap (accessorSteps setting))]

/-- an item; object types have no classes -/
def itemSteps (setting : Setting) : ClassItem → List Step
  | .enumeration description name values => enumSteps description name values
  | .input decl => inputSteps setting decl
  | .object _ _ _ => []

/-- the class that holds all others, with a blank line between them -/
def holder (setting : Setting) (className : String) (items : List ClassItem) : String :=
  let texts := items.map fun item => Step.lines (Step.text (itemSteps setting item))
  Step.text [.block ("public class " ++ className ++ " \x7b") "\x7d" (texts.intersperse .blank)]

/-! ## Imports -/

/-- the imports that an item needs -/
def itemImports (setting : Setting) : ClassItem → List String
  | .input decl =>
    let nullable := decl.fields.filter fun field => Text.hasPiece "@Nullable" (setting.fieldType field.type)
    let streamed := decl.fields.filter fun field => conversion setting.schema field.type = .constructItems
    (nullable.map fun _ => "import javax.annotation.Nullable;")
      ++ streamed.flatMap fun _ => ["import java.util.stream.Collectors;", "import java.util.stream.StreamSupport;"]
  | _ => []

/-- the imports that items need -/
def imports (setting : Setting) (items : List ClassItem) : ImportLines :=
  .ofList ("import java.util.*;" :: items.flatMap (itemImports setting))

/-! ## The plugin -/

/-- refuses other files than Java files -/
def check (input : PluginView) : Except Error Unit := do
  requireEnding pluginName input.filePath [".java"]
  let _ ← Config.read pluginName JavaOptions.decode input.config

/-- the package and the imports before the class that holds all others -/
def output (input : PluginView) : Except Error Contribution := do
  let config ← Config.read pluginName JavaOptions.decode input.config
  let setting : Setting := ⟨input.schema, ScalarTargets.java.overriddenBy config.scalars⟩
  let items := classItems false input.schema
  let package := (config.package <|> packageOf? input.filePath).map fun name => "package " ++ name ++ ";\n"
  pure { prepend := package.toList ++ (imports setting items).lines, content := holder setting config.className items }

end JavaClasses

/-- writes enums and input types as Java classes -/
def Plugin.javaClasses : Plugin where
  name := JavaClasses.pluginName
  check := JavaClasses.check
  generate := pureHook JavaClasses.output

end GraphGen
