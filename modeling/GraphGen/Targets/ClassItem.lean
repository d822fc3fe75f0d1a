/-
What is declared as a class or an enum in languages with classes.

- `InputClass`: an input object, or the arguments of a field, which are declared alike.
- `ClassItem`: an enum, an input class, or an object type.
- `classItems`: the items of a schema in order; the argument classes of an object come before the object itself.
- `hostType`: a type with its wrappers, its scalars in the types of the language.
- `packageOf?`: the package that the path of a file stands for.
-/
import GraphGen.Output.Comment
import GraphGen.Targets.Declaration

namespace GraphGen

/-- an input object, or the arguments of a field -/
structure InputClass where
  description : Option String
  name : String
  fields : List InputValue
  deriving DecidableEq, Inhabited

/-- what is declared as a class or an enum -/
inductive ClassItem where
  | enumeration (description : Option String) (name : String) (values : List EnumValue)
  | input (decl : InputClass)
  | object (description : Option String) (name : String) (fields : List Field)
  deriving Inhabited

/-- the name of an item -/
def ClassItem.name : ClassItem → String
  | enumeration _ name _ => name
  | input decl => decl.name
  | object _ name _ => name

/-- the class of a field's arguments -/
def InputClass.ofArguments (type : String) (field : Field) : InputClass :=
  ⟨none, SchemaScope.argumentsName .plain type field.name, field.arguments⟩

/-- the items of a type, with or without the classes of object types -/
def typeItems (withObjects : Bool) (type : NamedType) : List ClassItem :=
  let arguments := (type.fields.values.filter (!·.arguments.isEmpty)).map fun field =>
    ClassItem.input (.ofArguments type.name field)
  match type.kind with
  | .enum => [.enumeration type.description type.name type.enumValues]
  | .inputObject => [.input ⟨type.description, type.name, type.inputFields.values⟩]
  | .interface => arguments
  | .object =>
    arguments ++ (if withObjects then [.object type.description type.name type.fields.values] else [])
  | .scalar | .union => []

/-- the items of a schema in order -/
def classItems (withObjects : Bool) (schema : Schema) : List ClassItem :=
  schema.ownTypes.flatMap (typeItems withObjects)

/-- a named type: a scalar in the types of the language, any other type by its own name -/
def hostName (schema : Schema) (scalars : ScalarTargets) (name : String) : String :=
  match schema.kind? name with
  | none | some .scalar => scalars.target name
  | some _ => name

/-- a type with its wrappers -/
def hostType (schema : Schema) (scalars : ScalarTargets) (encoder : Encoder) (type : WrappedType) : String :=
  type.wrap (hostName schema scalars type.name) encoder

/-- lines of which all but the last end with a comma, and the last with `closing` -/
def commaLines (closing : String) : List String → List Step
  | [] => []
  | [text] => [.line (text ++ closing)]
  | text :: rest => .line (text ++ ",") :: commaLines closing rest

/-! ## Packages -/

/-- the directories that packages are counted from -/
def sourceRoots : List String :=
  ["src/main/java", "src/main/kotlin"]

/-- the text before the last occurrence of a character, empty when there is none -/
def beforeLast (c : Char) (text : String) : String :=
  String.ofList ((text.toList.reverse.dropWhile (· != c)).drop 1).reverse

/-- the part of a directory below the first source root that occurs in it, or all of it -/
def belowSourceRoot (directory : String) : String :=
  ((sourceRoots.findSome? fun root => Text.splitOnce? root directory).map Prod.snd).getD directory

/-- the package that the path of a file stands for: the names of its directories below a source root -/
def packageOf? (path : String) : Option String :=
  let directory := beforeLast '/' (Text.replace "\\" "/" path)
  let parts := (Text.splitAll '/' (belowSourceRoot directory)).filter fun part => !(part.isEmpty || part = ".")
  let package := String.intercalate "." parts
  if package.isEmpty then none else some package

end GraphGen
