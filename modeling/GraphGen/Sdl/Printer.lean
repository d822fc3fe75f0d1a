/-
Printed schema documents.

- `SchemaDefinition.print`: a definition; the description of a type, a field or a directive stands on lines of its own,
  the description of an argument, an input field or an enum value on the same line before it.
- `SchemaDocument.print`: definitions with a blank line between them.
-/
import GraphGen.Sdl.Basic
import GraphGen.Syntax.Printer

namespace GraphGen

namespace Printer

/-- a description on lines of its own -/
def printDescription (level : Nat) (description : Option String) : String :=
  match description with
  | some text => spaces level ++ quote level text ++ "\n"
  | none => ""

/-- a description before what it describes, on the same line -/
def printLeading (level : Nat) (description : Option String) : String :=
  match description with
  | some text => quote level text ++ " "
  | none => ""

/-- an argument or an input field; `level` is that of the line it stands on -/
def printInputValue (level : Nat) (value : InputValueDeclaration) : String :=
  printLeading level value.description ++ value.name ++ ": " ++ value.type.render ++ printDefault level value.default
    ++ printDirectives level value.directives

/-- declared arguments between parentheses, nothing when there are none -/
def printDeclaredArguments (level : Nat) (arguments : List InputValueDeclaration) : String :=
  if arguments.isEmpty then "" else "(" ++ String.intercalate ", " (arguments.map (printInputValue level)) ++ ")"

/-- a field on its own lines -/
def printField (field : FieldDeclaration) : String :=
  printDescription step field.description ++ spaces step ++ field.name ++ printDeclaredArguments step field.arguments
    ++ ": " ++ field.type.render ++ printDirectives step field.directives ++ "\n"

/-- an input field on its own line -/
def printInputField (field : InputValueDeclaration) : String :=
  spaces step ++ printInputValue step field ++ "\n"

/-- an enum value on its own line -/
def printEnumValue (value : EnumValueDeclaration) : String :=
  spaces step ++ printLeading step value.description ++ value.name ++ printDirectives step value.directives ++ "\n"

/-- lines between braces after a space, nothing when there are none -/
def printLines (lines : List String) : String :=
  if lines.isEmpty then "\n" else " \x7b\n" ++ String.join lines ++ "\x7d\n"

/-- the interfaces after the word `implements` -/
def printInterfaces (interfaces : List String) : String :=
  if interfaces.isEmpty then "" else " implements " ++ String.intercalate " & " interfaces

/-- a type from its keyword on -/
def printType (declaration : TypeDeclaration) : String :=
  let directives := printDirectives 0 declaration.directives
  match declaration.body with
  | .scalar => "scalar " ++ declaration.name ++ directives ++ "\n"
  | .object interfaces fields =>
    "type " ++ declaration.name ++ printInterfaces interfaces ++ directives ++ printLines (fields.map printField)
  | .interface interfaces fields =>
    "interface " ++ declaration.name ++ printInterfaces interfaces ++ directives ++ printLines (fields.map printField)
  | .union members =>
    "union " ++ declaration.name ++ directives
      ++ (if members.isEmpty then "" else " = " ++ String.intercalate " | " members) ++ "\n"
  | .enum values => "enum " ++ declaration.name ++ directives ++ printLines (values.map printEnumValue)
  | .inputObject fields => "input " ++ declaration.name ++ directives ++ printLines (fields.map printInputField)

/-- a root type on its own line -/
def printRoot (kind : String) (name : Option String) : String :=
  match name with
  | some name => spaces step ++ kind ++ ": " ++ name ++ "\n"
  | none => ""

end Printer

open Printer in
/-- a definition as it is printed on its own -/
def SchemaDefinition.print : SchemaDefinition → String
  | roots declaration =>
    "schema" ++ printDirectives 0 declaration.directives ++ " \x7b\n" ++ printRoot "query" declaration.query
      ++ printRoot "mutation" declaration.mutation ++ printRoot "subscription" declaration.subscription ++ "\x7d\n"
  | type declaration => printDescription 0 declaration.description ++ printType declaration
  | extension declaration => "extend " ++ printType declaration
  | directive declaration =>
    printDescription 0 declaration.description ++ "directive @" ++ declaration.name
      ++ printDeclaredArguments 0 declaration.arguments ++ (if declaration.repeatable then " repeatable" else "")
      ++ (if declaration.locations.isEmpty then ""
        else " on " ++ String.intercalate " | " (declaration.locations.map DirectiveLocation.name)) ++ "\n"

/-- the definitions with a blank line between them -/
def SchemaDocument.print (document : SchemaDocument) : String :=
  String.intercalate "\n" (document.map SchemaDefinition.print)

end GraphGen
