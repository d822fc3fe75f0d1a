/-
Printed executable documents.

- `Operation.print`, `Fragment.print`: a definition with its selections indented by two spaces a level, ending with a
  line break.

The variables of a subscription are printed only when it has a name, and then without separators.
-/
import GraphGen.Document.Basic
import GraphGen.Syntax.Printer

namespace GraphGen

namespace Printer

mutual

/-- a selection on its own lines -/
def printSelection (level : Nat) : Selection → String
  | .field aliasName name arguments directives selections =>
    spaces level ++ (match aliasName with | some key => key ++ ": " | none => "") ++ name
      ++ printArguments level arguments ++ printDirectives level directives
      ++ (if selections.isEmpty then "\n"
        else " \x7b\n" ++ printSelections (level + step) selections ++ spaces level ++ "\x7d\n")
  | .spread name directives => spaces level ++ "..." ++ name ++ printDirectives level directives ++ "\n"
  | .inline condition directives selections =>
    spaces level ++ "..." ++ (match condition with | some type => " on " ++ type | none => "")
      ++ printDirectives level directives ++ " \x7b\n" ++ printSelections (level + step) selections
      ++ spaces level ++ "\x7d\n"

/-- selections, each on its own lines -/
def printSelections (level : Nat) : List Selection → String
  | [] => ""
  | selection :: rest => printSelection level selection ++ printSelections level rest

end

/-- the selections of a definition between braces -/
def printBody (selections : SelectionSet) : String :=
  "\x7b\n" ++ printSelections step selections ++ "\x7d\n"

/-- a declared variable -/
def printVariable (v : VariableDefinition) : String :=
  "$" ++ v.name ++ ": " ++ v.type.render ++ printDefault 0 v.default

/-- the variables of a query or mutation -/
def printVariables (declared : List VariableDefinition) : String :=
  if declared.isEmpty then "" else "(" ++ String.intercalate ", " (declared.map printVariable) ++ ")"

/-- the name and variables of a subscription -/
def printSubscriptionHead (name : Option String) (declared : List VariableDefinition) : String :=
  match name with
  | none => ""
  | some name =>
    " " ++ name ++ (if declared.isEmpty then "" else "(" ++ String.join (declared.map printVariable) ++ ")")

end Printer

open Printer in
/-- an operation as it is printed on its own -/
def Operation.print (op : Operation) : String :=
  match op.header with
  | .bare => printBody op.selections
  | .keyword kind name declared directives =>
    let head := match kind with
      | .subscription => printSubscriptionHead name declared
      | _ => (match name with | some name => " " ++ name | none => "") ++ printVariables declared
    kind.keyword ++ head ++ printDirectives 0 directives ++ " " ++ printBody op.selections

open Printer in
/-- a fragment definition as it is printed on its own -/
def Fragment.print (fragment : Fragment) : String :=
  "fragment " ++ fragment.name ++ " on " ++ fragment.condition ++ printDirectives 0 fragment.directives ++ " "
    ++ printBody fragment.selections

end GraphGen
