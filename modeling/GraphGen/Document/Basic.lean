/-
Executable documents.

- `OperationKind`: query, mutation, subscription.
- `Selection`: a field with its sub-selections, a fragment spread, or an inline fragment.
- `Operation`: a bare selection set, or a keyword with name, variables and directives before the selections.
- `Fragment`: a named selection set on a type.
- `Document`: definitions in the order they were written.
- `LocatedDocument`: a document and where it was loaded from.
- `spreads`: the fragment names that a selection set spreads, at any depth.
-/
import GraphGen.Syntax.Token
import GraphGen.Syntax.Value

namespace GraphGen

/-- what an operation does -/
inductive OperationKind where
  | query
  | mutation
  | subscription
  deriving DecidableEq, Inhabited

namespace OperationKind

/-- the keyword of the kind -/
def keyword : OperationKind → String
  | query => "query"
  | mutation => "mutation"
  | subscription => "subscription"

/-- the name of the kind: the default name of its root type, and the ending of type names made for its operations -/
def typeName : OperationKind → String
  | query => "Query"
  | mutation => "Mutation"
  | subscription => "Subscription"

end OperationKind

/-- a selection; a field without sub-selections has an empty list of them -/
inductive Selection where
  | field (aliasName : Option String) (name : String) (arguments : List (String × Value)) (directives : List Directive)
      (selections : List Selection)
  | spread (name : String) (directives : List Directive)
  | inline (condition : Option String) (directives : List Directive) (selections : List Selection)
  deriving Inhabited

/-- the selections between a pair of braces -/
abbrev SelectionSet := List Selection

/-- a declared variable -/
structure VariableDefinition where
  name : String
  type : TypeExpr
  default : Option Value
  deriving Inhabited

/-- what stands before the selections of an operation -/
inductive OperationHeader where
  | bare
  | keyword (kind : OperationKind) (name : Option String) (declared : List VariableDefinition)
      (directives : List Directive)
  deriving Inhabited

/-- an operation -/
structure Operation where
  header : OperationHeader
  selections : SelectionSet
  /-- the place of the keyword, or of the opening brace of a bare selection set -/
  position : Position
  deriving Inhabited

/-- a fragment definition -/
structure Fragment where
  name : String
  /-- the type the fragment is declared on -/
  condition : String
  directives : List Directive
  selections : SelectionSet
  deriving Inhabited

/-- a definition of an executable document -/
inductive Definition where
  | operation (operation : Operation)
  | fragment (fragment : Fragment)
  deriving Inhabited

/-- the definitions of an executable document -/
abbrev Document := List Definition

/-- a document and where it was loaded from -/
structure LocatedDocument where
  location : String
  document : Document
  deriving Inhabited

namespace Operation

/-- what the operation does; a bare selection set is a query -/
def kind (op : Operation) : OperationKind :=
  match op.header with
  | .bare => .query
  | .keyword kind _ _ _ => kind

/-- the name of the operation -/
def name (op : Operation) : Option String :=
  match op.header with
  | .bare => none
  | .keyword _ name _ _ => name

/-- the declared variables -/
def variableDefinitions (op : Operation) : List VariableDefinition :=
  match op.header with
  | .bare => []
  | .keyword _ _ declared _ => declared

/-- the directives before the selections -/
def directives (op : Operation) : List Directive :=
  match op.header with
  | .bare => []
  | .keyword _ _ _ directives => directives

end Operation

namespace LocatedDocument

/-- the operations in document order -/
def operations (source : LocatedDocument) : List Operation :=
  source.document.filterMap fun
    | .operation op => some op
    | .fragment _ => none

/-- the fragment definitions in document order -/
def fragments (source : LocatedDocument) : List Fragment :=
  source.document.filterMap fun
    | .operation _ => none
    | .fragment fragment => some fragment

end LocatedDocument

namespace Selection

mutual

/-- the fragment names that a selection spreads, in document order, also inside fields and inline fragments -/
def spreads : Selection → List String
  | field _ _ _ _ selections => spreadsOf selections
  | spread name _ => [name]
  | inline _ _ selections => spreadsOf selections

/-- the fragment names that selections spread -/
def spreadsOf : List Selection → List String
  | [] => []
  | selection :: rest => spreads selection ++ spreadsOf rest

end

end Selection

/-- the fragment names that a selection set spreads, in document order -/
def SelectionSet.spreads (selections : SelectionSet) : List String :=
  Selection.spreadsOf selections

end GraphGen
