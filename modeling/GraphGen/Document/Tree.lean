/-
Executable documents as syntax trees in JSON.

- `Definition.tree`: a definition as the node that clients for JavaScript read; positions are left out, and a bare
  selection set is a query without a name.
- `documentTree`: the node of a document of such nodes.
-/
import GraphGen.Document.Basic
import GraphGen.Json.Value

namespace GraphGen

namespace Tree

/-- a node of a kind -/
def node (kind : String) (members : List (String × Json)) : Json :=
  .obj (("kind", .str kind) :: members)

/-- a name -/
def name (text : String) : Json :=
  node "Name" [("value", .str text)]

/-- a named type -/
def namedType (text : String) : Json :=
  node "NamedType" [("name", name text)]

/-- a type expression -/
def ofType : TypeExpr → Json
  | .named text => namedType text
  | .list item => node "ListType" [("type", ofType item)]
  | .nonNull inner => node "NonNullType" [("type", ofType inner)]

mutual

/-- a value -/
def ofValue : Value → Json
  | .var text => node "Variable" [("name", name text)]
  | .int n => node "IntValue" [("value", .str (toString n.toInt))]
  | .float d => node "FloatValue" [("value", .str d.display)]
  | .string s => node "StringValue" [("value", .str s), ("block", .bool false)]
  | .boolean b => node "BooleanValue" [("value", .bool b)]
  | .null => node "NullValue" []
  | .enum text => node "EnumValue" [("value", .str text)]
  | .list items => node "ListValue" [("values", .arr (ofItems items))]
  | .object fields => node "ObjectValue" [("fields", .arr (ofFields fields))]

/-- the items of a list -/
def ofItems : List Value → List Json
  | [] => []
  | item :: rest => ofValue item :: ofItems rest

/-- the fields of an object -/
def ofFields : List (String × Value) → List Json
  | [] => []
  | (key, value) :: rest =>
    node "ObjectField" [("name", name key), ("value", ofValue value)] :: ofFields rest

end

/-- an argument -/
def ofArgument (argument : String × Value) : Json :=
  node "Argument" [("name", name argument.1), ("value", ofValue argument.2)]

/-- arguments -/
def ofArguments (arguments : List (String × Value)) : Json :=
  .arr (arguments.map ofArgument)

/-- an applied directive -/
def ofDirective (d : Directive) : Json :=
  node "Directive" [("name", name d.name), ("arguments", ofArguments d.arguments)]

/-- applied directives -/
def ofDirectives (directives : List Directive) : Json :=
  .arr (directives.map ofDirective)

/-- a member that is there when there is something to hold -/
def member? {α : Type} (key : String) (encode : α → Json) (value : Option α) : List (String × Json) :=
  (value.map fun value => (key, encode value)).toList

/-- a variable definition -/
def ofVariable (v : VariableDefinition) : Json :=
  node "VariableDefinition"
    ([("variable", node "Variable" [("name", name v.name)]), ("type", ofType v.type)]
      ++ member? "defaultValue" ofValue v.default ++ [("directives", .arr [])])

/-- a selection set of nodes -/
def selectionSet (selections : List Json) : Json :=
  node "SelectionSet" [("selections", .arr selections)]

mutual

/-- a selection; a field without sub-selections has no selection set -/
def ofSelection : Selection → Json
  | .field aliasName fieldName arguments directives selections =>
    node "Field"
      (member? "alias" name aliasName
        ++ [("name", name fieldName), ("arguments", ofArguments arguments), ("directives", ofDirectives directives)]
        ++ (match selections with
          | [] => []
          | first :: rest => [("selectionSet", selectionSet (ofSelection first :: ofSelections rest))]))
  | .spread fragment directives =>
    node "FragmentSpread" [("name", name fragment), ("directives", ofDirectives directives)]
  | .inline condition directives selections =>
    node "InlineFragment"
      (member? "typeCondition" namedType condition
        ++ [("directives", ofDirectives directives), ("selectionSet", selectionSet (ofSelections selections))])

/-- the selections of a selection set -/
def ofSelections : List Selection → List Json
  | [] => []
  | selection :: rest => ofSelection selection :: ofSelections rest

end

end Tree

/-- an operation -/
def Operation.tree (op : Operation) : Json :=
  Tree.node "OperationDefinition"
    ([("operation", .str op.kind.keyword)] ++ Tree.member? "name" Tree.name op.name
      ++ [("variableDefinitions", .arr (op.variableDefinitions.map Tree.ofVariable)),
        ("directives", Tree.ofDirectives op.directives),
        ("selectionSet", Tree.selectionSet (Tree.ofSelections op.selections))])

/-- a fragment definition -/
def Fragment.tree (fragment : Fragment) : Json :=
  Tree.node "FragmentDefinition"
    [("name", Tree.name fragment.name), ("typeCondition", Tree.namedType fragment.condition),
      ("directives", Tree.ofDirectives fragment.directives),
      ("selectionSet", Tree.selectionSet (Tree.ofSelections fragment.selections))]

/-- a definition -/
def Definition.tree : Definition → Json
  | operation op => op.tree
  | fragment f => f.tree

/-- a document of definitions -/
def documentTree (definitions : List Json) : Json :=
  Tree.node "Document" [("definitions", .arr definitions)]

end GraphGen
