/-
What is shown of a definition.

A reader of a document looks for two things in each of its definitions: what it defines, and which fragments are spread in it.
Both are read off a syntax tree by the members of its nodes alone (`Json.nodeName?`, `Json.spreadNames`), and both are found in a
printed text, which begins with the keyword and the name, and has every spread behind dots.

- `Json.spreadNames`: the names of all nodes of spreads in a value, at any depth.
- `spreadNames_selections`, `spread_printSelections`: by induction on the selections their nodes have the names of their spreads,
  and so has their text. Arguments, directives and types have none.

Main results:
- `shows_tree`: the tree of a definition shows it.
- `printed_print`: so does its printed text.
- `readsAs_documentNode`: the node of a document is read back from its text in JSON.
-/
import GraphGen.Proofs.Document.PrintedTree
import GraphGen.Targets.DocumentConstants
import Mathlib.Data.List.Infix

namespace GraphGen

/-! ## Reading a tree -/

namespace Json

/-- the kind of a node -/
def nodeKind? (node : Json) : Option String :=
  (node.get? "kind").bind asString?

/-- the name that a node has in a node of its own -/
def nodeName? (node : Json) : Option String :=
  ((node.get? "name").bind (get? "value")).bind asString?

/-- the fragment that a node defines -/
def definedFragment? (node : Json) : Option String :=
  if node.nodeKind? = some "FragmentDefinition" then node.nodeName? else none

/-- the fragment that a node spreads -/
def spreadFragment? (node : Json) : Option String :=
  if node.nodeKind? = some "FragmentSpread" then node.nodeName? else none

mutual

/-- the fragments that nodes in the value spread, at any depth -/
def spreadNames : Json → List String
  | arr items => spreadNamesOf items
  | obj members => (spreadFragment? (obj members)).toList ++ spreadNamesIn members
  | _ => []

/-- those that nodes in the items spread -/
def spreadNamesOf : List Json → List String
  | [] => []
  | item :: rest => spreadNames item ++ spreadNamesOf rest

/-- those that nodes in the members spread -/
def spreadNamesIn : List (String × Json) → List String
  | [] => []
  | (_, value) :: rest => spreadNames value ++ spreadNamesIn rest

end

theorem spreadNamesIn_append (members more : List (String × Json)) :
    spreadNamesIn (members ++ more) = spreadNamesIn members ++ spreadNamesIn more := by
  induction members with
  | nil => rfl
  | cons member rest ih => rw [List.cons_append, spreadNamesIn, spreadNamesIn, ih, List.append_assoc]

theorem spreadNamesOf_eq_flatMap (items : List Json) : spreadNamesOf items = items.flatMap spreadNames := by
  induction items with
  | nil => rfl
  | cons item rest ih => rw [spreadNamesOf, ih, List.flatMap_cons]

/-- items without spreads -/
theorem spreadNames_arr_map {α : Type} {encode : α → Json} (h : ∀ value, (encode value).spreadNames = []) (values : List α) :
    (arr (values.map encode)).spreadNames = [] := by
  rw [spreadNames, spreadNamesOf_eq_flatMap, List.flatMap_map]
  simp [h]

end Json

/-! ## Trees without spreads -/

namespace Tree

open Json

/-- a node that is no spread shows the spreads in its members -/
theorem spreadNames_node {kind : String} (hk : kind ≠ "FragmentSpread") (members : List (String × Json)) :
    (node kind members).spreadNames = spreadNamesIn members := by
  have hkind : (node kind members).nodeKind? = some kind := rfl
  have hnone : spreadFragment? (node kind members) = none := by
    rw [spreadFragment?, hkind, if_neg fun h => hk (Option.some.inj h)]
  rw [node] at hnone ⊢
  rw [spreadNames, hnone, spreadNamesIn, spreadNames]
  · rfl
  all_goals nofun

theorem spreadNames_name (text : String) : (name text).spreadNames = [] := by
  rw [name, spreadNames_node (by decide)]
  rfl

theorem spreadNames_namedType (text : String) : (namedType text).spreadNames = [] := by
  rw [namedType, spreadNames_node (by decide), spreadNamesIn, spreadNames_name]
  rfl

theorem spreadNames_ofType (expr : TypeExpr) : (ofType expr).spreadNames = [] := by
  induction expr with
  | named text => exact spreadNames_namedType text
  | list item ih =>
    rw [ofType, spreadNames_node (by decide), spreadNamesIn, ih]
    rfl
  | nonNull inner ih =>
    rw [ofType, spreadNames_node (by decide), spreadNamesIn, ih]
    rfl

theorem spreadNames_variable (text : String) : (node "Variable" [("name", name text)]).spreadNames = [] := by
  rw [spreadNames_node (by decide), spreadNamesIn, spreadNames_name]
  rfl

mutual

theorem spreadNames_ofValue : (value : Value) → (ofValue value).spreadNames = []
  | .var text => spreadNames_variable text
  | .int _ | .float _ | .string _ | .boolean _ | .null | .enum _ => by
    rw [ofValue, spreadNames_node (by decide)]
    rfl
  | .list items => by
    rw [ofValue, spreadNames_node (by decide), spreadNamesIn, spreadNames, spreadNames_ofItems items]
    rfl
  | .object fields => by
    rw [ofValue, spreadNames_node (by decide), spreadNamesIn, spreadNames, spreadNames_ofFields fields]
    rfl

theorem spreadNames_ofItems : (items : List Value) → spreadNamesOf (ofItems items) = []
  | [] => rfl
  | item :: rest => by
    rw [ofItems, spreadNamesOf, spreadNames_ofValue item, spreadNames_ofItems rest]
    rfl

theorem spreadNames_ofFields : (fields : List (String × Value)) → spreadNamesOf (ofFields fields) = []
  | [] => rfl
  | (key, value) :: rest => by
    rw [ofFields, spreadNamesOf, spreadNames_node (by decide), spreadNamesIn, spreadNamesIn, spreadNames_name,
      spreadNames_ofValue value, spreadNames_ofFields rest]
    rfl

end

theorem spreadNames_ofArguments (arguments : List (String × Value)) : (ofArguments arguments).spreadNames = [] := by
  refine spreadNames_arr_map (fun argument => ?_) arguments
  rw [ofArgument, spreadNames_node (by decide), spreadNamesIn, spreadNamesIn, spreadNames_name, spreadNames_ofValue]
  rfl

theorem spreadNames_ofDirectives (directives : List Directive) : (ofDirectives directives).spreadNames = [] := by
  refine spreadNames_arr_map (fun d => ?_) directives
  rw [ofDirective, spreadNames_node (by decide), spreadNamesIn, spreadNamesIn, spreadNames_name, spreadNames_ofArguments]
  rfl

theorem spreadNames_member? {α : Type} (key : String) {encode : α → Json} (h : ∀ value, (encode value).spreadNames = [])
    (value : Option α) : spreadNamesIn (member? key encode value) = [] := by
  cases value with
  | none => rfl
  | some value =>
    have hmember : member? key encode (some value) = [(key, encode value)] := rfl
    rw [hmember, spreadNamesIn, h]
    rfl

theorem spreadNames_ofVariable (v : VariableDefinition) : (ofVariable v).spreadNames = [] := by
  rw [ofVariable, spreadNames_node (by decide), spreadNamesIn_append, spreadNamesIn_append,
    spreadNames_member? _ spreadNames_ofValue, spreadNamesIn, spreadNamesIn, spreadNames_variable, spreadNames_ofType]
  rfl

/-! ## Trees of selections -/

theorem spreadNames_selectionSet (selections : List Json) :
    (selectionSet selections).spreadNames = spreadNamesOf selections := by
  rw [selectionSet, spreadNames_node (by decide), spreadNamesIn, spreadNames]
  exact List.append_nil _

/-- the node of a spread shows it -/
theorem spreadNames_spread (fragment : String) (directives : List Directive) :
    (ofSelection (.spread fragment directives)).spreadNames = [fragment] := by
  have hshown : spreadFragment? (ofSelection (.spread fragment directives)) = some fragment := rfl
  rw [ofSelection, node] at hshown ⊢
  rw [spreadNames, hshown, spreadNamesIn, spreadNamesIn, spreadNamesIn, spreadNames_name, spreadNames_ofDirectives]
  rfl

theorem spreadNames_fieldMembers (fieldName : String) (arguments : List (String × Value)) (directives : List Directive) :
    spreadNamesIn [("name", name fieldName), ("arguments", ofArguments arguments), ("directives", ofDirectives directives)] =
      [] := by
  rw [spreadNamesIn, spreadNamesIn, spreadNamesIn, spreadNames_name, spreadNames_ofArguments, spreadNames_ofDirectives]
  rfl

mutual

/-- **The node of a selection** shows its spreads. -/
theorem spreadNames_ofSelection : (selection : Selection) → (ofSelection selection).spreadNames = selection.spreads
  | .field aliasName fieldName arguments directives [] => by
    rw [ofSelection, spreadNames_node (by decide), spreadNamesIn_append, spreadNamesIn_append,
      spreadNames_member? _ spreadNames_name, spreadNames_fieldMembers]
    rfl
  | .field aliasName fieldName arguments directives (first :: rest) => by
    have hall := spreadNames_selections (first :: rest)
    rw [ofSelections] at hall
    rw [ofSelection, spreadNames_node (by decide), spreadNamesIn_append, spreadNamesIn_append,
      spreadNames_member? _ spreadNames_name, spreadNames_fieldMembers, spreadNamesIn, spreadNames_selectionSet, hall]
    exact List.append_nil _
  | .spread fragment directives => spreadNames_spread fragment directives
  | .inline condition directives selections => by
    rw [ofSelection, spreadNames_node (by decide), spreadNamesIn_append, spreadNames_member? _ spreadNames_namedType,
      spreadNamesIn, spreadNamesIn, spreadNames_ofDirectives, spreadNames_selectionSet, spreadNames_selections selections]
    exact List.append_nil _

theorem spreadNames_selections : (selections : List Selection) →
    spreadNamesOf (ofSelections selections) = Selection.spreadsOf selections
  | [] => rfl
  | selection :: rest => by
    rw [ofSelections, spreadNamesOf, Selection.spreadsOf, spreadNames_ofSelection selection, spreadNames_selections rest]

end

end Tree

/-! ## Texts -/

namespace Printer

theorem infix_within {piece : List Char} {text : String} (h : piece <:+: text.toList) (before after : String) :
    piece <:+: (before ++ text ++ after).toList := by
  rw [String.toList_append, String.toList_append]
  exact h.trans (List.infix_append _ _ _)

theorem append_around (head opening body margin closing : String) :
    head ++ (opening ++ body ++ margin ++ closing) = head ++ opening ++ body ++ (margin ++ closing) := by
  simp only [String.append_assoc]

theorem exists_printSelection_field (level : Nat) (aliasName : Option String) (name : String)
    (arguments : List (String × Value)) (directives : List Directive) (first : Selection) (rest : List Selection) :
    ∃ before, printSelection level (.field aliasName name arguments directives (first :: rest)) =
      before ++ printSelections (level + step) (first :: rest) ++ (spaces level ++ "\x7d\n") := by
  rw [printSelection.eq_def]
  exact ⟨_, append_around _ _ _ _ _⟩

theorem exists_printSelection_inline (level : Nat) (condition : Option String) (directives : List Directive)
    (selections : List Selection) :
    ∃ before, printSelection level (.inline condition directives selections) =
      before ++ printSelections (level + step) selections ++ (spaces level ++ "\x7d\n") := by
  rw [printSelection.eq_def]
  exact ⟨_, String.append_assoc⟩

mutual

/-- **The text of a selection** has its spreads behind dots. -/
theorem spread_printSelection (level : Nat) {fragment : String} : (selection : Selection) → fragment ∈ selection.spreads →
    ("..." ++ fragment).toList <:+: (printSelection level selection).toList
  | .field _ _ _ _ [], h => by cases h
  | .field aliasName name arguments directives (first :: rest), h => by
    obtain ⟨before, htext⟩ := exists_printSelection_field level aliasName name arguments directives first rest
    rw [htext]
    exact infix_within (spread_printSelections (level + step) (first :: rest) h) _ _
  | .spread name directives, h => by
    have htext : printSelection level (.spread name directives) =
        spaces level ++ ("..." ++ name) ++ (printDirectives level directives ++ "\n") := by
      rw [printSelection]
      simp only [String.append_assoc]
    rw [List.mem_singleton.1 h, htext]
    exact infix_within (List.infix_refl _) _ _
  | .inline condition directives selections, h => by
    obtain ⟨before, htext⟩ := exists_printSelection_inline level condition directives selections
    rw [htext]
    exact infix_within (spread_printSelections (level + step) selections h) _ _

theorem spread_printSelections (level : Nat) {fragment : String} : (selections : List Selection) →
    fragment ∈ Selection.spreadsOf selections → ("..." ++ fragment).toList <:+: (printSelections level selections).toList
  | selection :: rest, h => by
    rw [printSelections, String.toList_append (s := printSelection level selection)]
    rcases List.mem_append.1 h with h | h
    · have hin := spread_printSelection level selection h
      exact hin.trans (List.prefix_append _ _).isInfix
    · have hin := spread_printSelections level rest h
      exact hin.trans (List.suffix_append _ _).isInfix

end

end Printer

/-! ## Definitions -/

namespace Definition

/-- the name of the operation or fragment -/
def name? : Definition → Option String
  | operation op => op.name
  | fragment f => some f.name

/-- whether it is the definition of the fragment of that name -/
def defines (name : String) : Definition → Bool
  | operation _ => false
  | fragment f => f.name = name

/-- the kind of its node -/
def nodeKind : Definition → String
  | operation _ => "OperationDefinition"
  | fragment _ => "FragmentDefinition"

/-- its keyword and its name, nothing for a bare selection set -/
def opening : Definition → String
  | operation op =>
    match op.header with
    | .bare => ""
    | .keyword kind none _ _ => kind.keyword
    | .keyword kind (some name) _ _ => kind.keyword ++ (" " ++ name)
  | fragment f => "fragment " ++ f.name ++ " on " ++ f.condition

end Definition

/-- the tree shows what a definition defines, and what is spread in it -/
structure Json.Shows (tree : Json) (d : Definition) : Prop where
  kind : tree.nodeKind? = some d.nodeKind
  name : tree.nodeName? = d.name?
  spreads : tree.spreadNames = d.selections.spreads

/-- the text shows what a definition defines, and what is spread in it -/
structure Definition.Printed (d : Definition) (text : String) : Prop where
  opened : d.opening.toList <+: text.toList
  spreads : ∀ name ∈ d.selections.spreads, ("..." ++ name).toList <:+: text.toList

/-! ## Trees and texts of definitions -/

theorem Tree.spreadNames_variables (declared : List VariableDefinition) :
    (Json.arr (declared.map ofVariable)).spreadNames = [] :=
  Json.spreadNames_arr_map spreadNames_ofVariable declared

/-- the members that operations and fragments end with -/
theorem Tree.spreadNames_body (directives : List Directive) (selections : SelectionSet) :
    Json.spreadNamesIn [("directives", ofDirectives directives), ("selectionSet", selectionSet (ofSelections selections))] =
      selections.spreads := by
  rw [Json.spreadNamesIn, Json.spreadNamesIn, spreadNames_ofDirectives, spreadNames_selectionSet, spreadNames_selections]
  exact List.append_nil _

/-- **The tree of a definition shows it.** -/
theorem shows_tree (d : Definition) : d.tree.Shows d := by
  cases d with
  | operation op =>
    refine ⟨rfl, ?_, ?_⟩
    · obtain ⟨_ | ⟨kind, _ | name, declared, directives⟩, selections, position⟩ := op <;> rfl
    · rw [Definition.tree, Operation.tree, Tree.spreadNames_node (by decide), Json.spreadNamesIn_append,
        Json.spreadNamesIn_append, Tree.spreadNames_member? _ Tree.spreadNames_name, Json.spreadNamesIn,
        Json.spreadNamesIn, Json.spreadNamesIn, Tree.spreadNames_variables, Tree.spreadNames_body]
      rfl
  | fragment f =>
    refine ⟨rfl, rfl, ?_⟩
    rw [Definition.tree, Fragment.tree, Tree.spreadNames_node (by decide), Json.spreadNamesIn, Json.spreadNamesIn,
      Tree.spreadNames_name, Tree.spreadNames_namedType, Tree.spreadNames_body]
    rfl

/-- the name stands behind the keyword, and what variables are printed stand behind it -/
theorem exists_head (op : Operation) {kind : OperationKind} {name : Option String} {declared : List VariableDefinition}
    {directives : List Directive} (h : op.header = .keyword kind name declared directives) :
    ∃ more, op.print =
      (Definition.operation op).opening ++ more ++ Printer.printDirectives 0 directives ++ " " ++ Printer.printBody op.selections := by
  rw [Operation.print, Definition.opening, h]
  cases name with
  | none =>
    cases kind with
    | subscription => exact ⟨"", rfl⟩
    | query => exact ⟨Printer.printVariables declared, by simp only [String.empty_append]⟩
    | mutation => exact ⟨Printer.printVariables declared, by simp only [String.empty_append]⟩
  | some name =>
    cases kind with
    | subscription =>
      refine ⟨if declared.isEmpty then "" else "(" ++ String.join (declared.map Printer.printVariable) ++ ")", ?_⟩
      simp only [Printer.printSubscriptionHead, String.append_assoc]
    | query => exact ⟨Printer.printVariables declared, by simp only [String.append_assoc]⟩
    | mutation => exact ⟨Printer.printVariables declared, by simp only [String.append_assoc]⟩

/-- an operation is printed with its keyword and its name first, and its selections between braces -/
theorem print_operation (op : Operation) : ∃ more, op.print =
    (Definition.operation op).opening ++ more ++ Printer.printSelections Printer.step op.selections ++ "\x7d\n" := by
  cases h : op.header with
  | bare =>
    refine ⟨"\x7b\n", ?_⟩
    rw [Operation.print, Definition.opening, h]
    rfl
  | keyword kind name declared directives =>
    obtain ⟨more, hprint⟩ := exists_head op h
    refine ⟨more ++ Printer.printDirectives 0 directives ++ " \x7b\n", ?_⟩
    rw [hprint, Printer.printBody]
    simp only [String.append_assoc]
    rfl

/-- so is a definition -/
theorem print_eq (d : Definition) : ∃ more, d.print =
    d.opening ++ more ++ Printer.printSelections Printer.step d.selections ++ "\x7d\n" := by
  cases d with
  | operation op => exact print_operation op
  | fragment f =>
    refine ⟨Printer.printDirectives 0 f.directives ++ " \x7b\n", ?_⟩
    rw [Definition.print, Fragment.print, Printer.printBody, Definition.opening]
    simp only [String.append_assoc]
    rfl

theorem trimEnd_brace (text : String) : Text.trimEnd (text ++ "\x7d\n") = text ++ "\x7d" := by
  have hblank : Text.isBlank '\n' = true ∧ Text.isBlank '\x7d' = false := by decide
  have htext : (text ++ "\x7d\n").toList = text.toList ++ ['\x7d', '\n'] := String.toList_append
  rw [Text.trimEnd, Text.dropBlankEnd, htext]
  simp [hblank]

/-- **The printed text of a definition shows it.** -/
theorem printed_print (d : Definition) : d.Printed (Text.trimEnd d.print) := by
  obtain ⟨more, htext⟩ := print_eq d
  rw [htext, trimEnd_brace]
  refine ⟨?_, fun name hname => ?_⟩
  · simp only [String.append_assoc, String.toList_append]
    exact List.prefix_append _ _
  · exact Printer.infix_within (Printer.spread_printSelections _ _ hname) _ _

/-! ## Documents -/

/-- the node of a document with the definitions -/
def documentNode (held : List Definition) : Json :=
  .obj [("kind", .str "Document"), ("definitions", .arr (held.map Definition.tree))]

namespace Json

/-- the fragments that a document defines, one for each definition -/
def definedFragments (document : Json) : List String :=
  match document.get? "definitions" with
  | some (arr nodes) => nodes.filterMap definedFragment?
  | _ => []

/-- a document defines what is spread in it, and nothing twice -/
structure Closed (document : Json) : Prop where
  once : document.definedFragments.Nodup
  defined : ∀ name ∈ document.spreadNames, name ∈ document.definedFragments

end Json

/-- **The node of a document is read back** from its text. -/
theorem readsAs_documentNode (held : List Definition) : Json.ReadsAs (documentNode held).compress (documentNode held) := by
  have htrees : Json.NoNumbers (.arr (held.map Definition.tree)) := Tree.noNumbers_arr_map noNumbers_tree held
  exact Json.readsAs_compress (Tree.noNumbers_node "Document" (List.forall_mem_singleton.2 htrees))

/-- a node defines what is shown of its definition -/
theorem definedFragment?_tree (name : String) (d : Definition) :
    d.tree.definedFragment? = some name ↔ d.defines name = true := by
  rw [Json.definedFragment?, (shows_tree d).kind, (shows_tree d).name]
  cases d <;> simp [Definition.nodeKind, Definition.name?, Definition.defines]

theorem count_definedFragments (name : String) (held : List Definition) :
    (documentNode held).definedFragments.count name = held.countP (Definition.defines name) := by
  have hdefined : (documentNode held).definedFragments = (held.map Definition.tree).filterMap Json.definedFragment? := rfl
  rw [hdefined, List.count_filterMap, List.countP_map]
  refine List.countP_congr fun d _ => ?_
  rw [Function.comp_apply, beq_iff_eq]
  exact definedFragment?_tree name d

theorem mem_spreadNames_documentNode {name : String} {held : List Definition} :
    name ∈ (documentNode held).spreadNames ↔ ∃ d ∈ held, name ∈ d.selections.spreads := by
  have hnode : documentNode held = Tree.node "Document" [("definitions", .arr (held.map Definition.tree))] := rfl
  rw [hnode, Tree.spreadNames_node (by decide), Json.spreadNamesIn, Json.spreadNames, Json.spreadNamesOf_eq_flatMap]
  simp [Json.spreadNamesIn, (shows_tree _).spreads]

end GraphGen
