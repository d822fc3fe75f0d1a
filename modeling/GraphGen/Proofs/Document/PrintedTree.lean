/-
Syntax trees have no numbers.

Nodes are made of strings, booleans and other nodes, and the numbers of a document are written as strings in them. So a tree is
read back from its text in JSON.

Main result:
- `noNumbers_tree`: no definition has a number in its tree, by induction on its types, values and selections.
-/
import GraphGen.Document.Tree
import GraphGen.Proofs.Json.Printing

namespace GraphGen

namespace Tree

open Json

/-! ## Leaves -/

theorem noNumbers_node {members : List (String × Json)} (kind : String) (h : ∀ member ∈ members, NoNumbers member.2) :
    NoNumbers (node kind members) :=
  .obj (List.forall_mem_cons.2 ⟨.str kind, h⟩)

theorem noNumbers_arr_map {α : Type} {encode : α → Json} (h : ∀ value, NoNumbers (encode value)) (values : List α) :
    NoNumbers (arr (values.map encode)) :=
  .arr (List.forall_mem_map.2 fun value _ => h value)

@[simp] theorem noNumbers_str (text : String) : NoNumbers (str text) := .str text

@[simp] theorem noNumbers_bool (b : Bool) : NoNumbers (bool b) := .bool b

@[simp] theorem noNumbers_name (text : String) : NoNumbers (name text) :=
  noNumbers_node _ (by simp)

@[simp] theorem noNumbers_namedType (text : String) : NoNumbers (namedType text) :=
  noNumbers_node _ (by simp)

@[simp] theorem noNumbers_ofType (expr : TypeExpr) : NoNumbers (ofType expr) := by
  induction expr with
  | named text => exact noNumbers_namedType text
  | list item ih => exact noNumbers_node _ (by simp [ih])
  | nonNull inner ih => exact noNumbers_node _ (by simp [ih])

theorem noNumbers_member? {α : Type} {key : String} {encode : α → Json} (h : ∀ value, NoNumbers (encode value))
    (value : Option α) : ∀ member ∈ member? key encode value, NoNumbers member.2 := by
  cases value with
  | none => nofun
  | some value => exact List.forall_mem_singleton.2 (h value)

/-! ## Values -/

mutual

@[simp] theorem noNumbers_ofValue : (value : Value) → NoNumbers (ofValue value)
  | .var _ | .int _ | .float _ | .string _ | .boolean _ | .null | .enum _ => noNumbers_node _ (by simp)
  | .list items => noNumbers_node _ (List.forall_mem_singleton.2 (.arr (noNumbers_ofItems items)))
  | .object fields => noNumbers_node _ (List.forall_mem_singleton.2 (.arr (noNumbers_ofFields fields)))

theorem noNumbers_ofItems : (items : List Value) → ∀ item ∈ ofItems items, NoNumbers item
  | [] => nofun
  | item :: rest => List.forall_mem_cons.2 ⟨noNumbers_ofValue item, noNumbers_ofItems rest⟩

theorem noNumbers_ofFields : (fields : List (String × Value)) → ∀ field ∈ ofFields fields, NoNumbers field
  | [] => nofun
  | (key, value) :: rest => by
    have hfield : NoNumbers (node "ObjectField" [("name", name key), ("value", ofValue value)]) :=
      noNumbers_node _ (by simp [noNumbers_ofValue value])
    exact List.forall_mem_cons.2 ⟨hfield, noNumbers_ofFields rest⟩

end

@[simp] theorem noNumbers_ofArguments (arguments : List (String × Value)) : NoNumbers (ofArguments arguments) :=
  noNumbers_arr_map (fun argument => noNumbers_node _ (by simp)) arguments

@[simp] theorem noNumbers_ofDirectives (directives : List Directive) : NoNumbers (ofDirectives directives) :=
  noNumbers_arr_map (fun d => noNumbers_node _ (by simp)) directives

theorem noNumbers_ofVariable (v : VariableDefinition) : NoNumbers (ofVariable v) := by
  have hvariable : NoNumbers (node "Variable" [("name", name v.name)]) := noNumbers_node _ (by simp)
  refine noNumbers_node _ (List.forall_mem_append.2 ⟨List.forall_mem_append.2 ⟨?_, ?_⟩, ?_⟩)
  · simp [hvariable]
  · exact noNumbers_member? noNumbers_ofValue _
  · exact List.forall_mem_singleton.2 (.arr nofun)

/-! ## Selections -/

theorem noNumbers_selectionSet {selections : List Json} (h : ∀ selection ∈ selections, NoNumbers selection) :
    NoNumbers (selectionSet selections) :=
  noNumbers_node _ (List.forall_mem_singleton.2 (.arr h))

mutual

theorem noNumbers_ofSelection : (selection : Selection) → NoNumbers (ofSelection selection)
  | .field aliasName fieldName arguments directives [] => by
    rw [ofSelection]
    refine noNumbers_node _ (List.forall_mem_append.2 ⟨List.forall_mem_append.2 ⟨?_, by simp⟩, nofun⟩)
    exact noNumbers_member? noNumbers_name _
  | .field aliasName fieldName arguments directives (first :: rest) => by
    have hall : ∀ selection ∈ ofSelection first :: ofSelections rest, NoNumbers selection :=
      noNumbers_ofSelections (first :: rest)
    rw [ofSelection]
    refine noNumbers_node _ (List.forall_mem_append.2 ⟨List.forall_mem_append.2 ⟨?_, by simp⟩, ?_⟩)
    · exact noNumbers_member? noNumbers_name _
    · exact List.forall_mem_singleton.2 (noNumbers_selectionSet hall)
  | .spread fragment directives => noNumbers_node _ (by simp)
  | .inline condition directives selections => by
    have hset := noNumbers_selectionSet (noNumbers_ofSelections selections)
    refine noNumbers_node _ (List.forall_mem_append.2 ⟨noNumbers_member? noNumbers_namedType _, ?_⟩)
    simp [hset]

theorem noNumbers_ofSelections : (selections : List Selection) →
    ∀ selection ∈ ofSelections selections, NoNumbers selection
  | [] => nofun
  | selection :: rest => List.forall_mem_cons.2 ⟨noNumbers_ofSelection selection, noNumbers_ofSelections rest⟩

end

end Tree

/-! ## Definitions -/

/-- **The tree of a definition has no numbers.** -/
theorem noNumbers_tree (d : Definition) : d.tree.NoNumbers := by
  cases d with
  | operation op =>
    have hset := Tree.noNumbers_selectionSet (Tree.noNumbers_ofSelections op.selections)
    have hvariables := Tree.noNumbers_arr_map Tree.noNumbers_ofVariable op.variableDefinitions
    refine Tree.noNumbers_node _ (List.forall_mem_append.2 ⟨List.forall_mem_append.2 ⟨?_, ?_⟩, ?_⟩)
    · simp
    · exact Tree.noNumbers_member? Tree.noNumbers_name _
    · simp [hset, hvariables]
  | fragment f =>
    have hset := Tree.noNumbers_selectionSet (Tree.noNumbers_ofSelections f.selections)
    exact Tree.noNumbers_node _ (by simp [hset])

end GraphGen
