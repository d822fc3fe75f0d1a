/-
Syntax trees lose nothing.

Two JSON values are the same when they differ in the order of members only (`Json.Same`). A node that is the same as another
has its kind, and the members of both under one name are the same, or there is none in both (`Same.member`). From the leaves up
it follows that what has the same tree is the same itself: types, values, arguments, directives, variables and selections.

A double that is no number has no written form of its own, so that definitions with one in them are left out (`NoNaN`).

Main result:
- `trees_injective`: operations with the same tree have the same kind, name, variables, directives and selections, and
  fragments with the same tree are the same.
-/
import GraphGen.Document.Tree
import GraphGen.Proofs.Decimal.Display
import Mathlib.Data.List.Forall2
import Mathlib.Data.Option.Defs

namespace GraphGen

/-! ## The same JSON -/

namespace Json

/-- the values differ in the order of members only -/
inductive Same : Json → Json → Prop where
  | null : Same .null .null
  | bool (value : Bool) : Same (.bool value) (.bool value)
  | int (value : Int) : Same (.int value) (.int value)
  | real (value : Binary64) : Same (.real value) (.real value)
  | str (value : String) : Same (.str value) (.str value)
  | arr {items others : List Json} (h : List.Forall₂ Same items others) : Same (.arr items) (.arr others)
  | obj {members others : List (String × Json)} (h : ∀ key, Option.Rel Same (members.lookup key) (others.lookup key)) :
      Same (.obj members) (.obj others)

mutual

theorem Same.refl : (value : Json) → Same value value
  | .null => .null
  | .bool b => .bool b
  | .int n => .int n
  | .real d => .real d
  | .str s => .str s
  | .arr items => .arr (Same.refl_items items)
  | .obj members => .obj (Same.refl_members members)

theorem Same.refl_items : (items : List Json) → List.Forall₂ Same items items
  | [] => .nil
  | item :: rest => .cons (Same.refl item) (Same.refl_items rest)

theorem Same.refl_members : (members : List (String × Json)) → ∀ key,
    Option.Rel Same (members.lookup key) (members.lookup key)
  | [], _ => .none
  | (name, value) :: rest, key => by
    rw [List.lookup_cons]
    split
    · exact .some (Same.refl value)
    · exact Same.refl_members rest key

end

theorem Same.str_eq {text other : String} (h : Same (.str text) (.str other)) : text = other := by
  cases h
  rfl

theorem Same.bool_eq {b other : Bool} (h : Same (.bool b) (.bool other)) : b = other := by
  cases h
  rfl

theorem Same.items {items others : List Json} (h : Same (.arr items) (.arr others)) : List.Forall₂ Same items others := by
  cases h
  assumption

/-- what is the same has the same members -/
theorem Same.member {value other : Json} (h : Same value other) (key : String) :
    Option.Rel Same (value.get? key) (other.get? key) := by
  cases h with
  | obj h => exact h key
  | _ => exact .none

theorem Same.at_key {value other first second : Json} (h : Same value other) (key : String)
    (hfirst : value.get? key = some first) (hsecond : other.get? key = some second) : Same first second := by
  have hmember := h.member key
  rw [hfirst, hsecond] at hmember
  cases hmember with
  | some hmember => exact hmember

end Json

/-! ## Doubles in definitions -/

mutual

/-- the doubles in a value -/
def Value.floats : Value → List Binary64
  | .float d => [d]
  | .list items => Value.floatsOfItems items
  | .object fields => Value.floatsOfFields fields
  | _ => []

/-- the doubles in the items of a list -/
def Value.floatsOfItems : List Value → List Binary64
  | [] => []
  | item :: rest => item.floats ++ Value.floatsOfItems rest

/-- the doubles in the fields of an object -/
def Value.floatsOfFields : List (String × Value) → List Binary64
  | [] => []
  | (_, value) :: rest => value.floats ++ Value.floatsOfFields rest

end

/-- the doubles in directives -/
def directiveFloats (directives : List Directive) : List Binary64 :=
  directives.flatMap fun d => Value.floatsOfFields d.arguments

mutual

/-- the doubles in a selection -/
def Selection.floats : Selection → List Binary64
  | .field _ _ arguments directives selections =>
    Value.floatsOfFields arguments ++ directiveFloats directives ++ Selection.floatsOf selections
  | .spread _ directives => directiveFloats directives
  | .inline _ directives selections => directiveFloats directives ++ Selection.floatsOf selections

/-- the doubles in selections -/
def Selection.floatsOf : List Selection → List Binary64
  | [] => []
  | selection :: rest => selection.floats ++ Selection.floatsOf rest

end

/-- the doubles in an operation -/
def Operation.floats (op : Operation) : List Binary64 :=
  (op.variableDefinitions.flatMap fun v => (v.default.map Value.floats).getD []) ++ directiveFloats op.directives ++
    Selection.floatsOf op.selections

/-- the doubles in a fragment -/
def Fragment.floats (fragment : Fragment) : List Binary64 :=
  directiveFloats fragment.directives ++ Selection.floatsOf fragment.selections

/-- all of them are numbers -/
def NoNaN (floats : List Binary64) : Prop :=
  ∀ d ∈ floats, d.isNumber = true

instance (floats : List Binary64) : Decidable (NoNaN floats) :=
  inferInstanceAs (Decidable (∀ d ∈ floats, d.isNumber = true))

theorem noNaN_append {first second : List Binary64} : NoNaN (first ++ second) ↔ NoNaN first ∧ NoNaN second :=
  List.forall_mem_append

namespace Json.Same

variable {kind otherKind : String} {members others : List (String × Json)}

/-- nodes that are the same are of the same kind -/
theorem node_kind (h : Same (Tree.node kind members) (Tree.node otherKind others)) : kind = otherKind :=
  (h.at_key "kind" rfl rfl).str_eq

end Json.Same

namespace Tree

open Json (Same)

/-! ## Texts and lists -/

theorem eq_of_intText {m n : Int} (h : toString m = toString n) : m = n := by
  have hdigits : ∀ {a b : Nat}, a.repr.toList = b.repr.toList → a = b := by
    intro a b hrepr
    rw [Nat.toList_repr, Nat.toList_repr] at hrepr
    rw [← @Nat.ofDigitChars_ten_toDigits a, hrepr, Nat.ofDigitChars_ten_toDigits]
  -- a minus sign is no digit
  have hminus : ∀ a b : Nat, a.repr.toList ≠ '-' :: b.repr.toList := by
    intro a b hrepr
    rw [Nat.toList_repr] at hrepr
    have hdigit := Nat.isDigit_of_mem_toDigits (by decide) (by decide) (hrepr.symm ▸ List.mem_cons_self)
    exact absurd hdigit (by decide)
  have hchars := congrArg String.toList h
  rw [Int.toString_eq_repr, Int.toString_eq_repr, Int.repr_eq_if, Int.repr_eq_if] at hchars
  split_ifs at hchars with hm hn hn
  · have := hdigits hchars
    omega
  · exact absurd hchars (by rw [String.toList_append]; exact hminus _ _)
  · exact absurd hchars.symm (by rw [String.toList_append]; exact hminus _ _)
  · rw [String.toList_append, String.toList_append] at hchars
    have := hdigits (List.append_cancel_left hchars)
    omega

/-- lists are the same when their elements are told apart by what they are mapped to -/
theorem eq_of_same_map {α : Type} {f : α → Json} {first second : List α}
    (hf : ∀ x ∈ first, ∀ y ∈ second, Same (f x) (f y) → x = y)
    (h : List.Forall₂ Same (first.map f) (second.map f)) : first = second := by
  rw [List.forall₂_map_left_iff, List.forall₂_map_right_iff] at h
  induction h with
  | nil => rfl
  | cons hx _ ih =>
    rw [hf _ List.mem_cons_self _ List.mem_cons_self hx,
      ih fun x hx y hy => hf x (List.mem_cons_of_mem _ hx) y (List.mem_cons_of_mem _ hy)]

/-- what stands under a name, or need not be there, is the same when it is told apart by what it is mapped to -/
theorem eq_of_same_member {α : Type} {f : α → Json} {first second : Option α} {value other : Json}
    (h : Same value other) (key : String) (hfirst : value.get? key = first.map f) (hsecond : other.get? key = second.map f)
    (hf : ∀ x ∈ first, ∀ y ∈ second, Same (f x) (f y) → x = y) : first = second := by
  have hmember := h.member key
  rw [hfirst, hsecond] at hmember
  cases first <;> cases second <;> cases hmember
  · rfl
  · rename_i x y hsame
    rw [hf x rfl y rfl hsame]

theorem eq_of_same_name {text other : String} (h : Same (name text) (name other)) : text = other :=
  (h.at_key "value" rfl rfl).str_eq

theorem eq_of_same_namedType {text other : String} (h : Same (namedType text) (namedType other)) : text = other :=
  eq_of_same_name (h.at_key "name" rfl rfl)

/-! ## Types and values -/

theorem eq_of_same_type {type other : TypeExpr} (h : Same (ofType type) (ofType other)) : type = other := by
  induction type generalizing other with
  | named text =>
    cases other with
    | named otherText => rw [eq_of_same_namedType h]
    | _ => exact absurd h.node_kind (by decide)
  | list item ih =>
    cases other with
    | list otherItem => rw [ih (h.at_key "type" rfl rfl)]
    | _ => exact absurd h.node_kind (by decide)
  | nonNull inner ih =>
    cases other with
    | nonNull otherInner => rw [ih (h.at_key "type" rfl rfl)]
    | _ => exact absurd h.node_kind (by decide)

mutual

theorem eq_of_same_value : (value other : Value) → NoNaN value.floats → NoNaN other.floats →
    Same (ofValue value) (ofValue other) → value = other
  | .var text, other, _, _, h => by
    cases other with
    | var otherText => rw [eq_of_same_name (h.at_key "name" rfl rfl)]
    | _ => exact absurd h.node_kind (by decide)
  | .int n, other, _, _, h => by
    cases other with
    | int m => rw [Int64.toInt_inj.1 (eq_of_intText (h.at_key "value" rfl rfl).str_eq)]
    | _ => exact absurd h.node_kind (by decide)
  | .float d, other, hd, he, h => by
    cases other with
    | float e =>
      have hdisplay := (h.at_key "value" rfl rfl).str_eq
      rw [Binary64.display_injective (hd d (List.mem_singleton_self d)) (he e (List.mem_singleton_self e)) hdisplay]
    | _ => exact absurd h.node_kind (by decide)
  | .string s, other, _, _, h => by
    cases other with
    | string t => rw [(h.at_key "value" rfl rfl).str_eq]
    | _ => exact absurd h.node_kind (by decide)
  | .boolean b, other, _, _, h => by
    cases other with
    | boolean c => rw [(h.at_key "value" rfl rfl).bool_eq]
    | _ => exact absurd h.node_kind (by decide)
  | .null, other, _, _, h => by
    cases other with
    | null => rfl
    | _ => exact absurd h.node_kind (by decide)
  | .enum text, other, _, _, h => by
    cases other with
    | enum otherText => rw [(h.at_key "value" rfl rfl).str_eq]
    | _ => exact absurd h.node_kind (by decide)
  | .list items, other, hd, he, h => by
    cases other with
    | list others => rw [eq_of_same_items items others hd he (h.at_key "values" rfl rfl).items]
    | _ => exact absurd h.node_kind (by decide)
  | .object fields, other, hd, he, h => by
    cases other with
    | object others => rw [eq_of_same_fields fields others hd he (h.at_key "fields" rfl rfl).items]
    | _ => exact absurd h.node_kind (by decide)

theorem eq_of_same_items : (items others : List Value) → NoNaN (Value.floatsOfItems items) →
    NoNaN (Value.floatsOfItems others) → List.Forall₂ Same (ofItems items) (ofItems others) → items = others
  | [], [], _, _, _ => rfl
  | item :: rest, other :: others, hd, he, .cons h hrest => by
    obtain ⟨hd, hds⟩ := noNaN_append.1 hd
    obtain ⟨he, hes⟩ := noNaN_append.1 he
    rw [eq_of_same_value item other hd he h, eq_of_same_items rest others hds hes hrest]

theorem eq_of_same_fields : (fields others : List (String × Value)) → NoNaN (Value.floatsOfFields fields) →
    NoNaN (Value.floatsOfFields others) → List.Forall₂ Same (ofFields fields) (ofFields others) → fields = others
  | [], [], _, _, _ => rfl
  | (key, value) :: rest, (otherKey, other) :: others, hd, he, .cons h hrest => by
    obtain ⟨hd, hds⟩ := noNaN_append.1 hd
    obtain ⟨he, hes⟩ := noNaN_append.1 he
    rw [eq_of_same_name (h.at_key "name" rfl rfl), eq_of_same_value value other hd he (h.at_key "value" rfl rfl),
      eq_of_same_fields rest others hds hes hrest]

end

/-! ## Arguments, directives and variables -/

theorem noNaN_of_mem_fields {fields : List (String × Value)} (h : NoNaN (Value.floatsOfFields fields)) :
    ∀ field ∈ fields, NoNaN field.2.floats := by
  induction fields with
  | nil => simp
  | cons field rest ih =>
    obtain ⟨hfield, hrest⟩ := noNaN_append.1 h
    exact List.forall_mem_cons.2 ⟨hfield, ih hrest⟩

theorem noNaN_flatMap {α : Type} {f : α → List Binary64} {l : List α} : NoNaN (l.flatMap f) ↔ ∀ x ∈ l, NoNaN (f x) := by
  simp only [NoNaN, List.mem_flatMap, forall_exists_index, and_imp]
  exact ⟨fun h x hx d hd => h d x hx hd, fun h d x hx hd => h x hx d hd⟩

theorem eq_of_same_arguments {first second : List (String × Value)} (hf : NoNaN (Value.floatsOfFields first))
    (hs : NoNaN (Value.floatsOfFields second)) (h : Same (ofArguments first) (ofArguments second)) : first = second := by
  refine eq_of_same_map (fun x hx y hy hxy => ?_) h.items
  have hvalue := eq_of_same_value x.2 y.2 (noNaN_of_mem_fields hf x hx) (noNaN_of_mem_fields hs y hy)
    (hxy.at_key "value" rfl rfl)
  exact Prod.ext (eq_of_same_name (hxy.at_key "name" rfl rfl)) hvalue

theorem eq_of_same_directives {first second : List Directive} (hf : NoNaN (directiveFloats first))
    (hs : NoNaN (directiveFloats second)) (h : Same (ofDirectives first) (ofDirectives second)) : first = second := by
  refine eq_of_same_map (fun x hx y hy hxy => ?_) h.items
  have hname := eq_of_same_name (hxy.at_key "name" rfl rfl)
  have harguments := eq_of_same_arguments (noNaN_flatMap.1 hf x hx) (noNaN_flatMap.1 hs y hy)
    (hxy.at_key "arguments" rfl rfl)
  cases x
  cases y
  congr

/-- what a definition of a variable holds -/
theorem get?_ofVariable (v : VariableDefinition) :
    (ofVariable v).get? "variable" = some (node "Variable" [("name", name v.name)]) ∧
      (ofVariable v).get? "type" = some (ofType v.type) ∧ (ofVariable v).get? "defaultValue" = v.default.map ofValue := by
  obtain ⟨text, type, default⟩ := v
  cases default <;> exact ⟨rfl, rfl, rfl⟩

theorem eq_of_same_variables {first second : List VariableDefinition}
    (hf : NoNaN (first.flatMap fun v => (v.default.map Value.floats).getD []))
    (hs : NoNaN (second.flatMap fun v => (v.default.map Value.floats).getD []))
    (h : List.Forall₂ Same (first.map ofVariable) (second.map ofVariable)) : first = second := by
  refine eq_of_same_map (fun x hx y hy hxy => ?_) h
  obtain ⟨hvariable, htype, hdefault⟩ := get?_ofVariable x
  obtain ⟨hvariable', htype', hdefault'⟩ := get?_ofVariable y
  have hname := eq_of_same_name ((hxy.at_key "variable" hvariable hvariable').at_key "name" rfl rfl)
  have htypes := eq_of_same_type (hxy.at_key "type" htype htype')
  have hdefaults : x.default = y.default := by
    refine eq_of_same_member hxy "defaultValue" hdefault hdefault' fun value hv other ho => ?_
    refine eq_of_same_value value other ?_ ?_
    · simpa [Option.mem_def.1 hv] using noNaN_flatMap.1 hf x hx
    · simpa [Option.mem_def.1 ho] using noNaN_flatMap.1 hs y hy
  cases x
  cases y
  congr

/-! ## Selections -/

/-- the kind of the node of a selection -/
def selectionKind : Selection → String
  | .field .. => "Field"
  | .spread .. => "FragmentSpread"
  | .inline .. => "InlineFragment"

theorem selectionKind_eq_of_same {selection other : Selection} (h : Same (ofSelection selection) (ofSelection other)) :
    selectionKind selection = selectionKind other := by
  have hkind : ∀ s : Selection, (ofSelection s).get? "kind" = some (.str (selectionKind s)) := by
    intro s
    cases s with
    | field _ _ _ _ selections => cases selections <;> rfl
    | _ => rfl
  exact (h.at_key "kind" (hkind selection) (hkind other)).str_eq

/-- what a field holds -/
theorem get?_ofField (aliasName : Option String) (fieldName : String) (arguments : List (String × Value))
    (directives : List Directive) (selections : List Selection) :
    let tree := ofSelection (.field aliasName fieldName arguments directives selections)
    tree.get? "alias" = aliasName.map name ∧ tree.get? "name" = some (name fieldName) ∧
      tree.get? "arguments" = some (ofArguments arguments) ∧ tree.get? "directives" = some (ofDirectives directives) ∧
      tree.get? "selectionSet" = if selections = [] then none else some (selectionSet (ofSelections selections)) := by
  cases aliasName <;> cases selections <;> exact ⟨rfl, rfl, rfl, rfl, rfl⟩

/-- what an inline fragment holds -/
theorem get?_ofInline (condition : Option String) (directives : List Directive) (selections : List Selection) :
    let tree := ofSelection (.inline condition directives selections)
    tree.get? "typeCondition" = condition.map namedType ∧ tree.get? "directives" = some (ofDirectives directives) ∧
      tree.get? "selectionSet" = some (selectionSet (ofSelections selections)) := by
  cases condition <;> exact ⟨rfl, rfl, rfl⟩

theorem items_of_selectionSet {selections others : List Json} (h : Same (selectionSet selections) (selectionSet others)) :
    List.Forall₂ Same selections others :=
  (h.at_key "selections" rfl rfl).items

mutual

theorem eq_of_same_selection : (selection other : Selection) → NoNaN selection.floats → NoNaN other.floats →
    Same (ofSelection selection) (ofSelection other) → selection = other
  | .field aliasName fieldName arguments directives selections, other, hd, he, h => by
    cases other with
    | field otherAlias otherName otherArguments otherDirectives otherSelections =>
      obtain ⟨halias, hname, harguments, hdirectives, hselections⟩ :=
        get?_ofField aliasName fieldName arguments directives selections
      obtain ⟨halias', hname', harguments', hdirectives', hselections'⟩ :=
        get?_ofField otherAlias otherName otherArguments otherDirectives otherSelections
      obtain ⟨hd, hds⟩ := noNaN_append.1 hd
      obtain ⟨hda, hdd⟩ := noNaN_append.1 hd
      obtain ⟨he, hes⟩ := noNaN_append.1 he
      obtain ⟨hea, hed⟩ := noNaN_append.1 he
      have haliases := eq_of_same_member h "alias" halias halias' fun _ _ _ _ => eq_of_same_name
      have hsets : selections = otherSelections := by
        have hmember := h.member "selectionSet"
        rw [hselections, hselections'] at hmember
        split_ifs at hmember with hnone hnone' hnone'
        · rw [hnone, hnone']
        · cases hmember
        · cases hmember
        · cases hmember with
          | some hset => exact eq_of_same_selections selections otherSelections hds hes (items_of_selectionSet hset)
      rw [haliases, eq_of_same_name (h.at_key "name" hname hname'),
        eq_of_same_arguments hda hea (h.at_key "arguments" harguments harguments'),
        eq_of_same_directives hdd hed (h.at_key "directives" hdirectives hdirectives'), hsets]
    | _ => exact absurd (selectionKind_eq_of_same h) (by simp [selectionKind])
  | .spread fragment directives, other, hd, he, h => by
    cases other with
    | spread otherFragment otherDirectives =>
      rw [eq_of_same_name (h.at_key "name" rfl rfl), eq_of_same_directives hd he (h.at_key "directives" rfl rfl)]
    | _ => exact absurd (selectionKind_eq_of_same h) (by simp [selectionKind])
  | .inline condition directives selections, other, hd, he, h => by
    cases other with
    | inline otherCondition otherDirectives otherSelections =>
      obtain ⟨hcondition, hdirectives, hselections⟩ := get?_ofInline condition directives selections
      obtain ⟨hcondition', hdirectives', hselections'⟩ := get?_ofInline otherCondition otherDirectives otherSelections
      obtain ⟨hdd, hds⟩ := noNaN_append.1 hd
      obtain ⟨hed, hes⟩ := noNaN_append.1 he
      have hconditions := eq_of_same_member h "typeCondition" hcondition hcondition' fun _ _ _ _ => eq_of_same_namedType
      have hset := items_of_selectionSet (h.at_key "selectionSet" hselections hselections')
      rw [hconditions, eq_of_same_directives hdd hed (h.at_key "directives" hdirectives hdirectives'),
        eq_of_same_selections selections otherSelections hds hes hset]
    | _ => exact absurd (selectionKind_eq_of_same h) (by simp [selectionKind])

theorem eq_of_same_selections : (selections others : List Selection) → NoNaN (Selection.floatsOf selections) →
    NoNaN (Selection.floatsOf others) → List.Forall₂ Same (ofSelections selections) (ofSelections others) →
    selections = others
  | [], [], _, _, _ => rfl
  | selection :: rest, other :: others, hd, he, .cons h hrest => by
    obtain ⟨hd, hds⟩ := noNaN_append.1 hd
    obtain ⟨he, hes⟩ := noNaN_append.1 he
    rw [eq_of_same_selection selection other hd he h, eq_of_same_selections rest others hds hes hrest]

end

end Tree

/-! ## Definitions -/

/-- the operations do the same: only their places differ, and whether a query without a name is written bare -/
structure Operation.Same (op other : Operation) : Prop where
  kind : op.kind = other.kind
  name : op.name = other.name
  variableDefinitions : op.variableDefinitions = other.variableDefinitions
  directives : op.directives = other.directives
  selections : op.selections = other.selections

namespace Tree

theorem keyword_injective : Function.Injective OperationKind.keyword := by
  intro first second h
  cases first <;> cases second <;> first | rfl | exact absurd h (by decide)

/-- what the node of an operation holds -/
theorem get?_operation (op : Operation) :
    op.tree.get? "operation" = some (.str op.kind.keyword) ∧ op.tree.get? "name" = op.name.map name ∧
      op.tree.get? "variableDefinitions" = some (.arr (op.variableDefinitions.map ofVariable)) ∧
      op.tree.get? "directives" = some (ofDirectives op.directives) ∧
      op.tree.get? "selectionSet" = some (selectionSet (ofSelections op.selections)) := by
  rw [Operation.tree]
  cases op.name <;> exact ⟨rfl, rfl, rfl, rfl, rfl⟩

/-- operations with the same tree do the same -/
theorem same_operation {op other : Operation} (hf : NoNaN op.floats) (hs : NoNaN other.floats)
    (h : Json.Same op.tree other.tree) : op.Same other := by
  obtain ⟨hkind, hname, hvariables, hdirectives, hselections⟩ := get?_operation op
  obtain ⟨hkind', hname', hvariables', hdirectives', hselections'⟩ := get?_operation other
  obtain ⟨hf, hfs⟩ := noNaN_append.1 hf
  obtain ⟨hfv, hfd⟩ := noNaN_append.1 hf
  obtain ⟨hs, hss⟩ := noNaN_append.1 hs
  obtain ⟨hsv, hsd⟩ := noNaN_append.1 hs
  refine ⟨?_, ?_, ?_, ?_, ?_⟩
  · exact keyword_injective (h.at_key "operation" hkind hkind').str_eq
  · exact eq_of_same_member h "name" hname hname' fun _ _ _ _ => eq_of_same_name
  · exact eq_of_same_variables hfv hsv (h.at_key "variableDefinitions" hvariables hvariables').items
  · exact eq_of_same_directives hfd hsd (h.at_key "directives" hdirectives hdirectives')
  · exact eq_of_same_selections _ _ hfs hss (items_of_selectionSet (h.at_key "selectionSet" hselections hselections'))

/-- the tree of an operation is made from what it does -/
theorem tree_eq_of_same {op other : Operation} (h : op.Same other) : op.tree = other.tree := by
  rw [Operation.tree, Operation.tree, h.kind, h.name, h.variableDefinitions, h.directives, h.selections]

/-- fragments with the same tree are the same -/
theorem eq_of_same_fragment {fragment other : Fragment} (hf : NoNaN fragment.floats) (hs : NoNaN other.floats)
    (h : Json.Same fragment.tree other.tree) : fragment = other := by
  obtain ⟨hfd, hfs⟩ := noNaN_append.1 hf
  obtain ⟨hsd, hss⟩ := noNaN_append.1 hs
  have hname := eq_of_same_name (h.at_key "name" rfl rfl)
  have hcondition := eq_of_same_namedType (h.at_key "typeCondition" rfl rfl)
  have hdirectives := eq_of_same_directives hfd hsd (h.at_key "directives" rfl rfl)
  have hselections := eq_of_same_selections _ _ hfs hss (items_of_selectionSet (h.at_key "selectionSet" rfl rfl))
  cases fragment
  cases other
  congr

/-- **Syntax trees lose nothing.** Two operations whose doubles are numbers have the same tree exactly when they have the same
kind, name, variables, directives and selections, and two such fragments when they are the same. -/
theorem trees_injective :
    (∀ op other : Operation, NoNaN op.floats → NoNaN other.floats → (Json.Same op.tree other.tree ↔ op.Same other)) ∧
      ∀ fragment other : Fragment, NoNaN fragment.floats → NoNaN other.floats →
        (Json.Same fragment.tree other.tree ↔ fragment = other) := by
  refine ⟨fun op other hf hs => ⟨same_operation hf hs, fun h => ?_⟩,
    fun fragment other hf hs => ⟨eq_of_same_fragment hf hs, fun h => ?_⟩⟩
  · rw [tree_eq_of_same h]
    exact .refl _
  · rw [h]
    exact .refl _

/-- a query for the heroes of height 1.5, under a header and on a place -/
def heroQuery (header : OperationHeader) (position : Position) : Operation :=
  ⟨header, [.field none "hero" [("height", .float ⟨0x3ff8000000000000⟩)] [] [.spread "Bits" []]], position⟩

/-- a fragment of one field -/
def heroBits (field : String) : Fragment :=
  ⟨"Bits", "Hero", [], [.field none field [] [] []]⟩

/-- a bare query has the tree of the same query after its keyword, and fragments with other fields have other trees -/
theorem trees_of_hero :
    NoNaN (heroQuery .bare ⟨1, 1⟩).floats ∧ NoNaN (heroQuery (.keyword .query none [] []) ⟨2, 5⟩).floats ∧
      NoNaN (heroBits "id").floats ∧ NoNaN (heroBits "name").floats ∧
      Json.Same (heroQuery .bare ⟨1, 1⟩).tree (heroQuery (.keyword .query none [] []) ⟨2, 5⟩).tree ∧
      ¬ Json.Same (heroBits "id").tree (heroBits "name").tree := by
  have hbare : NoNaN (heroQuery .bare ⟨1, 1⟩).floats := by decide +kernel
  have hkeyword : NoNaN (heroQuery (.keyword .query none [] []) ⟨2, 5⟩).floats := by decide +kernel
  have hid : NoNaN (heroBits "id").floats := by decide +kernel
  have hname : NoNaN (heroBits "name").floats := by decide +kernel
  refine ⟨hbare, hkeyword, hid, hname, ?_, fun h => ?_⟩
  · exact (trees_injective.1 _ _ hbare hkeyword).2 ⟨rfl, rfl, rfl, rfl, rfl⟩
  · have hfragment := (trees_injective.2 _ _ hid hname).1 h
    injection hfragment with _ _ _ hselections
    simp at hselections

end Tree

end GraphGen
