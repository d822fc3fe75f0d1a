/-
Reading arguments out of a map.

A class of an input type has a constructor that takes a map of arguments. What stands there for a field are maps and labels, in
lists as deep as the type says, and the expression for the field has to make objects and constants of them. Here these
expressions are taken apart: `readArgument` writes an expression (`render_expression`), and `eval` says what it gives.

- `HostValue`: what can stand in a map of arguments, and what is made of it.
- `Conforms`: a value that a type admits. `Converted`: a value with every innermost item converted.
- `ConvertsUpTo`: maps are converted in so many lists, labels outside of all, and the rest is cast. From this alone it follows for
  which types every innermost item is converted (`inputObject_iff`, `enum_iff`), and for which the entry is only cast
  (`casts_iff`).
- `JavaClasses.convertsUpTo_one`, `KotlinClasses.convertsUpTo_zero`: how many lists these are.

Main results:
- `conversions_by_depth`: items are converted outside of lists and, in Java only, input objects in one list; deeper down, and
  for enums in any list, the entry is cast and its items stay what they are.
- `labels_left_in_list`: labels in a list are labels afterwards.
-/
import GraphGen.Proofs.Traversal
import GraphGen.Schema.Build
import GraphGen.Targets.JavaClasses
import GraphGen.Targets.KotlinClasses
import Mathlib.Data.List.Forall2

namespace GraphGen

/-! ## Values -/

/-- a value in a map of arguments, or what is made of one -/
inductive HostValue where
  | null
  | text (text : String)
  /-- a map of arguments -/
  | record (entries : List (String × HostValue))
  | list (items : List HostValue)
  /-- what the constructor of a class makes of a map, or of none -/
  | object (type : String) (source : HostValue)
  /-- the constant of an enum that has the label -/
  | constant (type label : String)
  deriving Inhabited

namespace HostValue

/-- a text, or nothing -/
def asText? : HostValue → Option HostValue
  | null => some null
  | text label => some (text label)
  | _ => none

/-- a map, or nothing -/
def asRecord? : HostValue → Option HostValue
  | null => some null
  | record entries => some (record entries)
  | _ => none

/-- a list, or nothing -/
def asList? : HostValue → Option HostValue
  | null => some null
  | list items => some (list items)
  | _ => none

/-- a constant of an enum -/
def asConstant? (type : String) : HostValue → Option HostValue
  | constant other label => if other = type then some (constant other label) else none
  | _ => none

/-- a value that is there -/
def present? : HostValue → Option HostValue
  | null => none
  | value => some value

/-- the constant under a label, or nothing when no constant has it -/
def lookUp? (labels : List String) (type : String) : HostValue → Option HostValue
  | null => some null
  | text label => some (if label ∈ labels then constant type label else null)
  | _ => none

end HostValue

/-- the labels of the constants of an enum -/
def Schema.labels (schema : Schema) (name : String) : List String :=
  ((schema.type? name).map fun type => type.enumValues.map (·.name)).getD []

/-- what stands for an item of a type of that kind: a map for an input object, a label or a constant for an enum -/
inductive IsItem (labels : List String) (type : String) : TypeKind → HostValue → Prop where
  | record (entries : List (String × HostValue)) : IsItem labels type .inputObject (.record entries)
  | label (label : String) (known : label ∈ labels) : IsItem labels type .enum (.text label)
  | constant (label : String) (known : label ∈ labels) : IsItem labels type .enum (.constant type label)

/-- an item under lists, outermost first, each of which may be missing unless it is required -/
def Nested (item : HostValue → Prop) (itemRequired : Bool) : List Bool → HostValue → Prop
  | [], value => item value ∨ value = .null ∧ itemRequired = false
  | required :: inner, value =>
    (∃ items, value = .list items ∧ ∀ x ∈ items, Nested item itemRequired inner x) ∨ value = .null ∧ required = false

/-- a value that a type admits, whose name is that of an input object or an enum -/
def Conforms (schema : Schema) (kind : TypeKind) (type : WrappedType) (value : HostValue) : Prop :=
  Nested (IsItem (schema.labels type.name) type.name kind) type.wrapping.innerRequired type.wrapping.lists.reverse value

/-- an item is converted: an object is built from a map, a constant found under a label. Where there is no item, there is
nothing to convert, and a constructor may be given that -/
inductive ConvertedItem (type : String) : HostValue → HostValue → Prop where
  | built (entries : List (String × HostValue)) : ConvertedItem type (.record entries) (.object type (.record entries))
  | found (label : String) : ConvertedItem type (.text label) (.constant type label)
  | kept (label : String) : ConvertedItem type (.constant type label) (.constant type label)
  | missing : ConvertedItem type .null .null
  | empty : ConvertedItem type .null (.object type .null)

/-- every item of a value under so many lists is converted -/
def Converted (type : String) : Nat → HostValue → HostValue → Prop
  | 0, value, result => ConvertedItem type value result
  | depth + 1, value, result =>
    (∃ items results, value = .list items ∧ result = .list results ∧ List.Forall₂ (Converted type depth) items results) ∨
      value = .null ∧ result = .null

/-- whatever a field has in a map of arguments, when its type is of that kind: every item of it is converted -/
def ConvertsItems (schema : Schema) (kind : TypeKind) (field : InputValue) (eval : (String → HostValue) → Option HostValue) :
    Prop :=
  ∀ args, Conforms schema kind field.type (args field.name) →
    ∃ result, eval args = some result ∧ Converted field.type.name field.type.wrapping.depth (args field.name) result

/-! ### Casts convert nothing -/

/-- an item alone in so many lists -/
def HostValue.inLists (item : HostValue) : Nat → HostValue
  | 0 => item
  | depth + 1 => .list [item.inLists depth]

theorem nested_inLists {item : HostValue → Prop} {value : HostValue} (h : item value) (itemRequired : Bool)
    (lists : List Bool) : Nested item itemRequired lists (value.inLists lists.length) := by
  induction lists with
  | nil => exact Or.inl h
  | cons required inner ih => exact Or.inl ⟨[_], rfl, by simpa using ih⟩

theorem convertedItem_of_inLists {type : String} {value : HostValue} :
    ∀ {depth : Nat}, Converted type depth (value.inLists depth) (value.inLists depth) → ConvertedItem type value value
  | 0, h => h
  | depth + 1, h => by
    rcases h with ⟨items, results, hitems, hresults, hall⟩ | ⟨hnull, -⟩
    · cases hitems
      cases hresults
      exact convertedItem_of_inLists (List.forall₂_cons.mp hall).1
    · cases hnull

theorem converted_self {type : String} {item : HostValue → Prop} {itemRequired : Bool} (h : ∀ value, ¬ item value) :
    ∀ (lists : List Bool) (value : HostValue), Nested item itemRequired lists value →
      Converted type lists.length value value
  | [], value, hn => by
    obtain ⟨rfl, -⟩ := hn.resolve_left (h value)
    exact .missing
  | required :: inner, value, hn => by
    rcases hn with ⟨items, rfl, hitems⟩ | ⟨rfl, -⟩
    · exact Or.inl ⟨items, items, rfl, rfl, List.forall₂_same.mpr fun x hx => converted_self h inner x (hitems x hx)⟩
    · exact Or.inr ⟨rfl, rfl⟩

section Casts

variable {schema : Schema} {kind : TypeKind} {field : InputValue} {eval : (String → HostValue) → Option HostValue}

/-- what only hands on the entry leaves an item as it is -/
theorem ConvertsItems.convertedItem_self (h : ConvertsItems schema kind field eval)
    (heval : ∀ args, eval args = some (args field.name)) {value : HostValue}
    (hi : IsItem (schema.labels field.type.name) field.type.name kind value) :
    ConvertedItem field.type.name value value := by
  have hn := nested_inLists hi field.type.wrapping.innerRequired field.type.wrapping.lists.reverse
  rw [List.length_reverse] at hn
  obtain ⟨result, hresult, hc⟩ := h (fun _ => value.inLists field.type.wrapping.depth) hn
  obtain rfl := Option.some.inj ((heval _).symm.trans hresult)
  exact convertedItem_of_inLists hc

end Casts

/-- Maps are converted in up to so many lists, and labels outside of all. What is not converted is cast, which hands on the entry. -/
structure ConvertsUpTo (bound : Nat) (schema : Schema) (field : InputValue) (casts : Prop)
    (eval : (String → HostValue) → Option HostValue) : Prop where
  object : schema.kind? field.type.name = some .inputObject → field.type.wrapping.depth ≤ bound →
    ¬ casts ∧ ConvertsItems schema .inputObject field eval
  label : schema.kind? field.type.name = some .enum → field.type.wrapping.depth = 0 →
    ¬ casts ∧ ConvertsItems schema .enum field eval
  rest : (schema.kind? field.type.name = some .inputObject → bound < field.type.wrapping.depth) →
    (schema.kind? field.type.name = some .enum → 0 < field.type.wrapping.depth) → casts
  entry : casts → ∀ args, eval args = some (args field.name)

namespace ConvertsUpTo

variable {bound : Nat} {schema : Schema} {field : InputValue} {casts : Prop}
  {eval : (String → HostValue) → Option HostValue} (hc : ConvertsUpTo bound schema field casts eval)
include hc

/-- what is cast -/
theorem casts_iff : casts ↔ (schema.kind? field.type.name = some .inputObject → bound < field.type.wrapping.depth) ∧
    (schema.kind? field.type.name = some .enum → 0 < field.type.wrapping.depth) := by
  refine ⟨fun h => ⟨fun hk => Nat.not_le.mp fun hd => ?_, fun hk => Nat.pos_of_ne_zero fun hd => ?_⟩, fun h => hc.rest h.1 h.2⟩
  · exact (hc.object hk hd).1 h
  · exact (hc.label hk hd).1 h

/-- input objects in more lists than can be converted stay maps -/
theorem inputObject_iff (hk : schema.kind? field.type.name = some .inputObject) :
    ConvertsItems schema .inputObject field eval ↔ field.type.wrapping.depth ≤ bound := by
  refine ⟨fun h => Nat.not_lt.mp fun hd => ?_, fun hd => (hc.object hk hd).2⟩
  have hcasts := hc.rest (fun _ => hd) fun he => by rw [hk] at he; cases he
  exact nomatch h.convertedItem_self (hc.entry hcasts) (.record [])

/-- enums in lists stay labels, if there are any -/
theorem enum_iff (hk : schema.kind? field.type.name = some .enum) :
    ConvertsItems schema .enum field eval ↔ field.type.wrapping.depth = 0 ∨ schema.labels field.type.name = [] := by
  by_cases hd : field.type.wrapping.depth = 0
  · exact iff_of_true (hc.label hk hd).2 (Or.inl hd)
  rw [or_iff_right hd]
  have hcasts := hc.rest (fun hi => by rw [hk] at hi; cases hi) fun _ => Nat.pos_of_ne_zero hd
  constructor
  · intro h
    refine List.eq_nil_iff_forall_not_mem.mpr fun label hl => ?_
    exact nomatch h.convertedItem_self (hc.entry hcasts) (.label label hl)
  · intro hnil args hargs
    refine ⟨_, hc.entry hcasts args, ?_⟩
    have hnone : ∀ value, ¬ IsItem (schema.labels field.type.name) field.type.name .enum value := by
      rintro value (_ | ⟨_, hl⟩ | ⟨_, hl⟩) <;> simp [hnil] at hl
    have hself : Converted field.type.name _ (args field.name) (args field.name) := converted_self hnone _ _ hargs
    rwa [List.length_reverse] at hself

end ConvertsUpTo

/-! ### Items outside of lists -/

section Items

variable {schema : Schema} {kind : TypeKind} {type : WrappedType} {value : HostValue}

theorem lists_eq_nil (h : type.wrapping.depth = 0) : type.wrapping.lists = [] :=
  List.length_eq_zero_iff.mp h

theorem Conforms.item (h : Conforms schema kind type value) (hd : type.wrapping.depth = 0) :
    IsItem (schema.labels type.name) type.name kind value ∨ value = .null ∧ type.wrapping.innerRequired = false := by
  rwa [Conforms, lists_eq_nil hd] at h

theorem isNullable_of_depth_zero (hd : type.wrapping.depth = 0) : type.isNullable = !type.wrapping.innerRequired := by
  rw [WrappedType.isNullable, Wrapping.isNullable, Wrapping.isRequired, lists_eq_nil hd]
  rfl

/-- the constructor of an input object can be given what stands for an item, also in a list -/
theorem construct_item {labels : List String} {itemRequired : Bool} {type : String}
    (h : Nested (IsItem labels type .inputObject) itemRequired [] value) :
    value.asRecord? = some value ∧ ConvertedItem type value (.object type value) := by
  rcases h with ⟨⟨entries⟩⟩ | ⟨rfl, -⟩
  · exact ⟨rfl, .built entries⟩
  · exact ⟨rfl, .empty⟩

end Items

/-! ## Java -/

theorem append_split {first second whole : String} (h : whole = first ++ second) (text : String) :
    text ++ whole = text ++ first ++ second := by
  rw [h, String.append_assoc]

namespace JavaClasses

/-- a type that a value is cast to -/
inductive Cast where
  | text
  | record
  | records
  | constant (type : String)
  /-- a type as it is declared; the cast makes nothing of what conforms to it -/
  | declared (type : String)

namespace Cast

/-- the type as it is written -/
def type : Cast → String
  | text => "String"
  | record => "Map<String, Object>"
  | records => "Iterable<Map<String, Object>>"
  | constant type => type
  | declared type => type

/-- the value of that type -/
def of? : Cast → HostValue → Option HostValue
  | text => HostValue.asText?
  | record => HostValue.asRecord?
  | records => HostValue.asList?
  | constant type => HostValue.asConstant? type
  | declared _ => some

end Cast

/-- an expression that reads a field -/
inductive Expression where
  | entry (key : String)
  | cast (target : Cast) (value : Expression)
  | construct (type : String) (value : Expression)
  | constructEach (type : String) (value : Expression)
  | lookUp (type : String) (value : Expression)
  | whenConstant (type : String) (value result other : Expression)
  | unlessNull (value result : Expression)

namespace Expression

/-- the text of an expression -/
def render : Expression → String
  | entry key => "args.get(\"" ++ key ++ "\")"
  | cast target value => "(" ++ target.type ++ ") " ++ render value
  | construct type value => "new " ++ type ++ "(" ++ render value ++ ")"
  | constructEach type value =>
    "StreamSupport.stream((" ++ render value ++ ").spliterator(), false).map(" ++ type ++ "::new).collect(Collectors.toList())"
  | lookUp type value => type ++ ".valueOfLabel(" ++ render value ++ ")"
  | whenConstant type value result other =>
    render value ++ " instanceof " ++ type ++ " ? " ++ render result ++ " : " ++ render other
  | unlessNull value result => render value ++ " == null ? null : " ++ render result

/-- the value of an expression, unless it fails -/
def eval (schema : Schema) (args : String → HostValue) : Expression → Option HostValue
  | entry key => some (args key)
  | cast target value => (eval schema args value).bind target.of?
  | construct type value => (eval schema args value).map (.object type)
  | constructEach type value =>
    (eval schema args value).bind fun
      | .list items => (items.mapM fun item => (HostValue.asRecord? item).map (.object type)).map .list
      | _ => none
  | lookUp type value => (eval schema args value).bind (HostValue.lookUp? (schema.labels type) type)
  | whenConstant type value result other =>
    (eval schema args value).bind fun value =>
      if (value.asConstant? type).isSome then eval schema args result else eval schema args other
  | unlessNull value result =>
    (eval schema args value).bind fun
      | .null => some .null
      | _ => eval schema args result

end Expression

open Expression

/-- the expression that reads a field -/
def expression (setting : Setting) (field : InputValue) : Expression :=
  let value := entry field.name
  let item := field.type.name
  match conversion setting.schema field.type with
  | .construct => construct item (cast .record value)
  | .label => whenConstant item value (cast (.constant item) value) (lookUp item (cast .text value))
  | .constructItems => unlessNull value (constructEach item (cast .records value))
  | .cast => cast (.declared (setting.uncheckedType field.type)) value

/-- **What reads a field is this expression.** -/
theorem render_expression (setting : Setting) (field : InputValue) :
    (expression setting field).render = readArgument setting field := by
  let value := (entry field.name).render
  let item := field.type.name
  unfold expression readArgument
  cases conversion setting.schema field.type with
  | construct =>
    have hcast : "((Map<String, Object>) " = "(" ++ "(Map<String, Object>) " := rfl
    calc
      "new " ++ item ++ "(" ++ ("(Map<String, Object>) " ++ value) ++ ")"
      _ = "new " ++ item ++ "((Map<String, Object>) " ++ value ++ ")" := by
        rw [append_split hcast]
        simp only [String.append_assoc]
  | label =>
    have hconstant : " ? (" = " ? " ++ "(" := rfl
    have htext : ".valueOfLabel((String) " = ".valueOfLabel(" ++ "(String) " := rfl
    calc
      value ++ " instanceof " ++ item ++ " ? " ++ ("(" ++ item ++ ") " ++ value) ++ " : "
        ++ (item ++ ".valueOfLabel(" ++ ("(String) " ++ value) ++ ")")
      _ = value ++ " instanceof " ++ item ++ " ? (" ++ item ++ ") " ++ value ++ " : " ++ item ++ ".valueOfLabel((String) "
          ++ value ++ ")" := by
        rw [append_split hconstant, append_split htext]
        simp only [String.append_assoc]
  | constructItems =>
    have helse : " == null ? null : StreamSupport.stream(((Iterable<Map<String, Object>>) " =
      " == null ? null : " ++ "StreamSupport.stream(((Iterable<Map<String, Object>>) " := rfl
    have hcast : "StreamSupport.stream(((Iterable<Map<String, Object>>) " =
      "StreamSupport.stream((" ++ "(Iterable<Map<String, Object>>) " := rfl
    calc
      value ++ " == null ? null : " ++ ("StreamSupport.stream((" ++ ("(Iterable<Map<String, Object>>) " ++ value)
        ++ ").spliterator(), false).map(" ++ item ++ "::new).collect(Collectors.toList())")
      _ = value ++ " == null ? null : StreamSupport.stream(((Iterable<Map<String, Object>>) " ++ value
          ++ ").spliterator(), false).map(" ++ item ++ "::new).collect(Collectors.toList())" := by
        rw [append_split helse, append_split hcast]
        simp only [String.append_assoc]
  | cast => rfl

/-! ### What an expression makes of the entry -/

variable {setting : Setting} {field : InputValue}

/-- the entry is only cast to the type that is declared -/
theorem expression_eq_declared_iff :
    expression setting field = cast (.declared (setting.uncheckedType field.type)) (entry field.name) ↔
      conversion setting.schema field.type = .cast := by
  unfold expression
  cases conversion setting.schema field.type <;> simp

/-- what a field has in a map of arguments, read by its expression -/
def evalField (setting : Setting) (field : InputValue) (args : String → HostValue) : Option HostValue :=
  (expression setting field).eval setting.schema args

theorem evalField_cast (h : conversion setting.schema field.type = .cast) (args : String → HostValue) :
    evalField setting field args = some (args field.name) := by
  rw [evalField, expression, h]
  rfl

theorem converts_construct (h : conversion setting.schema field.type = .construct)
    (hd : field.type.wrapping.depth = 0) :
    ConvertsItems setting.schema .inputObject field (evalField setting field) := by
  intro args hc
  obtain ⟨hrecord, hitem⟩ := construct_item (hc.item hd)
  refine ⟨.object field.type.name (args field.name), ?_, by rwa [hd]⟩
  rw [evalField, expression, h]
  simp [eval, Cast.of?, hrecord]

theorem converts_constructItems (h : conversion setting.schema field.type = .constructItems)
    (hd : field.type.wrapping.depth = 1) :
    ConvertsItems setting.schema .inputObject field (evalField setting field) := by
  intro args hc
  obtain ⟨required, hlists⟩ := List.length_eq_one_iff.mp hd
  rw [Conforms, hlists] at hc
  rw [hd, evalField, expression, h]
  rcases hc with ⟨items, hitems, hall⟩ | ⟨hnull, -⟩
  · have hbuilt : (items.mapM fun item => (HostValue.asRecord? item).map (HostValue.object field.type.name)) =
        some (items.map (HostValue.object field.type.name)) := by
      refine (mapM_congr fun item hi => ?_).trans List.mapM_pure
      rw [(construct_item (hall item hi)).1]
      rfl
    refine ⟨.list (items.map (.object field.type.name)), ?_, Or.inl ⟨items, _, hitems, rfl, ?_⟩⟩
    · simp [eval, Cast.of?, hitems, HostValue.asList?, hbuilt]
    · exact List.forall₂_map_right_iff.mpr (List.forall₂_same.mpr fun item hi => (construct_item (hall item hi)).2)
  · exact ⟨.null, by simp [eval, hnull], Or.inr ⟨hnull, rfl⟩⟩

theorem converts_label (h : conversion setting.schema field.type = .label) (hd : field.type.wrapping.depth = 0) :
    ConvertsItems setting.schema .enum field (evalField setting field) := by
  intro args hc
  rw [hd, evalField, expression, h]
  generalize hv : args field.name = value at hc
  rcases hc.item hd with (_ | ⟨label, known⟩ | ⟨label, known⟩) | ⟨rfl, -⟩
  · exact ⟨.constant field.type.name label,
      by simp [eval, Cast.of?, hv, HostValue.asConstant?, HostValue.asText?, HostValue.lookUp?, known], .found label⟩
  · exact ⟨.constant field.type.name label, by simp [eval, Cast.of?, hv, HostValue.asConstant?], .kept label⟩
  · exact ⟨.null, by simp [eval, Cast.of?, hv, HostValue.asConstant?, HostValue.asText?, HostValue.lookUp?], .missing⟩

/-- **In Java** maps are converted outside of lists and in one. -/
theorem convertsUpTo_one (setting : Setting) (field : InputValue) :
    ConvertsUpTo 1 setting.schema field (conversion setting.schema field.type = .cast) (evalField setting field) where
  object hk hd := by
    obtain hd | hd := Nat.le_one_iff_eq_zero_or_eq_one.mp hd
    · have hconversion : conversion setting.schema field.type = .construct := by
        rw [conversion, hk, hd]
        rfl
      exact ⟨by rw [hconversion]; nofun, converts_construct hconversion hd⟩
    · have hconversion : conversion setting.schema field.type = .constructItems := by
        rw [conversion, hk, hd]
        rfl
      exact ⟨by rw [hconversion]; nofun, converts_constructItems hconversion hd⟩
  label hk hd := by
    have hconversion : conversion setting.schema field.type = .label := by
      rw [conversion, hk, hd]
      rfl
    exact ⟨by rw [hconversion]; nofun, converts_label hconversion hd⟩
  rest hi he := by
    unfold conversion
    split
    · rename_i hk hd
      exact absurd (hi hk) (by omega)
    · rename_i hk hd
      exact absurd (he hk) (by omega)
    · rename_i hk hd
      exact absurd (hi hk) (by omega)
    · rfl
  entry := evalField_cast

end JavaClasses

/-! ## Kotlin -/

namespace KotlinClasses

/-- a type that a value is cast to; what is nullable may be missing -/
inductive Cast where
  | text ( nullable : Bool)
  | record ( nullable : Bool)
  /-- a type as it is declared; the cast makes nothing of what conforms to it -/
  | declared (type : String)

namespace Cast

/-- the type as it is written -/
def type : Cast → String
  | text false => "String"
  | text true => "String?"
  | record false => "Map<String, Any>"
  | record true => "Map<String, Any>?"
  | declared type => type

/-- the value of that type -/
def of? : Cast → HostValue → Option HostValue
  | text nullable => fun value => value.asText?.bind fun text => if nullable then some text else text.present?
  | record nullable => fun value => value.asRecord?.bind fun record => if nullable then some record else record.present?
  | declared _ => some

end Cast

/-- an expression that reads a field -/
inductive Expression where
  | entry (key : String)
  | cast (target : Cast) (value : Expression)
  /-- a constant of the enum, or nothing -/
  | safeCast (type : String) (value : Expression)
  | orElse (value other : Expression)
  | construct (type : String) (value : Expression)
  /-- the object, unless there is nothing to construct it from -/
  | constructPresent (type : String) (value : Expression)
  | lookUp (type : String) (value : Expression)
  /-- the constant, unless there is no label -/
  | lookUpPresent (type : String) (value : Expression)
  | nonNull (value : Expression)

namespace Expression

/-- the text of an expression -/
def render : Expression → String
  | entry key => "args[\"" ++ key ++ "\"]"
  | cast target value => render value ++ " as " ++ target.type
  | safeCast type value => render value ++ " as? " ++ type
  | orElse value other => render value ++ " ?: " ++ render other
  | construct type value => type ++ "(" ++ render value ++ ")"
  | constructPresent type value => "(" ++ render value ++ ")?.let \x7b " ++ type ++ "(it) \x7d"
  | lookUp type value => type ++ ".valueOfLabel(" ++ render value ++ ")"
  | lookUpPresent type value => "(" ++ render value ++ ")?.let \x7b " ++ type ++ ".valueOfLabel(it) \x7d"
  | nonNull value => render value ++ "!!"

/-- the value of an expression, unless it fails -/
def eval (schema : Schema) (args : String → HostValue) : Expression → Option HostValue
  | entry key => some (args key)
  | cast target value => (eval schema args value).bind target.of?
  | safeCast type value => (eval schema args value).map fun value => (value.asConstant? type).getD .null
  | orElse value other =>
    (eval schema args value).bind fun
      | .null => eval schema args other
      | value => some value
  | construct type value => (eval schema args value).map (.object type)
  | constructPresent type value =>
    (eval schema args value).map fun
      | .null => .null
      | value => .object type value
  | lookUp type value | lookUpPresent type value =>
    (eval schema args value).bind (HostValue.lookUp? (schema.labels type) type)
  | nonNull value => (eval schema args value).bind HostValue.present?

end Expression

open Expression

/-- the expression that reads a field -/
def expression (setting : Setting) (field : InputValue) : Expression :=
  let value := entry field.name
  let item := field.type.name
  match conversion setting.schema field.type, field.type.isNullable with
  | .label, true => orElse (safeCast item value) (lookUpPresent item (cast (.text true) value))
  | .label, false => orElse (safeCast item value) (nonNull (lookUp item (cast (.text false) value)))
  | .construct, true => constructPresent item (cast (.record true) value)
  | .construct, false => construct item (cast (.record false) value)
  | .cast, _ => cast (.declared (setting.typeOf field.type)) value

/-- **What reads a field is this expression.** -/
theorem render_expression (setting : Setting) (field : InputValue) :
    (expression setting field).render = readArgument setting field := by
  let value := (entry field.name).render
  let item := field.type.name
  unfold expression readArgument
  cases conversion setting.schema field.type with
  | cast => rfl
  | label =>
    cases field.type.isNullable with
    | true =>
      have helse : " ?: (" = " ?: " ++ "(" := rfl
      have hlet : " as String?)?.let \x7b " = " as String?" ++ ")?.let \x7b " := rfl
      have hcast : " as String?" = " as " ++ "String?" := rfl
      calc
        value ++ " as? " ++ item ++ " ?: " ++ ("(" ++ (value ++ " as " ++ "String?") ++ ")?.let \x7b " ++ item
          ++ ".valueOfLabel(it) \x7d")
        _ = value ++ " as? " ++ item ++ " ?: (" ++ value ++ " as String?)?.let \x7b " ++ item ++ ".valueOfLabel(it) \x7d" := by
          rw [append_split helse, append_split hlet, append_split hcast]
          simp only [String.append_assoc]
    | false =>
      have hnonNull : " as String)!!" = " as String)" ++ "!!" := rfl
      have hclose : " as String)" = " as String" ++ ")" := rfl
      have hcast : " as String" = " as " ++ "String" := rfl
      calc
        value ++ " as? " ++ item ++ " ?: " ++ (item ++ ".valueOfLabel(" ++ (value ++ " as " ++ "String") ++ ")" ++ "!!")
        _ = value ++ " as? " ++ item ++ " ?: " ++ item ++ ".valueOfLabel(" ++ value ++ " as String)!!" := by
          rw [append_split hnonNull, append_split hclose, append_split hcast]
          simp only [String.append_assoc]
  | construct =>
    cases field.type.isNullable with
    | true =>
      have hlet : " as Map<String, Any>?)?.let \x7b " = " as Map<String, Any>?" ++ ")?.let \x7b " := rfl
      have hcast : " as Map<String, Any>?" = " as " ++ "Map<String, Any>?" := rfl
      calc
        "(" ++ (value ++ " as " ++ "Map<String, Any>?") ++ ")?.let \x7b " ++ item ++ "(it) \x7d"
        _ = "(" ++ value ++ " as Map<String, Any>?)?.let \x7b " ++ item ++ "(it) \x7d" := by
          rw [append_split hlet, append_split hcast]
          simp only [String.append_assoc]
    | false =>
      have hclose : " as Map<String, Any>)" = " as Map<String, Any>" ++ ")" := rfl
      have hcast : " as Map<String, Any>" = " as " ++ "Map<String, Any>" := rfl
      calc
        item ++ "(" ++ (value ++ " as " ++ "Map<String, Any>") ++ ")"
        _ = item ++ "(" ++ value ++ " as Map<String, Any>)" := by
          rw [append_split hclose, append_split hcast]
          simp only [String.append_assoc]

/-! ### What an expression makes of the entry -/

variable {setting : Setting} {field : InputValue}

/-- the entry is only cast to the type that is declared -/
theorem expression_eq_declared_iff :
    expression setting field = cast (.declared (setting.typeOf field.type)) (entry field.name) ↔
      conversion setting.schema field.type = .cast := by
  unfold expression
  cases conversion setting.schema field.type <;> cases field.type.isNullable <;> simp

/-- what a field has in a map of arguments, read by its expression -/
def evalField (setting : Setting) (field : InputValue) (args : String → HostValue) : Option HostValue :=
  (expression setting field).eval setting.schema args

theorem evalField_cast (h : conversion setting.schema field.type = .cast) (args : String → HostValue) :
    evalField setting field args = some (args field.name) := by
  rw [evalField, expression, h]
  rfl

theorem converts_construct (h : conversion setting.schema field.type = .construct)
    (hd : field.type.wrapping.depth = 0) :
    ConvertsItems setting.schema .inputObject field (evalField setting field) := by
  intro args hc
  rw [hd, evalField, expression, h, isNullable_of_depth_zero hd]
  generalize hv : args field.name = value at hc
  rcases hc.item hd with ⟨⟨entries⟩⟩ | ⟨rfl, hr⟩
  · refine ⟨.object field.type.name (.record entries), ?_, .built entries⟩
    cases field.type.wrapping.innerRequired <;> simp [eval, Cast.of?, hv, HostValue.asRecord?, HostValue.present?]
  · exact ⟨.null, by simp [hr, eval, Cast.of?, hv, HostValue.asRecord?], .missing⟩

theorem converts_label (h : conversion setting.schema field.type = .label) (hd : field.type.wrapping.depth = 0) :
    ConvertsItems setting.schema .enum field (evalField setting field) := by
  intro args hc
  rw [hd, evalField, expression, h, isNullable_of_depth_zero hd]
  generalize hv : args field.name = value at hc
  rcases hc.item hd with (_ | ⟨label, known⟩ | ⟨label, known⟩) | ⟨rfl, hr⟩
  · refine ⟨.constant field.type.name label, ?_, .found label⟩
    cases field.type.wrapping.innerRequired <;>
      simp [eval, Cast.of?, hv, HostValue.asConstant?, HostValue.asText?, HostValue.lookUp?, HostValue.present?, known]
  · refine ⟨.constant field.type.name label, ?_, .kept label⟩
    cases field.type.wrapping.innerRequired <;> simp [eval, hv, HostValue.asConstant?]
  · exact ⟨.null, by simp [hr, eval, Cast.of?, hv, HostValue.asConstant?, HostValue.asText?, HostValue.lookUp?], .missing⟩

/-- **In Kotlin** maps are converted outside of lists only. -/
theorem convertsUpTo_zero (setting : Setting) (field : InputValue) :
    ConvertsUpTo 0 setting.schema field (conversion setting.schema field.type = .cast) (evalField setting field) where
  object hk hd := by
    replace hd := Nat.le_zero.mp hd
    have hconversion : conversion setting.schema field.type = .construct := by
      rw [conversion, WrappedType.isList, hd, hk]
      rfl
    exact ⟨by rw [hconversion]; nofun, converts_construct hconversion hd⟩
  label hk hd := by
    have hconversion : conversion setting.schema field.type = .label := by
      rw [conversion, WrappedType.isList, hd, hk]
      rfl
    exact ⟨by rw [hconversion]; nofun, converts_label hconversion hd⟩
  rest hi he := by
    unfold conversion
    split
    · rfl
    · rename_i hlist
      split
      · rename_i hk
        exact absurd (decide_eq_true (he hk)) hlist
      · rename_i hk
        exact absurd (decide_eq_true (hi hk)) hlist
      · rfl
  entry := evalField_cast

end KotlinClasses

/-! ## Both -/

/-- **Items are converted outside of lists, and hardly in them.** What is written for a field are expressions that convert every
item exactly for input objects outside of lists, or in one list in Java, and for enums outside of lists, unless an enum has no
constants anyway. All that they do otherwise is to cast the entry, as for scalars. -/
theorem conversions_by_depth (schema : Schema) (javaScalars kotlinScalars : ScalarTargets) (field : InputValue) :
    let java : JavaClasses.Setting := ⟨schema, javaScalars⟩
    let kotlin : KotlinClasses.Setting := ⟨schema, kotlinScalars⟩
    let kind := schema.kind? field.type.name
    let depth := field.type.wrapping.depth
    ((JavaClasses.expression java field).render = JavaClasses.readArgument java field ∧
      (KotlinClasses.expression kotlin field).render = KotlinClasses.readArgument kotlin field) ∧
    (kind = some .inputObject →
      (ConvertsItems schema .inputObject field (JavaClasses.evalField java field) ↔ depth ≤ 1) ∧
      (ConvertsItems schema .inputObject field (KotlinClasses.evalField kotlin field) ↔ depth = 0)) ∧
    (kind = some .enum →
      (ConvertsItems schema .enum field (JavaClasses.evalField java field) ↔
        depth = 0 ∨ schema.labels field.type.name = []) ∧
      (ConvertsItems schema .enum field (KotlinClasses.evalField kotlin field) ↔
        depth = 0 ∨ schema.labels field.type.name = [])) ∧
    (JavaClasses.expression java field = .cast (.declared (java.uncheckedType field.type)) (.entry field.name) ↔
      (kind = some .inputObject → 2 ≤ depth) ∧ (kind = some .enum → 1 ≤ depth)) ∧
    (KotlinClasses.expression kotlin field = .cast (.declared (kotlin.typeOf field.type)) (.entry field.name) ↔
      (kind = some .inputObject → 1 ≤ depth) ∧ (kind = some .enum → 1 ≤ depth)) := by
  intro java kotlin kind depth
  have hjava := JavaClasses.convertsUpTo_one java field
  have hkotlin := KotlinClasses.convertsUpTo_zero kotlin field
  exact ⟨⟨JavaClasses.render_expression java field, KotlinClasses.render_expression kotlin field⟩,
    fun hk => ⟨hjava.inputObject_iff hk, (hkotlin.inputObject_iff hk).trans Nat.le_zero⟩,
    fun hk => ⟨hjava.enum_iff hk, hkotlin.enum_iff hk⟩,
    JavaClasses.expression_eq_declared_iff.trans hjava.casts_iff,
    KotlinClasses.expression_eq_declared_iff.trans hkotlin.casts_iff⟩

/-- filters with colors, and filters in a list -/
def filterTypes : SchemaDocument :=
  [.type ⟨none, "Filter", [], .inputObject
      [⟨none, "colors", .list (.nonNull (.named "Color")), none, []⟩,
        ⟨none, "nested", .list (.nonNull (.named "Filter")), none, []⟩]⟩,
    .type ⟨none, "Color", [], .enum [⟨none, "RED", []⟩]⟩]

/-- the schema of filters -/
def filterSchema : Schema :=
  (Schema.ofDocument filterTypes).toOption.getD default

/-- the colors of a filter -/
def colorsField : InputValue :=
  ⟨"colors", none, ⟨"Color", ⟨true, [false]⟩⟩, none, []⟩

/-- the filters in a filter -/
def nestedField : InputValue :=
  ⟨"nested", none, ⟨"Filter", ⟨true, [false]⟩⟩, none, []⟩

/-- filters in a list are converted in Java, and cast in Kotlin -/
theorem conversions_by_depth_nested :
    filterSchema.kind? "Filter" = some .inputObject ∧
    ConvertsItems filterSchema .inputObject nestedField (JavaClasses.evalField ⟨filterSchema, .java⟩ nestedField) ∧
    ¬ ConvertsItems filterSchema .inputObject nestedField (KotlinClasses.evalField ⟨filterSchema, .kotlin⟩ nestedField) := by
  have hk : filterSchema.kind? nestedField.type.name = some .inputObject := rfl
  obtain ⟨-, hobjects, -⟩ := conversions_by_depth filterSchema .java .kotlin nestedField
  exact ⟨hk, (hobjects hk).1.mpr (by decide), fun h => absurd ((hobjects hk).2.mp h) (by decide)⟩

/-- **Labels in a list are labels afterwards.** The list of a field of filters is cast to a list of colors. -/
theorem labels_left_in_list :
    Schema.ofDocument filterTypes = .ok filterSchema ∧
    (filterSchema.inputObject? "Filter").map Table.values = some [colorsField, nestedField] ∧
    JavaClasses.readArgument ⟨filterSchema, .java⟩ colorsField = "(Iterable<Color>) args.get(\"colors\")" ∧
    KotlinClasses.readArgument ⟨filterSchema, .kotlin⟩ colorsField = "args[\"colors\"] as Iterable<Color>?" ∧
    JavaClasses.evalField ⟨filterSchema, .java⟩ colorsField (fun _ => .list [.text "RED"]) = some (.list [.text "RED"]) ∧
    ¬ ConvertsItems filterSchema .enum colorsField (JavaClasses.evalField ⟨filterSchema, .java⟩ colorsField) ∧
    ¬ ConvertsItems filterSchema .enum colorsField (KotlinClasses.evalField ⟨filterSchema, .kotlin⟩ colorsField) := by
  have hk : filterSchema.kind? colorsField.type.name = some .enum := rfl
  have hlabels : ¬ (colorsField.type.wrapping.depth = 0 ∨ filterSchema.labels colorsField.type.name = []) := by
    simp [show filterSchema.labels colorsField.type.name = ["RED"] from rfl, show colorsField.type.wrapping.depth = 1 from rfl]
  exact ⟨rfl, rfl, by decide +kernel, by decide +kernel, rfl,
    mt ((JavaClasses.convertsUpTo_one ⟨filterSchema, .java⟩ colorsField).enum_iff hk).mp hlabels,
    mt ((KotlinClasses.convertsUpTo_zero ⟨filterSchema, .kotlin⟩ colorsField).enum_iff hk).mp hlabels⟩

end GraphGen
