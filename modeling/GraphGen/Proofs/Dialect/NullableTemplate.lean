/-
The nullable type, as an alias and as a template.

One option tells what a nullable type is. The plugin for schema types declares it as an alias of one parameter `T`; the plugin
for operations, where types are written out, puts the type into the text of the option. An alias stands for its text with the
type at every place of its parameter (`expand`), that is at every letter `T` that no identifier character stands next to. The
template puts the type at the first letter `T` and nowhere else (`replaceFirst`).

Which characters make up identifiers does not matter for the proofs and is a parameter.

- `expandFrom_eq_self_iff`: where no parameter stands, nothing is put in, and nowhere else.
- `replaceFirstChar_eq_expandFrom_iff`: the first letter and all parameters are the same place.

Main results:
- `template_expands_iff`: the template gives what the alias stands for exactly when the first letter `T` is a parameter and no
  later one is.
- `parameter_left`: a second parameter is left as it is.
-/
import GraphGen.Proofs.Traversal
import GraphGen.Targets.OperationTypes
import GraphGen.Targets.TypeScriptTypes

namespace GraphGen

/-! ## Aliases -/

/-- a letter between these characters is an identifier by itself; `part` tells which characters identifiers are made of -/
def standsAlone (part : Char → Bool) (previous next : Option Char) : Bool :=
  !previous.any part && !next.any part

/-- a text with a type for the parameter `T`, behind some character -/
def expandFrom (part : Char → Bool) (type : List Char) (previous : Option Char) : List Char → List Char
  | [] => []
  | c :: rest =>
    (if c = 'T' ∧ standsAlone part previous rest.head? then type else [c]) ++ expandFrom part type (some c) rest

/-- a text with a type for the parameter `T` -/
def expand (part : Char → Bool) (text type : String) : String :=
  String.ofList (expandFrom part type.toList none text.toList)

/-- the type that an alias of one parameter `T` stands for at a type -/
def Declaration.aliasAt? (part : Char → Bool) (d : Declaration) (type : String) : Option String :=
  match d.body with
  | .abbreviation text => if d.parameters = "<T>" then some (expand part text type) else none
  | _ => none

/-- the first letter `T`, and no later one, is the parameter -/
def FirstIsParameter (part : Char → Bool) (previous : Option Char) (cs : List Char) : Prop :=
  ∀ before after, cs = before ++ 'T' :: after →
    (standsAlone part (before.getLast?.or previous) after.head? = true ↔ 'T' ∉ before)

/-! ## Places of a letter -/

theorem getLast?_cons_or (c : Char) (before : List Char) (previous : Option Char) :
    (c :: before).getLast?.or previous = before.getLast?.or (some c) := by
  rw [List.getLast?_cons]
  cases before.getLast? <;> rfl

/-- the places of a letter are the beginning, where the letter may stand, and its places in the rest -/
theorem forall_places_cons {letter c : Char} {rest : List Char} {P : List Char → List Char → Prop} :
    (∀ before after, c :: rest = before ++ letter :: after → P before after) ↔
      (c = letter → P [] rest) ∧ ∀ before after, rest = before ++ letter :: after → P (c :: before) after := by
  constructor
  · intro h
    exact ⟨fun hc => h [] rest (by rw [hc]; rfl), fun before after hrest => h (c :: before) after (by rw [hrest]; rfl)⟩
  · rintro ⟨hhere, hlater⟩ before after heq
    cases before with
    | nil =>
      obtain ⟨hc, rfl⟩ := List.cons.inj heq
      exact hhere hc
    | cons d before =>
      obtain ⟨rfl, hrest⟩ := List.cons.inj heq
      exact hlater before after hrest

/-- where no parameter stands nothing is put in -/
theorem expandFrom_eq_self (part : Char → Bool) (type : List Char) {previous : Option Char} {cs : List Char}
    (h : ∀ before after, cs = before ++ 'T' :: after →
      standsAlone part (before.getLast?.or previous) after.head? = false) :
    expandFrom part type previous cs = cs := by
  induction cs generalizing previous with
  | nil => rfl
  | cons c rest ih =>
    obtain ⟨hhere, hlater⟩ := forall_places_cons.1 h
    have hnot : ¬(c = 'T' ∧ standsAlone part previous rest.head? = true) := by
      rintro ⟨hc, halone⟩
      exact Bool.false_ne_true ((hhere hc).symm.trans halone)
    rw [expandFrom, if_neg hnot, ih fun before after hrest => getLast?_cons_or c before previous ▸ hlater before after hrest]
    rfl

/-- **Nothing is put in only where no parameter stands,** for a type that does not begin with `T`. -/
theorem expandFrom_eq_self_iff (part : Char → Bool) {first : Char} {more : List Char} (hfirst : first ≠ 'T')
    (previous : Option Char) (cs : List Char) :
    expandFrom part (first :: more) previous cs = cs ↔
      ∀ before after, cs = before ++ 'T' :: after →
        standsAlone part (before.getLast?.or previous) after.head? = false := by
  refine ⟨fun h => ?_, expandFrom_eq_self part _⟩
  induction cs generalizing previous with
  | nil => simp
  | cons c rest ih =>
    rw [forall_places_cons]
    rw [expandFrom] at h
    split at h
    · rename_i halone
      -- the type would stand at the letter
      exact absurd ((List.cons.inj h).1.trans halone.1) hfirst
    · rename_i hnot
      refine ⟨fun hc => Bool.eq_false_iff.2 fun halone => hnot ⟨hc, halone⟩, fun before after hrest => ?_⟩
      rw [getLast?_cons_or]
      exact ih (some c) (List.cons.inj h).2 before after hrest

theorem firstIsParameter_cons_iff {part : Char → Bool} {previous : Option Char} {c : Char} {rest : List Char} :
    FirstIsParameter part previous (c :: rest) ↔
      if c = 'T' then
        standsAlone part previous rest.head? = true ∧ ∀ before after, rest = before ++ 'T' :: after →
          standsAlone part (before.getLast?.or (some c)) after.head? = false
      else FirstIsParameter part (some c) rest := by
  rw [FirstIsParameter, forall_places_cons]
  simp only [getLast?_cons_or, List.mem_cons]
  split
  · rename_i hc
    simp [hc]
  · rename_i hc
    simp [hc, Ne.symm hc, FirstIsParameter]

/-- the first letter is the parameter, and no later one is -/
theorem replaceFirstChar_eq_expandFrom {part : Char → Bool} (type : List Char) {previous : Option Char} {cs : List Char}
    (h : FirstIsParameter part previous cs) :
    Text.replaceFirstChar 'T' type cs = expandFrom part type previous cs := by
  induction cs generalizing previous with
  | nil => rfl
  | cons c rest ih =>
    rw [firstIsParameter_cons_iff] at h
    rw [Text.replaceFirstChar, expandFrom]
    by_cases hc : c = 'T'
    · rw [if_pos hc] at h
      rw [if_pos hc, if_pos ⟨hc, h.1⟩, expandFrom_eq_self part type h.2]
    · rw [if_neg hc] at h
      rw [if_neg hc, if_neg fun halone => hc halone.1, ih h]
      rfl

/-- **The first letter and the parameters are the same places** only then, for a type that does not begin with `T`. -/
theorem replaceFirstChar_eq_expandFrom_iff (part : Char → Bool) {first : Char} {more : List Char} (hfirst : first ≠ 'T')
    (previous : Option Char) (cs : List Char) :
    Text.replaceFirstChar 'T' (first :: more) cs = expandFrom part (first :: more) previous cs ↔
      FirstIsParameter part previous cs := by
  refine ⟨fun h => ?_, replaceFirstChar_eq_expandFrom _⟩
  induction cs generalizing previous with
  | nil => exact fun before after hnil => by simp at hnil
  | cons c rest ih =>
    rw [firstIsParameter_cons_iff]
    rw [Text.replaceFirstChar, expandFrom] at h
    by_cases hc : c = 'T'
    · rw [if_pos hc] at h ⊢
      by_cases halone : standsAlone part previous rest.head? = true
      · rw [if_pos ⟨hc, halone⟩, List.append_cancel_left_eq] at h
        exact ⟨halone, (expandFrom_eq_self_iff part hfirst _ rest).1 h.symm⟩
      · rw [if_neg fun both => halone both.2] at h
        exact absurd ((List.cons.inj h).1.trans hc) hfirst
    · rw [if_neg hc, if_neg fun halone => hc halone.1] at h
      rw [if_neg hc]
      exact ih (some c) (List.cons.inj h).2

/-! ## One option, two readings -/

theorem optionalText_eq_some_iff {value : Json} {text : String} :
    Config.optionalText value = .ok (some text) ↔ value = .str text := by
  cases value <;> simp [Config.optionalText, Config.text, Config.required, Json.asString?, Except.map]

/-- a template that operations are written with is the text that the nullable type is declared as -/
theorem maybeValue_eq_of_decode {config : Json} {operations : TypeScriptOperationsOptions} {types : TypeScriptOptions}
    {template : String} (hoperations : TypeScriptOperationsOptions.decode config = .ok operations)
    (htypes : TypeScriptOptions.decode config = .ok types) (hvalue : operations.maybeValue = some template) :
    types.maybeValue = template := by
  obtain ⟨members, hmembers, hoperations⟩ := bind_eq_ok_iff.1 hoperations
  obtain ⟨_, -, hoperations⟩ := bind_eq_ok_iff.1 hoperations
  obtain ⟨_, -, hoperations⟩ := bind_eq_ok_iff.1 hoperations
  obtain ⟨taken, htaken, hoperations⟩ := bind_eq_ok_iff.1 hoperations
  obtain ⟨_, -, hoperations⟩ := bind_eq_ok_iff.1 hoperations
  cases hoperations
  obtain ⟨members', hmembers', htypes⟩ := bind_eq_ok_iff.1 htypes
  cases hmembers.symm.trans hmembers'
  obtain ⟨_, -, htypes⟩ := bind_eq_ok_iff.1 htypes
  obtain ⟨declared, hdeclared, htypes⟩ := bind_eq_ok_iff.1 htypes
  iterate 4 obtain ⟨_, -, htypes⟩ := bind_eq_ok_iff.1 htypes
  cases htypes
  cases hvalue
  unfold Config.field at htaken hdeclared
  split at htaken
  · rename_i value hvalue
    rw [hvalue] at hdeclared
    rw [optionalText_eq_some_iff.1 htaken] at hdeclared
    cases hdeclared
    rfl
  · cases htaken

/-- **A template gives what the alias of the same option stands for exactly when the first letter `T` is its parameter, and no
later one is.** This is so for all types together, and for every type that does not begin with `T`. The option that the plugin
for operations takes as its template is the alias that the plugin for schema types declares first. -/
theorem template_expands_iff (part : Char → Bool) (template : String) :
    ((∀ type, (NullMark.template template).mark type = expand part template type) ↔
      FirstIsParameter part none template.toList) ∧
    (∀ type : String, (∃ first, type.toList.head? = some first ∧ first ≠ 'T') →
      ((NullMark.template template).mark type = expand part template type ↔
        FirstIsParameter part none template.toList)) ∧
    ∀ config operations types, TypeScriptOperationsOptions.decode config = .ok operations →
      TypeScriptOptions.decode config = .ok types → operations.preResolveTypes = true →
      operations.maybeValue = some template →
      operations.nullMark = .template template ∧ ∀ schema, ∃ declared,
        (TypeScriptTypes.declarations schema types).head? = some declared ∧ declared.name = "Maybe" ∧
        ∀ type, declared.aliasAt? part type = some (expand part template type) := by
  have hmark : ∀ type : String, (∃ first, type.toList.head? = some first ∧ first ≠ 'T') →
      ((NullMark.template template).mark type = expand part template type ↔
        FirstIsParameter part none template.toList) := by
    rintro type ⟨first, hhead, hfirst⟩
    obtain ⟨more, hmore⟩ := List.head?_eq_some_iff.1 hhead
    rw [NullMark.mark, Text.replaceFirst, expand, String.ofList_inj, hmore]
    exact replaceFirstChar_eq_expandFrom_iff part hfirst none template.toList
  refine ⟨⟨fun h => (hmark "number" ⟨'n', rfl, by decide⟩).1 (h "number"), fun h type => ?_⟩, hmark, ?_⟩
  · exact congrArg String.ofList (replaceFirstChar_eq_expandFrom type.toList h)
  · intro config operations types hoperations htypes hresolve hvalue
    have hnull : operations.nullMark = .template template := by
      rw [TypeScriptOperationsOptions.nullMark, if_pos hresolve, hvalue]
      rfl
    have hdeclared : types.maybeValue = template := maybeValue_eq_of_decode hoperations htypes hvalue
    refine ⟨hnull, fun schema => ⟨TypeScriptTypes.maybeDeclaration types, rfl, rfl, fun type => ?_⟩⟩
    rw [← hdeclared]
    rfl

/-- the identifier characters of ASCII -/
def isIdentifierChar (c : Char) : Bool :=
  c.isAlphanum || c = '_' || c = '$'

/-- a configuration whose nullable types are marked by a template -/
def treeConfig : Json :=
  .obj [("maybeValue", .str "T | Tree"), ("preResolveTypes", .bool true)]

/-- A letter `T` at the beginning of another identifier is no parameter, for the template and for the alias. -/
theorem template_expands_tree :
    ((NullMark.template "T | Tree").mark "number" = "number | Tree" ∧
      FirstIsParameter isIdentifierChar none "T | Tree".toList ∧
      ∀ type, (NullMark.template "T | Tree").mark type = expand isIdentifierChar "T | Tree" type) ∧
    ∃ operations types, TypeScriptOperationsOptions.decode treeConfig = .ok operations ∧
      TypeScriptOptions.decode treeConfig = .ok types ∧ operations.preResolveTypes = true ∧
      operations.maybeValue = some "T | Tree" ∧ operations.nullMark = .template "T | Tree" ∧ ∀ schema, ∃ declared,
        (TypeScriptTypes.declarations schema types).head? = some declared ∧ declared.name = "Maybe" ∧
        ∀ type, declared.aliasAt? isIdentifierChar type = some (expand isIdentifierChar "T | Tree" type) := by
  obtain ⟨hall, hsingle, hconfig⟩ := template_expands_iff isIdentifierChar "T | Tree"
  have hnumber : (NullMark.template "T | Tree").mark "number" = expand isIdentifierChar "T | Tree" "number" := by
    decide +kernel
  have hfirst := (hsingle "number" ⟨'n', rfl, by decide⟩).1 hnumber
  refine ⟨⟨by decide +kernel, hfirst, hall.2 hfirst⟩, _, _, rfl, rfl, rfl, rfl, ?_⟩
  exact hconfig treeConfig _ _ rfl rfl rfl rfl

/-- **A parameter is left as it is:** a template takes the first letter `T`, which may belong to another identifier, and leaves
every parameter behind it. -/
theorem parameter_left :
    (NullMark.template "T | Array<T>").mark "number" = "number | Array<T>" ∧
      expand isIdentifierChar "T | Array<T>" "number" = "number | Array<number>" ∧
    (NullMark.template "Tree<T>").mark "number" = "numberree<T>" ∧
      expand isIdentifierChar "Tree<T>" "number" = "Tree<number>" := by
  decide +kernel

end GraphGen
