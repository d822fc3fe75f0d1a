/-
The wrappers of a type can be read off its text.

A target writes a type from its named type outwards: every list is put between the marks of a list, and every nullable type
gets a mark in front, behind or around it. A required type gets none, so that the marks of several levels stand next to each
other. They never run into one another:
- `Encoder.TellsApart`: lists, nullable types and the named type differ, and what is marked can be read off.
  `Wrapping.wrap_injective` follows by induction on the lists, outermost first.
- `bracketed`: an encoder that puts fixed texts around lists and around nullable types. It tells types apart when these
  texts differ at one end (`tellsApart_bracketed`). All targets write like one: the parentheses that Flow puts around unions
  are never needed (`Dialect.Flow.wrap_flow`).
- `Unmarked`: a name without the characters that marks are made of, such as every name of the syntax.
- `Dialect.FixedMarks`, `Encoder.OfTarget`: the dialects whose mark is not configured, and the encoders of the targets.

Main result:
- `wrapping_determined`: the text of a type has one wrapping, and so has the property that a field without selections is
  written as, where an optional key may stand for the outermost mark.
-/
import Mathlib.Data.List.Basic
import Mathlib.Data.List.Induction
import GraphGen.Dialect.Flow
import GraphGen.Shape.Render
import GraphGen.Syntax.Token
import GraphGen.Targets.CSharpClasses
import GraphGen.Targets.JavaClasses
import GraphGen.Targets.KotlinClasses

namespace GraphGen

/-! ## Wrappings, outermost list first -/

namespace Wrapping

/-- a wrapping has no lists, or is one in a further list -/
@[elab_as_elim]
theorem inListRec {motive : Wrapping → Prop} (named : ∀ required, motive ⟨required, []⟩)
    (list : ∀ inner required, motive inner → motive (inner.inList required)) (w : Wrapping) : motive w := by
  obtain ⟨innerRequired, lists⟩ := w
  induction lists using List.reverseRecOn with
  | nil => exact named innerRequired
  | append_singleton lists required ih => exact list ⟨innerRequired, lists⟩ required ih

@[simp] theorem inList_inj {w v : Wrapping} {required required' : Bool} :
    w.inList required = v.inList required' ↔ w = v ∧ required = required' := by
  cases w
  cases v
  simp [inList, and_assoc]

@[simp] theorem named_ne_inList {w : Wrapping} {innerRequired required : Bool} :
    ⟨innerRequired, []⟩ ≠ w.inList required := by
  simp [inList]

@[simp] theorem isNullable_named (required : Bool) : isNullable ⟨required, []⟩ = !required := rfl

@[simp] theorem isNullable_inList (w : Wrapping) (required : Bool) : (w.inList required).isNullable = !required := by
  simp [isNullable, isRequired, inList]

@[simp] theorem requireOuter_named (required : Bool) : requireOuter ⟨required, []⟩ = ⟨true, []⟩ := rfl

@[simp] theorem requireOuter_inList (w : Wrapping) (required : Bool) :
    (w.inList required).requireOuter = w.inList true := by
  unfold requireOuter inList
  cases hl : w.lists ++ [required] with
  | nil => simp at hl
  | cons => simp [← hl]

/-- nullable types are told apart by what is left when the outermost type is taken as required -/
theorem eq_of_requireOuter {w v : Wrapping} (hw : w.isNullable = true) (hv : v.isNullable = true)
    (h : w.requireOuter = v.requireOuter) : w = v := by
  cases w using inListRec with
  | named required =>
    cases v using inListRec with
    | named required' => simp_all
    | list inner' required' => simp at h
  | list inner required =>
    cases v using inListRec with
    | named required' => exact absurd h.symm (by simp)
    | list inner' required' => simp_all

end Wrapping

/-! ## Encoders that tell types apart -/

/-- lists, nullable types and the named type differ, and what a list or a nullable type is made of can be read off -/
structure Encoder.TellsApart (encoder : Encoder) (base : String) : Prop where
  required : ∀ type, encoder.required type = type
  list_inj : ∀ item other, encoder.list item = encoder.list other → item = other
  nullable_inj : ∀ type other, encoder.nullable type = encoder.nullable other → type = other
  list_ne_nullable : ∀ item type, encoder.list item ≠ encoder.nullable type
  base_ne_list : ∀ item, base ≠ encoder.list item
  base_ne_nullable : ∀ type, base ≠ encoder.nullable type

namespace Wrapping

variable {encoder : Encoder} {base : String}

/-- on types that are not marked as nullable, the mark can be read off -/
theorem mark_inj (h : encoder.TellsApart base) {required required' : Bool} {type type' : String}
    (ht : ∀ inner, type ≠ encoder.nullable inner) (ht' : ∀ inner, type' ≠ encoder.nullable inner)
    (he : mark encoder required type = mark encoder required' type') : required = required' ∧ type = type' := by
  simp only [mark, h.required] at he
  cases required <;> cases required'
  · exact ⟨rfl, h.nullable_inj _ _ he⟩
  · exact absurd he.symm (ht' type)
  · exact absurd he (ht type')
  · exact ⟨rfl, he⟩

/-- **The text of a type has one wrapping.** -/
theorem wrap_injective (h : encoder.TellsApart base) {w v : Wrapping}
    (he : w.wrap base encoder = v.wrap base encoder) : w = v := by
  have hlist : ∀ item inner, encoder.list item ≠ encoder.nullable inner := h.list_ne_nullable
  induction w using inListRec generalizing v with
  | named required =>
    cases v using inListRec with
    | named required' =>
      obtain ⟨rfl, -⟩ := mark_inj h h.base_ne_nullable h.base_ne_nullable he
      rfl
    | list inner' required' =>
      rw [wrap_inList] at he
      obtain ⟨-, hbase⟩ := mark_inj h h.base_ne_nullable (hlist _) he
      exact absurd hbase (h.base_ne_list _)
  | list inner required ih =>
    rw [wrap_inList] at he
    cases v using inListRec with
    | named required' =>
      obtain ⟨-, hbase⟩ := mark_inj h (hlist _) h.base_ne_nullable he
      exact absurd hbase.symm (h.base_ne_list _)
    | list inner' required' =>
      rw [wrap_inList] at he
      obtain ⟨rfl, hitem⟩ := mark_inj h (hlist _) (hlist _) he
      rw [ih (h.list_inj _ _ hitem)]

end Wrapping

/-! ## Fixed texts around types -/

/-- the characters that marks are made of -/
def markCharacters : List Char :=
  ['<', '?', '@', '|', '&']

/-- a name without the characters that marks are made of -/
def Unmarked (name : String) : Prop :=
  ∀ c ∈ markCharacters, c ∉ name.toList

/-- all characters of a name of the syntax are those of names -/
theorem isNameRest_of_mem {name : String} (h : Token.isName name = true) {c : Char} (hc : c ∈ name.toList) :
    Token.isNameRest c = true := by
  unfold Token.isName at h
  split at h
  · cases h
  · next first rest hchars =>
    rw [Bool.and_eq_true, List.all_eq_true] at h
    rw [hchars, List.mem_cons] at hc
    rcases hc with rfl | hc
    · simp [Token.isNameRest, h.1]
    · exact h.2 c hc

/-- names of the syntax are such names -/
theorem unmarked_of_isName {name : String} (h : Token.isName name = true) : Unmarked name := by
  intro c hmark hname
  have hnone : (markCharacters.all fun c => !Token.isNameRest c) = true := by decide
  have hother := List.all_eq_true.1 hnone c hmark
  rw [isNameRest_of_mem h hname] at hother
  cases hother

/-- fixed texts around lists and around nullable types -/
def bracketed (listOpen listClose nullOpen nullClose : String) : Encoder where
  list item := listOpen ++ item ++ listClose
  nullable type := nullOpen ++ type ++ nullClose

/-- both texts have characters, and the first ones differ -/
def FrontsDiffer (left right : String) : Prop :=
  left.toList ≠ [] ∧ right.toList ≠ [] ∧ left.toList.head? ≠ right.toList.head?

/-- both texts have characters, and the last ones differ -/
def BacksDiffer (left right : String) : Prop :=
  left.toList ≠ [] ∧ right.toList ≠ [] ∧ left.toList.getLast? ≠ right.toList.getLast?

/-- some character of the texts around a type is one that names do not have -/
def Visible (left right : String) : Prop :=
  ∃ c ∈ markCharacters, c ∈ left.toList ++ right.toList

instance (left right : String) : Decidable (FrontsDiffer left right) :=
  inferInstanceAs (Decidable (_ ∧ _ ∧ _))

instance (left right : String) : Decidable (BacksDiffer left right) :=
  inferInstanceAs (Decidable (_ ∧ _ ∧ _))

theorem enclosed_inj {left right text other : String} (h : left ++ text ++ right = left ++ other ++ right) :
    text = other := by
  rwa [String.append_left_inj, String.append_right_inj] at h

theorem Visible.ne {left right name : String} (h : Visible left right) (hname : Unmarked name) (text : String) :
    name ≠ left ++ text ++ right := by
  obtain ⟨c, hmark, hc⟩ := h
  have habsent := hname c hmark
  rintro rfl
  simp only [String.toList_append, List.mem_append] at hc habsent
  tauto

/-- **Fixed texts tell types apart** when they differ at one end and can be seen next to a name. -/
theorem tellsApart_bracketed {listOpen listClose nullOpen nullClose base : String} (hb : Unmarked base)
    (hmarks : FrontsDiffer listOpen nullOpen ∨ BacksDiffer listClose nullClose)
    (hlist : Visible listOpen listClose) (hnull : Visible nullOpen nullClose) :
    (bracketed listOpen listClose nullOpen nullClose).TellsApart base where
  required _ := rfl
  list_inj _ _ h := enclosed_inj h
  nullable_inj _ _ h := enclosed_inj h
  list_ne_nullable item type h := by
    have htext : listOpen.toList ++ (item.toList ++ listClose.toList)
        = nullOpen.toList ++ (type.toList ++ nullClose.toList) := by
      simpa only [bracketed, String.toList_append, List.append_assoc] using congrArg String.toList h
    rcases hmarks with ⟨hleft, hright, hne⟩ | ⟨hleft, hright, hne⟩
    · have hfront := congrArg List.head? htext
      rw [List.head?_append_of_ne_nil _ hleft, List.head?_append_of_ne_nil _ hright] at hfront
      exact hne hfront
    · have hback := congrArg List.getLast? htext
      simp only [← List.append_assoc] at hback
      rw [List.getLast?_append_of_ne_nil _ hleft, List.getLast?_append_of_ne_nil _ hright] at hback
      exact hne hback
  base_ne_list item := hlist.ne hb item
  base_ne_nullable type := hnull.ne hb type

/-! ## The parentheses of Flow -/

namespace Dialect.Flow

/-- a text without operators of unions and intersections -/
def OperatorFree (type : String) : Prop :=
  '|' ∉ type.toList ∧ '&' ∉ type.toList

theorem operatorAt_eq_false {chars : List Char} (hor : '|' ∉ chars) (hand : '&' ∉ chars) (depth : Nat)
    (afterSpace : Bool) : operatorAt depth afterSpace chars = false := by
  induction chars generalizing depth afterSpace with
  | nil => rfl
  | cons c rest ih =>
    simp only [List.mem_cons, not_or] at hor hand
    have hrest := ih hor.2 hand.2
    simp [operatorAt, hrest, Ne.symm hor.1, Ne.symm hand.1]

theorem OperatorFree.nullable {type : String} (h : OperatorFree type) : nullable type = "?" ++ type := by
  simp [Flow.nullable, needsParentheses, operatorAt_eq_false h.1 h.2]

/-- the marks of Flow, without parentheses -/
def marks (readOnly : Bool) : Encoder :=
  bracketed (if readOnly then "$ReadOnlyArray<" else "Array<") ">" "?" ""

theorem OperatorFree.mark {type : String} (h : OperatorFree type) (required readOnly : Bool) :
    OperatorFree (Wrapping.mark (marks readOnly) required type) := by
  obtain ⟨hor, hand⟩ := h
  cases required <;> simp [OperatorFree, Wrapping.mark, marks, bracketed, hor, hand]

theorem OperatorFree.list {type : String} (h : OperatorFree type) (readOnly : Bool) :
    OperatorFree (list readOnly type) := by
  obtain ⟨hor, hand⟩ := h
  cases readOnly <;> simp [OperatorFree, Flow.list, hor, hand]

/-- without operators, Flow marks without parentheses -/
theorem OperatorFree.mark_flow {type : String} (h : OperatorFree type) (required exact readOnly : Bool) :
    Wrapping.mark (flow exact readOnly).encoder required type = Wrapping.mark (marks readOnly) required type := by
  cases required
  · simp [Wrapping.mark, flow, marks, bracketed, h.nullable]
  · rfl

/-- **The parentheses of Flow are never needed** around a name under its wrappers. -/
theorem wrap_flow {base : String} (hb : OperatorFree base) (exact readOnly : Bool) (w : Wrapping) :
    w.wrap base (flow exact readOnly).encoder = w.wrap base (marks readOnly)
      ∧ OperatorFree (w.wrap base (marks readOnly)) := by
  induction w using Wrapping.inListRec with
  | named required => exact ⟨hb.mark_flow required exact readOnly, hb.mark required readOnly⟩
  | list inner required ih =>
    obtain ⟨heq, hfree⟩ := ih
    have hlist := hfree.list readOnly
    rw [Wrapping.wrap_inList, Wrapping.wrap_inList, heq]
    exact ⟨hlist.mark_flow required exact readOnly, hlist.mark required readOnly⟩

end Dialect.Flow

/-! ## The targets -/

/-- the dialects whose mark of nullable types is not configured -/
inductive Dialect.FixedMarks : Dialect → Prop
  | typeScriptMaybe (immutable : Bool) : FixedMarks (.typeScript .maybe immutable)
  | typeScriptUnion (immutable : Bool) : FixedMarks (.typeScript .union immutable)
  | flow (exact readOnly : Bool) : FixedMarks (.flow exact readOnly)

/-- the encoders of the targets, but for configured marks -/
inductive Encoder.OfTarget : Encoder → Prop
  | dialect {dialect : Dialect} (h : dialect.FixedMarks) : OfTarget dialect.encoder
  | cSharp : OfTarget CSharpClasses.encoder
  | kotlin : OfTarget KotlinClasses.encoder
  | annotatedJava : OfTarget JavaClasses.annotated

namespace Encoder

variable {base : String}

theorem tellsApart_typeScriptMaybe (hb : Unmarked base) (immutable : Bool) :
    (Dialect.typeScript .maybe immutable).encoder.TellsApart base := by
  have h : (Dialect.typeScript .maybe immutable).encoder
      = bracketed (if immutable then "ReadonlyArray<" else "Array<") ">" "Maybe<" ">" := rfl
  rw [h]
  cases immutable <;>
    exact tellsApart_bracketed hb (by decide) ⟨'<', by decide, by decide⟩ ⟨'<', by decide, by decide⟩

theorem tellsApart_typeScriptUnion (hb : Unmarked base) (immutable : Bool) :
    (Dialect.typeScript .union immutable).encoder.TellsApart base := by
  have h : (Dialect.typeScript .union immutable).encoder
      = bracketed (if immutable then "ReadonlyArray<" else "Array<") ">" "" " | null" := by
    simp [Dialect.typeScript, bracketed, NullMark.mark, Dialect.TypeScript.list, funext_iff]
  rw [h]
  cases immutable <;>
    exact tellsApart_bracketed hb (by decide) ⟨'<', by decide, by decide⟩ ⟨'|', by decide, by decide⟩

theorem tellsApart_flowMarks (hb : Unmarked base) (readOnly : Bool) : (Dialect.Flow.marks readOnly).TellsApart base := by
  cases readOnly <;>
    exact tellsApart_bracketed hb (by decide) ⟨'<', by decide, by decide⟩ ⟨'?', by decide, by decide⟩

theorem tellsApart_cSharp (hb : Unmarked base) : CSharpClasses.encoder.TellsApart base := by
  have h : CSharpClasses.encoder = bracketed "List<" ">" "" "?" := by
    simp [CSharpClasses.encoder, bracketed]
  exact h ▸ tellsApart_bracketed hb (by decide) ⟨'<', by decide, by decide⟩ ⟨'?', by decide, by decide⟩

theorem tellsApart_kotlin (hb : Unmarked base) : KotlinClasses.encoder.TellsApart base := by
  have h : KotlinClasses.encoder = bracketed "Iterable<" ">" "" "?" := by
    simp [KotlinClasses.encoder, bracketed]
  exact h ▸ tellsApart_bracketed hb (by decide) ⟨'<', by decide, by decide⟩ ⟨'?', by decide, by decide⟩

theorem tellsApart_java (hb : Unmarked base) : JavaClasses.annotated.TellsApart base := by
  have h : JavaClasses.annotated = bracketed "Iterable<" ">" "@Nullable " "" := by
    simp [JavaClasses.annotated, bracketed]
  exact h ▸ tellsApart_bracketed hb (by decide) ⟨'<', by decide, by decide⟩ ⟨'@', by decide, by decide⟩

end Encoder

theorem Unmarked.operatorFree {base : String} (hb : Unmarked base) : Dialect.Flow.OperatorFree base :=
  ⟨hb '|' (by decide), hb '&' (by decide)⟩

theorem Dialect.FixedMarks.wrap_injective {dialect : Dialect} (hd : dialect.FixedMarks) {base : String}
    (hb : Unmarked base) {w v : Wrapping} (h : w.wrap base dialect.encoder = v.wrap base dialect.encoder) : w = v := by
  cases hd with
  | typeScriptMaybe immutable => exact Wrapping.wrap_injective (Encoder.tellsApart_typeScriptMaybe hb immutable) h
  | typeScriptUnion immutable => exact Wrapping.wrap_injective (Encoder.tellsApart_typeScriptUnion hb immutable) h
  | flow exact readOnly =>
    rw [(Flow.wrap_flow hb.operatorFree exact readOnly w).1, (Flow.wrap_flow hb.operatorFree exact readOnly v).1] at h
    exact Wrapping.wrap_injective (Encoder.tellsApart_flowMarks hb readOnly) h

theorem Encoder.OfTarget.wrap_injective {encoder : Encoder} (he : encoder.OfTarget) {base : String}
    (hb : Unmarked base) {w v : Wrapping} (h : w.wrap base encoder = v.wrap base encoder) : w = v := by
  cases he with
  | dialect hd => exact hd.wrap_injective hb h
  | cSharp => exact Wrapping.wrap_injective (tellsApart_cSharp hb) h
  | kotlin => exact Wrapping.wrap_injective (tellsApart_kotlin hb) h
  | annotatedJava => exact Wrapping.wrap_injective (tellsApart_java hb) h

/-! ## Properties of fields -/

theorem Target.isNullable_of_isOptional {target : Target} {type : WrappedType} (h : target.isOptional type = true) :
    type.isNullable = true := by
  simp only [isOptional, ShapeSettings.isOptional, Bool.and_eq_true] at h
  exact h.1

/-- **The property of a field has one wrapping.** A nullable type may be written without its mark under an optional key;
with required keys it has the mark. -/
theorem Target.inlineProperty_injective {target : Target} (hd : target.dialect.FixedMarks) {base : String}
    (hb : Unmarked base) {key other : String} {type type' : WrappedType}
    (hoptional : (target.inlineProperty key type base).optional = (target.inlineProperty other type' base).optional)
    (htype : (target.inlineProperty key type base).type = (target.inlineProperty other type' base).type) :
    type.wrapping = type'.wrapping := by
  simp only [inlineProperty] at hoptional htype
  rw [← hoptional] at htype
  split at htype
  · -- an optional key stands for the outermost mark of both types
    next hunder =>
    rw [Bool.and_eq_true] at hunder
    have hnullable := isNullable_of_isOptional hunder.1
    have hnullable' := isNullable_of_isOptional (hoptional ▸ hunder.1)
    exact Wrapping.eq_of_requireOuter hnullable hnullable' (hd.wrap_injective hb htype)
  · exact hd.wrap_injective hb htype

/-- **The text of a type determines its wrappers** around a name, for every encoder of a target. So do the key and the text
of the property that a field without selections is written as, when both fields are written around the same name. -/
theorem wrapping_determined {base : String} (hb : Unmarked base) :
    (∀ encoder : Encoder, encoder.OfTarget → ∀ w v : Wrapping, w.wrap base encoder = v.wrap base encoder → w = v)
      ∧ ∀ target : Target, target.dialect.FixedMarks → ∀ (key other : String) (field field' : Field),
        target.writtenLeaf field.type.name = base → target.writtenLeaf field'.type.name = base →
        (target.inlineField (.leaf key field)).optional = (target.inlineField (.leaf other field')).optional →
        (target.inlineField (.leaf key field)).type = (target.inlineField (.leaf other field')).type →
          field.type.wrapping = field'.type.wrapping := by
  refine ⟨fun encoder he w v h => he.wrap_injective hb h, fun target hd key other field field' hbase hbase' => ?_⟩
  simp only [Target.inlineField, hbase, hbase']
  exact Target.inlineProperty_injective hd hb

/-- a target that writes fields with optional keys, and scalars by their names -/
def namesTarget : Target :=
  ⟨default, .typeScript .maybe false, id, id, .plain⟩

/-- a field of strings -/
def namesField (wrapping : Wrapping) : Field :=
  ⟨"names", none, ⟨"String", wrapping⟩, [], [], none⟩

/-- lists of nullable strings, required or not: Flow puts the mark at different places, and where TypeScript has one text
for both, the keys differ -/
theorem wrapping_determined_names :
    Unmarked "String"
      ∧ Wrapping.wrap ⟨true, [false]⟩ "String" (Dialect.flow true false).encoder
        ≠ Wrapping.wrap ⟨false, [true]⟩ "String" (Dialect.flow true false).encoder
      ∧ (namesTarget.inlineField (.leaf "names" (namesField ⟨false, [false]⟩))).type
        = (namesTarget.inlineField (.leaf "names" (namesField ⟨false, [true]⟩))).type
      ∧ (namesTarget.inlineField (.leaf "names" (namesField ⟨false, [false]⟩))).optional
        ≠ (namesTarget.inlineField (.leaf "names" (namesField ⟨false, [true]⟩))).optional := by
  have hb : Unmarked "String" := unmarked_of_isName (by decide)
  refine ⟨hb, fun h => ?_, rfl, fun hoptional => ?_⟩
  · exact absurd ((wrapping_determined hb).1 _ (.dialect (.flow true false)) _ _ h) (by decide)
  · have hsame := (wrapping_determined hb).2 namesTarget (.typeScriptMaybe false) "names" "names"
      (namesField ⟨false, [false]⟩) (namesField ⟨false, [true]⟩) rfl rfl hoptional rfl
    exact absurd hsame (by decide)

end GraphGen
