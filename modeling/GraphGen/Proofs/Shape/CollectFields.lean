/-
Shapes select what field collection selects.

`CollectFields` is field collection as the query language describes it, without conditional directives: it goes through
the selections for one concrete type, takes in the fragments that apply, and expands a fragment only where its name comes
first. `Schema.Applies` is its condition: the type itself, an interface that it implements, or a union that contains it.

Collecting here expands a fragment wherever it is spread. So it meets the same field selections, some of them again:
- `Thinned`: a list without some elements that came before. It has the same first mentions.
- `Covers`: what field collection has expanded is entered, or all its field selections were met.
- `Meets.collectFields`: what is met, without some repetitions, is what field collection yields. The induction is on how it
  is met; `Covers` is what every step preserves.

Main result:
- `resolve_refines_collectFields`: the keys of a shape, and the selection sets that each of its nested shapes is built from.
-/
import GraphGen.Proofs.Schema.Accepted
import GraphGen.Proofs.Shape.Levels

namespace GraphGen

/-! ## Field collection -/

/-- whether selections under a condition apply to a concrete type -/
def Schema.Applies (schema : Schema) (concrete condition : String) : Prop :=
  condition = concrete ∨
    (schema.kind? condition = some .interface ∧
      ∃ type, schema.type? concrete = some type ∧ condition ∈ type.interfaces) ∨
    (schema.kind? condition = some .union ∧
      ∃ type, schema.type? condition = some type ∧ concrete ∈ type.members)

/-- the field selections that selections yield for a concrete type, in order, given the fragments that were visited; and
the fragments that are visited afterwards -/
inductive CollectFields (schema : Schema) (fragments : FragmentIndex) (concrete : String) :
    List String → List Selection → List KeyedField → List String → Prop where
  | done {visited : List String} : CollectFields schema fragments concrete visited [] [] visited
  | field {visited after : List String} {aliasName : Option String} {name : String} {arguments : List (String × Value)}
      {directives : List Directive} {selections rest : List Selection} {fields : List KeyedField}
      (hr : CollectFields schema fragments concrete visited rest fields after) :
      CollectFields schema fragments concrete visited (.field aliasName name arguments directives selections :: rest)
        (⟨aliasName.getD name, name, selections⟩ :: fields) after
  | inline {visited between after : List String} {condition : Option String} {directives : List Directive}
      {selections rest : List Selection} {inner fields : List KeyedField}
      (ha : ∀ type, condition = some type → schema.Applies concrete type)
      (hi : CollectFields schema fragments concrete visited selections inner between)
      (hr : CollectFields schema fragments concrete between rest fields after) :
      CollectFields schema fragments concrete visited (.inline condition directives selections :: rest)
        (inner ++ fields) after
  | inlineSkip {visited after : List String} {condition : String} {directives : List Directive}
      {selections rest : List Selection} {fields : List KeyedField} (ha : ¬ schema.Applies concrete condition)
      (hr : CollectFields schema fragments concrete visited rest fields after) :
      CollectFields schema fragments concrete visited (.inline (some condition) directives selections :: rest) fields after
  | spreadVisited {visited after : List String} {name : String} {directives : List Directive} {rest : List Selection}
      {fields : List KeyedField} (hv : name ∈ visited)
      (hr : CollectFields schema fragments concrete visited rest fields after) :
      CollectFields schema fragments concrete visited (.spread name directives :: rest) fields after
  | spreadUnknown {visited after : List String} {name : String} {directives : List Directive} {rest : List Selection}
      {fields : List KeyedField} (hv : name ∉ visited) (he : fragments.get? name = none)
      (hr : CollectFields schema fragments concrete (visited ++ [name]) rest fields after) :
      CollectFields schema fragments concrete visited (.spread name directives :: rest) fields after
  | spreadSkip {visited after : List String} {name : String} {directives : List Directive} {rest : List Selection}
      {fields : List KeyedField} {entry : IndexedFragment} (hv : name ∉ visited) (he : fragments.get? name = some entry)
      (ha : ¬ schema.Applies concrete entry.fragment.condition)
      (hr : CollectFields schema fragments concrete (visited ++ [name]) rest fields after) :
      CollectFields schema fragments concrete visited (.spread name directives :: rest) fields after
  | spread {visited between after : List String} {name : String} {directives : List Directive} {rest : List Selection}
      {inner fields : List KeyedField} {entry : IndexedFragment} (hv : name ∉ visited)
      (he : fragments.get? name = some entry) (ha : schema.Applies concrete entry.fragment.condition)
      (hi : CollectFields schema fragments concrete (visited ++ [name]) entry.fragment.selections inner between)
      (hr : CollectFields schema fragments concrete between rest fields after) :
      CollectFields schema fragments concrete visited (.spread name directives :: rest) (inner ++ fields) after

namespace CollectFields

variable {schema : Schema} {fragments : FragmentIndex} {concrete : String}

/-- **Field collection yields one list.** -/
theorem unique {visited after after' : List String} {selections : List Selection} {fields fields' : List KeyedField}
    (h : CollectFields schema fragments concrete visited selections fields after)
    (h' : CollectFields schema fragments concrete visited selections fields' after') :
    fields = fields' ∧ after = after' := by
  induction h generalizing fields' after' with
  | done =>
    cases h'
    exact ⟨rfl, rfl⟩
  | field _ ih =>
    cases h' with
    | field hr' =>
      obtain ⟨rfl, rfl⟩ := ih hr'
      exact ⟨rfl, rfl⟩
  | inline ha _ _ ihi ihr =>
    cases h' with
    | inline _ hi' hr' =>
      obtain ⟨rfl, rfl⟩ := ihi hi'
      obtain ⟨rfl, rfl⟩ := ihr hr'
      exact ⟨rfl, rfl⟩
    | inlineSkip ha' _ => exact absurd (ha _ rfl) ha'
  | inlineSkip ha _ ih =>
    cases h' with
    | inline ha' _ _ => exact absurd (ha' _ rfl) ha
    | inlineSkip _ hr' => exact ih hr'
  | spreadVisited hv _ ih =>
    cases h' with
    | spreadVisited _ hr' => exact ih hr'
    | spreadUnknown hv' _ _ => exact absurd hv hv'
    | spreadSkip hv' _ _ _ => exact absurd hv hv'
    | spread hv' _ _ _ _ => exact absurd hv hv'
  | spreadUnknown hv he _ ih =>
    cases h' with
    | spreadVisited hv' _ => exact absurd hv' hv
    | spreadUnknown _ _ hr' => exact ih hr'
    | spreadSkip _ he' _ _ => rw [he] at he'; cases he'
    | spread _ he' _ _ _ => rw [he] at he'; cases he'
  | spreadSkip hv he ha _ ih =>
    cases h' with
    | spreadVisited hv' _ => exact absurd hv' hv
    | spreadUnknown _ he' _ => rw [he] at he'; cases he'
    | spreadSkip _ _ _ hr' => exact ih hr'
    | spread _ he' ha' _ _ =>
      rw [he] at he'
      cases he'
      exact absurd ha' ha
  | spread hv he ha _ _ ihi ihr =>
    cases h' with
    | spreadVisited hv' _ => exact absurd hv' hv
    | spreadUnknown _ he' _ => rw [he] at he'; cases he'
    | spreadSkip _ he' ha' _ =>
      rw [he] at he'
      cases he'
      exact absurd ha ha'
    | spread _ he' _ hi' hr' =>
      rw [he] at he'
      cases he'
      obtain ⟨rfl, rfl⟩ := ihi hi'
      obtain ⟨rfl, rfl⟩ := ihr hr'
      exact ⟨rfl, rfl⟩

theorem append {visited between after : List String} {selections more : List Selection} {fields others : List KeyedField}
    (h : CollectFields schema fragments concrete visited selections fields between)
    (h' : CollectFields schema fragments concrete between more others after) :
    CollectFields schema fragments concrete visited (selections ++ more) (fields ++ others) after := by
  induction h with
  | done => exact h'
  | field _ ih => exact .field (ih h')
  | inline ha hi _ _ ih =>
    rw [List.append_assoc]
    exact .inline ha hi (ih h')
  | inlineSkip ha _ ih => exact .inlineSkip ha (ih h')
  | spreadVisited hv _ ih => exact .spreadVisited hv (ih h')
  | spreadUnknown hv he _ ih => exact .spreadUnknown hv he (ih h')
  | spreadSkip hv he ha _ ih => exact .spreadSkip hv he ha (ih h')
  | spread hv he ha hi _ _ ih =>
    rw [List.append_assoc]
    exact .spread hv he ha hi (ih h')

end CollectFields

/-! ## Conditions -/

namespace Schema

variable {document : SchemaDocument} {schema : Schema} {concrete condition : String}

theorem kind?_of_mem_members {type : NamedType} (ht : schema.type? condition = some type) (hm : concrete ∈ type.members) :
    schema.kind? condition = some .union := by
  unfold NamedType.members at hm
  split at hm
  · rename_i hc
    simp [kind?, ht, NamedType.kind, hc]
  · cases hm

theorem applies_of_fits (hs : ofDocument document = .ok schema) (h : schema.fits concrete condition = true) :
    schema.Applies concrete condition := by
  unfold fits at h
  rcases Bool.or_eq_true_iff.1 h with h | h
  · exact Or.inl (of_decide_eq_true h).symm
  · split at h
    · cases h
    · rename_i type ht
      rcases Bool.or_eq_true_iff.1 h with h | h
      · have hi : condition ∈ type.interfaces := List.contains_iff_mem.1 h
        exact Or.inr (Or.inl ⟨interface_of_mem hs ht hi, type, ht, hi⟩)
      · split at h
        · rename_i other ho
          have hm : concrete ∈ other.members := List.contains_iff_mem.1 h
          exact Or.inr (Or.inr ⟨kind?_of_mem_members ho hm, other, ho, hm⟩)
        · cases h

theorem applies_of_mem_possibleTypes (hs : ofDocument document = .ok schema)
    (h : concrete ∈ schema.possibleTypes condition) : schema.Applies concrete condition := by
  unfold possibleTypes at h
  split at h
  · cases h
  · rename_i type ht
    split at h
    · rw [List.mem_singleton] at h
      exact Or.inl (h.trans (name_eq hs ht)).symm
    · rename_i members hc
      have hm : concrete ∈ type.members := by simpa [NamedType.members, hc] using h
      exact Or.inr (Or.inr ⟨kind?_of_mem_members ht hm, type, ht, hm⟩)
    · obtain ⟨implementor, hv, hn⟩ := List.mem_flatMap.1 h
      obtain ⟨interface, hf, rfl⟩ := List.mem_map.1 hn
      obtain ⟨hi, he⟩ := List.mem_filter.1 hf
      have he : interface = condition := of_decide_eq_true he
      subst he
      have ht := type?_name hs hv
      exact Or.inr (Or.inl ⟨interface_of_mem hs ht hi, implementor, ht, hi⟩)
    · cases h

end Schema

namespace ShapeContext

variable {ctx : ShapeContext} {concrete : String} {document : SchemaDocument}

/-- **The condition that is checked is that of field collection.** -/
theorem conditionHolds_iff (hs : Schema.ofDocument document = .ok ctx.schema) (condition : String) :
    ctx.conditionHolds concrete condition = true ↔ ctx.schema.Applies concrete condition := by
  unfold conditionHolds
  rw [Bool.or_eq_true]
  constructor
  · rintro (h | h)
    · exact Schema.applies_of_fits hs h
    · exact Schema.applies_of_mem_possibleTypes hs (List.contains_iff_mem.1 h)
  · rintro (rfl | ⟨-, type, ht, hi⟩ | ⟨-, type, ht, hm⟩)
    · exact Or.inl (by simp [Schema.fits])
    · exact Or.inl (by simp [Schema.fits, ht, NamedType.implements, hi])
    · refine Or.inr (List.contains_iff_mem.2 ?_)
      unfold NamedType.members at hm
      split at hm
      · rename_i members hc
        simpa [Schema.possibleTypes, ht, hc] using hm
      · cases hm

end ShapeContext

/-! ## Lists without repetitions -/

/-- the list without some of the elements that stand before them, or that were seen -/
inductive Thinned {α : Type} : List α → List α → List α → Prop where
  | nil {seen : List α} : Thinned seen [] []
  | keep {seen full kept : List α} {x : α} (h : Thinned (seen ++ [x]) full kept) : Thinned seen (x :: full) (x :: kept)
  | drop {seen full kept : List α} {x : α} (hx : x ∈ seen) (h : Thinned seen full kept) : Thinned seen (x :: full) kept

namespace Thinned

variable {α : Type} {seen full kept : List α}

theorem sublist (h : Thinned seen full kept) : kept.Sublist full := by
  induction h with
  | nil => exact .slnil
  | keep _ ih => exact ih.cons_cons _
  | drop _ _ ih => exact ih.cons _

theorem mem (h : Thinned seen full kept) : ∀ x ∈ full, x ∈ seen ++ kept := by
  induction h with
  | nil => simp
  | keep _ ih =>
    intro y hy
    rcases List.mem_cons.1 hy with rfl | hy
    · simp
    · simpa using ih y hy
  | drop hx _ ih =>
    intro y hy
    rcases List.mem_cons.1 hy with rfl | hy
    · exact List.mem_append_left _ hx
    · exact ih y hy

theorem of_seen (h : ∀ x ∈ full, x ∈ seen) : Thinned seen full [] := by
  induction full with
  | nil => exact .nil
  | cons x full ih => exact .drop (h x List.mem_cons_self) (ih fun y hy => h y (List.mem_cons_of_mem _ hy))

theorem append {more others : List α} (h : Thinned seen full kept) (h' : Thinned (seen ++ kept) more others) :
    Thinned seen (full ++ more) (kept ++ others) := by
  induction h with
  | nil => simpa using h'
  | keep _ ih => exact .keep (ih (by simpa using h'))
  | drop hx _ ih => exact .drop hx (ih h')

/-- **The first mentions are the same.** -/
theorem eraseDups_map (h : Thinned seen full kept) (f : α → String) :
    ((seen ++ full).map f).eraseDups = ((seen ++ kept).map f).eraseDups := by
  induction h with
  | nil => rfl
  | keep _ ih => simpa using ih
  | drop hx _ ih =>
    rw [← ih, List.map_append, List.map_append, List.map_cons]
    exact eraseDups_append_cons_of_mem (List.mem_map_of_mem hx)

end Thinned

/-! ## What is met is what field collection yields -/

namespace ShapeContext

variable {ctx : ShapeContext} {concrete : String} {document : SchemaDocument}

/-- every visited fragment is entered, or does not apply, or all that it has was seen -/
def Covers (ctx : ShapeContext) (concrete : String) (stack visited : List String) (seen : List KeyedField) : Prop :=
  ∀ name ∈ visited, name ∈ stack ∨ ∀ entry, ctx.fragments.get? name = some entry →
    ctx.conditionHolds concrete entry.fragment.condition = true → ∀ entered met,
      Meets ctx concrete entered .spread entry.fragment.selections met → ∀ o ∈ met, o.toKeyedField ∈ seen

variable {stack visited : List String} {seen : List KeyedField}

theorem Covers.more (h : Covers ctx concrete stack visited seen) (more : List KeyedField) :
    Covers ctx concrete stack visited (seen ++ more) :=
  fun name hn => (h name hn).imp_right fun hall entry he ha entered met hm o ho =>
    List.mem_append_left _ (hall entry he ha entered met hm o ho)

/-- a fragment that is entered may be visited -/
theorem Covers.enter (h : Covers ctx concrete stack visited seen) (name : String) :
    Covers ctx concrete (stack ++ [name]) (visited ++ [name]) seen := by
  intro n hn
  rcases List.mem_append.1 hn with hn | hn
  · exact (h n hn).imp_left (List.mem_append_left _)
  · exact Or.inl (List.mem_append_right _ hn)

/-- when a fragment is left, all that it has was seen -/
theorem Covers.leave {name : String} {entry : IndexedFragment} {entered : List String} {inner : List Occurrence}
    (h : Covers ctx concrete (stack ++ [name]) visited seen) (he : ctx.fragments.get? name = some entry)
    (hi : Meets ctx concrete entered .spread entry.fragment.selections inner)
    (hseen : ∀ o ∈ inner, o.toKeyedField ∈ seen) : Covers ctx concrete stack visited seen := by
  intro n hn
  rcases h n hn with hs | hall
  · rcases List.mem_append.1 hs with hs | hs
    · exact Or.inl hs
    · right
      intro found hf _ other met hm o ho
      rw [List.mem_singleton.1 hs, he] at hf
      cases hf
      exact hseen o (hi.unique hm ▸ ho)
  · exact Or.inr hall

/-- a fragment that does not apply may be visited -/
theorem Covers.skip {name : String} {entry : IndexedFragment} (h : Covers ctx concrete stack visited seen)
    (he : ctx.fragments.get? name = some entry) (ha : ctx.conditionHolds concrete entry.fragment.condition = false) :
    Covers ctx concrete stack (visited ++ [name]) seen := by
  intro n hn
  rcases List.mem_append.1 hn with hn | hn
  · exact h n hn
  · right
    intro found hf hholds
    rw [List.mem_singleton.1 hn, he] at hf
    cases hf
    rw [ha] at hholds
    cases hholds

/-- **What is met, without some repetitions, is what field collection yields.** -/
theorem Meets.collectFields (hs : Schema.ofDocument document = .ok ctx.schema) {provenance : Provenance}
    {selections : List Selection} {met : List Occurrence} (h : Meets ctx concrete stack provenance selections met)
    (hc : Covers ctx concrete stack visited seen) :
    ∃ fields after, CollectFields ctx.schema ctx.fragments concrete visited selections fields after ∧
      Thinned seen (met.map (·.toKeyedField)) fields ∧ Covers ctx concrete stack after (seen ++ fields) := by
  induction h generalizing visited seen with
  | nil => exact ⟨[], visited, .done, .nil, by simpa using hc⟩
  | @field _ _ aliasName name _ _ selections _ _ _ _ _ ih =>
    obtain ⟨fields, after, hf, ht, hcover⟩ := ih (hc.more [⟨aliasName.getD name, name, selections⟩])
    exact ⟨_ :: fields, after, .field hf, .keep ht, by simpa using hcover⟩
  | @inline _ _ condition _ _ _ _ _ ha _ _ ihi ihr =>
    have happlies : ∀ type, condition = some type → ctx.schema.Applies concrete type := by
      rintro type rfl
      exact (conditionHolds_iff hs type).1 ha
    obtain ⟨inner, between, hi, hti, hci⟩ := ihi hc
    obtain ⟨fields, after, hf, ht, hcover⟩ := ihr hci
    refine ⟨inner ++ fields, after, .inline happlies hi hf, ?_, by simpa using hcover⟩
    rw [List.map_append]
    exact hti.append ht
  | @inlineSkip _ _ condition _ _ _ _ ha _ ih =>
    obtain ⟨fields, after, hf, ht, hcover⟩ := ih hc
    cases condition with
    | none => cases ha
    | some type =>
      have hnot : ¬ ctx.schema.Applies concrete type := by
        rw [← conditionHolds_iff hs type]
        exact Bool.eq_false_iff.1 ha
      exact ⟨fields, after, .inlineSkip hnot hf, ht, hcover⟩
  | @spread _ _ name _ _ entry inner _ hn he ha hi _ ihi ihr =>
    by_cases hv : name ∈ visited
    · -- visited and not entered: all that the fragment has was seen
      have hseen := (hc name hv).resolve_left hn entry he ha _ _ hi
      obtain ⟨fields, after, hf, ht, hcover⟩ := ihr hc
      refine ⟨fields, after, .spreadVisited hv hf, ?_, hcover⟩
      rw [List.map_append]
      have hdrop : Thinned seen (inner.map (·.toKeyedField)) [] := .of_seen (by simpa using hseen)
      exact hdrop.append (by simpa using ht)
    · have happlies := (conditionHolds_iff hs _).1 ha
      obtain ⟨expanded, between, hx, htx, hcx⟩ := ihi (hc.enter name)
      have hseen : ∀ o ∈ inner, o.toKeyedField ∈ seen ++ expanded :=
        fun o ho => htx.mem _ (List.mem_map_of_mem ho)
      obtain ⟨fields, after, hf, ht, hcover⟩ := ihr (hcx.leave he hi hseen)
      refine ⟨expanded ++ fields, after, .spread hv he happlies hx hf, ?_, by simpa using hcover⟩
      rw [List.map_append]
      exact htx.append ht
  | @spreadSkip _ _ name _ _ entry _ _ he ha _ ih =>
    by_cases hv : name ∈ visited
    · obtain ⟨fields, after, hf, ht, hcover⟩ := ih hc
      exact ⟨fields, after, .spreadVisited hv hf, ht, hcover⟩
    · have hnot : ¬ ctx.schema.Applies concrete entry.fragment.condition := by
        rw [← conditionHolds_iff hs]
        exact Bool.eq_false_iff.1 ha
      obtain ⟨fields, after, hf, ht, hcover⟩ := ih (hc.skip he ha)
      exact ⟨fields, after, .spreadSkip hv he hnot hf, ht, hcover⟩

theorem MeetsSets.collectFields (hs : Schema.ofDocument document = .ok ctx.schema) {sets : List TaggedSet}
    {met : List Occurrence} (h : MeetsSets ctx concrete sets met) (hc : Covers ctx concrete [] visited seen) :
    ∃ fields after, CollectFields ctx.schema ctx.fragments concrete visited (sets.flatMap (·.selections)) fields after ∧
      Thinned seen (met.map (·.toKeyedField)) fields := by
  induction h generalizing visited seen with
  | nil => exact ⟨[], visited, .done, .nil⟩
  | cons hm _ ih =>
    obtain ⟨fields, between, hf, ht, hcover⟩ := hm.collectFields hs hc
    obtain ⟨others, after, hf', ht'⟩ := ih hcover
    refine ⟨fields ++ others, after, ?_, ?_⟩
    · rw [List.flatMap_cons]
      exact hf.append hf'
    · rw [List.map_append]
      exact ht.append ht'

/-- a selection of a composite field collects its sub-selections -/
theorem fieldContent_composite {provenance : Provenance} {name : String} {selections : SelectionSet} {field : Field}
    (hn : name ≠ "__typename") (hf : ctx.schema.requireField concrete name = .ok field)
    (hl : ctx.schema.isLeaf field.type.name = false) :
    ctx.fieldContent concrete provenance name selections = .ok (.link field [⟨selections, provenance⟩]) := by
  unfold fieldContent
  rw [if_neg hn, hf]
  simp [hl]

/-- **Shapes refine field collection.** Whatever selection sets stand for `parent` (`resolve` gives sets that all stand in
place, a nested shape gives the sets that were joined for it), let a shape be among the results.
- Apart from the type name that was added, its keys are those of the fields that field collection yields for its type, in
  the order of their first mention.
- When all of these fields under one key are selections of one composite field, the nested shapes are resolved from
  their selection sets: none is left out, they keep their order, and each set is that of one of these fields. -/
theorem resolve_refines_collectFields (hs : Schema.ofDocument document = .ok ctx.schema) (hb : ctx.fragments.Built)
    {parent : String} {sets : List TaggedSet} {noted : List String} {shapes : List TypeShape}
    (hr : (runResolve (ctx.resolveTagged parent sets) noted).1 = .ok shapes) {shape : TypeShape} (hm : shape ∈ shapes) :
    ∃ collected selected occurrences after,
      ctx.gather shape.type sets = .ok collected ∧
      shape.fields = ctx.implicitTypename shape.type collected ++ selected ∧
      CollectFields ctx.schema ctx.fragments shape.type [] (sets.flatMap (·.selections)) occurrences after ∧
      selected.map ShapeField.key = (occurrences.map (·.key)).eraseDups ∧
      ∀ key name field, (∃ o ∈ occurrences, o.key = key) → (∀ o ∈ occurrences, o.key = key → o.name = name) →
        name ≠ "__typename" → ctx.schema.requireField shape.type name = .ok field →
        ctx.schema.isLeaf field.type.name = false →
        ∃ nested tagged, .link key field nested ∈ selected ∧
          (∀ noted, (runResolve (ctx.resolveTagged field.type.name tagged) noted).1 = .ok nested) ∧
          ((occurrences.filter (·.key = key)).map (·.selections)).Sublist (tagged.map (·.selections)) ∧
          ∀ set ∈ tagged, ∃ o ∈ occurrences, o.key = key ∧ o.selections = set.selections := by
  obtain ⟨collected, selected, hg, hselected, hfields⟩ := shape_of_mem hb hr hm
  obtain ⟨met, hmet, hfill⟩ := gather_ok hg
  have hstart : Covers ctx shape.type [] [] [] := fun _ hn => nomatch hn
  obtain ⟨occurrences, after, hcollect, hthin⟩ := hmet.collectFields hs hstart
  refine ⟨collected, selected, occurrences, after, hg, hfields, hcollect, ?_, ?_⟩
  · calc selected.map ShapeField.key = collected.keys := keys_of_fieldResults hselected
      _ = (met.map (·.key)).eraseDups := by
        rw [hfill, keys_fillAll]
        rfl
      _ = ((met.map (·.toKeyedField)).map (·.key)).eraseDups := by
        rw [List.map_map]
        rfl
      _ = (occurrences.map (·.key)).eraseDups := hthin.eraseDups_map (·.key)
  · intro key name field hkey hname hn hf hl
    have hcontent : ∀ o ∈ met, o.key = key → o.content = .link field [o.tagged] := by
      intro o ho hk
      have hone : o.toKeyedField ∈ occurrences := hthin.mem _ (List.mem_map_of_mem ho)
      have hc := hmet.content o ho
      rw [hname _ hone hk, fieldContent_composite hn hf hl] at hc
      exact (Except.ok.inj hc).symm
    have hkeymet : ∃ o ∈ met, o.key = key := by
      obtain ⟨o, ho, hk⟩ := hkey
      obtain ⟨o', ho', rfl⟩ := List.mem_map.1 (hthin.sublist.subset ho)
      exact ⟨o', ho', hk⟩
    obtain ⟨provenance, hslot⟩ := get?_fillAll_link hkeymet hcontent
    have hentry := Table.get?_eq_some_iff.1 (hfill ▸ hslot)
    obtain ⟨value, hvalue, hresult⟩ := exists_mem_of_mapM hselected _ hentry
    obtain ⟨nested, hnested, rfl⟩ := map_eq_ok_iff.1 hresult
    refine ⟨nested, (met.filter (·.key = key)).map (·.tagged), hvalue, fun noted => ?_, ?_, ?_⟩
    · rw [steady_resolveTagged]
      exact hnested
    · have hsub := (hthin.sublist.filter (·.key = key)).map (·.selections)
      rw [List.filter_map, List.map_map] at hsub
      rw [List.map_map]
      exact hsub
    · intro set hset
      obtain ⟨o, ho, rfl⟩ := List.mem_map.1 hset
      obtain ⟨ho, hk⟩ := List.mem_filter.1 ho
      exact ⟨o.toKeyedField, hthin.mem _ (List.mem_map_of_mem ho), of_decide_eq_true hk, rfl⟩

/-- a user is a node, and nodes have owners -/
def nodeSchema : SchemaDocument :=
  [.type ⟨none, "Node", [], .interface [] [⟨none, "owner", [], .named "User", []⟩]⟩,
    .type ⟨none, "User", [], .object ["Node"]
      [⟨none, "name", [], .named "String", []⟩, ⟨none, "owner", [], .named "User", []⟩]⟩]

/-- the name of the owner of a node -/
def ownerFragments : List Fragment :=
  [⟨"OwnerParts", "Node", [], [.field none "owner" [] [] [.field none "name" [] [] []]]⟩]

/-- the fragment is spread twice, the second time under a condition -/
def ownerSelections : SelectionSet :=
  [.spread "OwnerParts" [], .field none "owner" [] [] [.field (some "called") "name" [] [] []],
    .inline (some "Node") [] [.field none "name" [] [] [], .spread "OwnerParts" []]]

theorem resolve_refines_collectFields_owner :
    ∃ schema index shape, Schema.ofDocument nodeSchema = .ok schema ∧
      FragmentIndex.ofDocuments [] ownerFragments = .ok index ∧
      (runResolve (resolve ⟨schema, index, .plain⟩ "User" [ownerSelections]) []).1 = .ok [shape] ∧
      shape.keys = ["__typename", "owner", "name"] ∧
      ∃ occurrences after, CollectFields schema index "User" [] ownerSelections occurrences after ∧
        (occurrences.map (·.key)).eraseDups = ["owner", "name"] := by
  have hrefines : ∀ schema index shape, Schema.ofDocument nodeSchema = .ok schema →
      FragmentIndex.ofDocuments [] ownerFragments = .ok index →
      (runResolve (resolve ⟨schema, index, .plain⟩ "User" [ownerSelections]) []).1 = .ok [shape] → _ :=
    fun schema index shape hs hi hr =>
      resolve_refines_collectFields hs (Or.inr ⟨[], ownerFragments, hi⟩) hr List.mem_cons_self
  refine ⟨_, _, _, rfl, rfl, rfl, rfl, ?_⟩
  obtain ⟨collected, selected, occurrences, after, hg, hfields, hcollect, hkeys, -⟩ := hrefines _ _ _ rfl rfl rfl
  cases hg
  cases hfields
  exact ⟨occurrences, after, hcollect, hkeys.symm⟩

end ShapeContext

end GraphGen
