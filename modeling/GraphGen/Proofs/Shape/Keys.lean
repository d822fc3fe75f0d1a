/-
The keys of a shape.

Fields are collected in a table, so that their keys are distinct. The type name that is added in front stands outside the
table: it is left out when a type name was selected, under whatever key, and nobody looks whether the key `__typename` is
taken. A field that is renamed to `__typename` takes it.

- `TypeShape.Within`: a shape that stands somewhere in a tree of shapes.
- `TypeShape.DoublesTypename`: the type name was added in front of a field with its key.
- `ShapeContext.exists_level`: every shape of a result, at any depth, is what one level gives; the sets of that level are
  reached over collected links.
- `Selection.sparesTypename`: selections that rename no field to `__typename`. Every level keeps that
  (`SparesTypename.of_level`), and below it nothing stands in the way of the type name (`typename_of_key`).

Main results:
- `keys_nodup_iff`: the keys of a shape, and the property names that it is written with, are distinct unless the type name is
  doubled; and when that is ruled out.
- `typename_doubled`: a shape with a doubled type name.
-/
import Mathlib.Logic.Relation
import GraphGen.Proofs.Shape.EveryField
import GraphGen.Proofs.Shape.Strategies
import GraphGen.Dialect.TypeScript
import GraphGen.Schema.Build

namespace GraphGen

/-! ## Shapes within shapes -/

namespace TypeShape

/-- the shape stands in the tree of another: it is that shape, or within a shape of one of its links -/
inductive Within : TypeShape → TypeShape → Prop where
  | self {shape : TypeShape} : Within shape shape
  | nested {inner between outer : TypeShape} {key : String} {field : Field} {shapes : List TypeShape}
      (hl : .link key field shapes ∈ outer.fields) (hb : between ∈ shapes) (hw : Within inner between) : Within inner outer

/-- the type name was added in front, no type name was selected, and yet a field has its key -/
def DoublesTypename (shape : TypeShape) : Prop :=
  ∃ names optional selected, shape.fields = .typename "__typename" names optional :: selected ∧
    (∀ key names optional, .typename key names optional ∉ selected) ∧ "__typename" ∈ selected.map ShapeField.key

end TypeShape

/-! ## Renaming to the type name -/

namespace Selection

mutual

/-- no field is renamed to `__typename`, at any depth -/
def sparesTypename : Selection → Bool
  | field aliasName name _ _ selections =>
    (aliasName.getD name != "__typename" || name == "__typename") && allSpareTypename selections
  | spread _ _ => true
  | inline _ _ selections => allSpareTypename selections

/-- no field of the selections is renamed to `__typename` -/
def allSpareTypename : List Selection → Bool
  | [] => true
  | selection :: rest => sparesTypename selection && allSpareTypename rest

end

/-- the key is not that of the type name, unless the type name is selected -/
def sparing (key name : String) : Bool :=
  key != "__typename" || name == "__typename"

mutual

theorem sparesTypename_eq : (selection : Selection) → sparesTypename selection = everyField sparing selection
  | field _ _ _ _ selections => by rw [sparesTypename, everyField, allSpareTypename_eq selections, sparing]
  | spread _ _ => by rw [sparesTypename, everyField]
  | inline _ _ selections => by rw [sparesTypename, everyField, allSpareTypename_eq selections]

theorem allSpareTypename_eq : (selections : List Selection) → allSpareTypename selections = everyFieldOf sparing selections
  | [] => by rw [allSpareTypename, everyFieldOf]
  | selection :: rest => by
    rw [allSpareTypename, everyFieldOf, sparesTypename_eq selection, allSpareTypename_eq rest]

end

end Selection

/-- an occurrence of the key `__typename` is a selection of the type name, and its sub-selections rename nothing to it -/
structure Occurrence.SparesTypename (o : Occurrence) : Prop where
  name : o.key = "__typename" → o.name = "__typename"
  selections : Selection.allSpareTypename o.selections = true

namespace ShapeContext

variable {ctx : ShapeContext} {concrete : String}

/-! ## The shapes of a result, level by level -/

/-- the shapes of a level that gives its results -/
theorem exists_shapeResult {fuel : Nat} {parent : String} {sets : List TaggedSet} {shapes : List TypeShape}
    (hr : (ctx.shapesUpTo (fuel + 1) parent sets).result = .ok shapes) {shape : TypeShape} (hm : shape ∈ shapes) :
    ∃ concrete, ctx.shapeResult (fun parent sets => (ctx.shapesUpTo fuel parent sets).result) sets concrete = .ok shape := by
  rw [result_shapesUpTo_succ] at hr
  obtain ⟨concretes, -, hshapes⟩ := bind_eq_ok_iff.1 hr
  obtain ⟨concrete, -, hshape⟩ := exists_of_mem_mapM hshapes shape hm
  exact ⟨concrete, hshape⟩

/-- the type name that is added in front is left out, or no type name was collected -/
theorem implicitTypename_cases (ctx : ShapeContext) (concrete : String) (collected : Table Slot) :
    ctx.implicitTypename concrete collected = [] ∨
      (ctx.options.skipTypename = false ∧ (∀ slot ∈ collected.values, slot.value ≠ .typename) ∧
        ∃ names optional, ctx.implicitTypename concrete collected = [.typename "__typename" names optional]) := by
  unfold implicitTypename
  dsimp only
  split
  · exact Or.inl rfl
  · rename_i h
    rw [Bool.or_eq_true, not_or, Bool.not_eq_true, Bool.not_eq_true] at h
    refine Or.inr ⟨h.2, fun slot hs hv => ?_, _, _, rfl⟩
    have hany := List.any_eq_false.1 h.1 slot hs
    rw [hv] at hany
    exact hany rfl

/-- a field of a shape is the type name in front, or comes from an entry that was collected -/
theorem exists_entry_of_mem {descend : String → List TaggedSet → Except Error (List TypeShape)} {sets : List TaggedSet}
    {shape : TypeShape} (hs : ctx.shapeResult descend sets concrete = .ok shape) {field : ShapeField}
    (hm : field ∈ shape.fields) :
    shape.type = concrete ∧ ((∃ key names optional, field = .typename key names optional) ∨
      ∃ collected, ctx.gather concrete sets = .ok collected ∧
        ∃ entry ∈ collected.entries, ctx.fieldResult descend concrete entry = .ok field) := by
  obtain ⟨htype, collected, selected, hg, hf, hfields⟩ := shapeResult_ok hs
  refine ⟨htype, ?_⟩
  rw [hfields] at hm
  rcases List.mem_append.1 hm with hfront | hm
  · rcases implicitTypename_cases ctx concrete collected with hnone | ⟨-, -, names, optional, hone⟩
    · rw [hnone] at hfront
      cases hfront
    · rw [hone] at hfront
      exact .inl ⟨_, names, optional, List.mem_singleton.1 hfront⟩
  · obtain ⟨entry, hentry, hfield⟩ := exists_of_mem_mapM hf _ hm
    exact .inr ⟨collected, hg, entry, hentry, hfield⟩

/-- a link of a shape has the shapes of a link that was collected for it -/
theorem calls_of_link {descend : String → List TaggedSet → Except Error (List TypeShape)} (parent : String)
    {sets : List TaggedSet} {shape : TypeShape} (hs : ctx.shapeResult descend sets concrete = .ok shape) {key : String}
    {field : Field} {shapes : List TypeShape} (hl : .link key field shapes ∈ shape.fields) :
    ∃ child : String × List TaggedSet, ctx.Calls child (parent, sets) ∧ descend child.1 child.2 = .ok shapes := by
  obtain ⟨-, ⟨_, _, _, heq⟩ | ⟨collected, hg, ⟨entryKey, slot⟩, hm, hfield⟩⟩ := exists_entry_of_mem hs hl
  · cases heq
  · unfold fieldResult at hfield
    split at hfield
    · cases hfield
    · cases hfield
    · rename_i collectedField links hv
      obtain ⟨nested, hnested, he⟩ := map_eq_ok_iff.1 hfield
      cases he
      exact ⟨(field.type.name, links), ⟨concrete, collected, _, slot, field, hg, hm, hv, rfl⟩, hnested⟩

/-- **Every shape is the shape of a level,** whose sets are reached over collected links. -/
theorem exists_level {fuel : Nat} {parent : String} {sets : List TaggedSet} {shapes : List TypeShape}
    (hr : (ctx.shapesUpTo fuel parent sets).result = .ok shapes) {outer inner : TypeShape} (hm : outer ∈ shapes)
    (hw : inner.Within outer) :
    ∃ level : String × List TaggedSet, Relation.ReflTransGen ctx.Calls level (parent, sets) ∧
      ∃ descend concrete, ctx.shapeResult descend level.2 concrete = .ok inner := by
  induction hw generalizing fuel parent sets shapes with
  | self =>
    cases fuel with
    | zero => cases hr
    | succ fuel =>
      obtain ⟨concrete, hs⟩ := exists_shapeResult hr hm
      exact ⟨(parent, sets), .refl, _, concrete, hs⟩
  | nested hl hb _ ih =>
    cases fuel with
    | zero => cases hr
    | succ fuel =>
      obtain ⟨concrete, hs⟩ := exists_shapeResult hr hm
      obtain ⟨child, hcall, hchild⟩ := calls_of_link parent hs hl
      obtain ⟨level, hreach, hlevel⟩ := ih hchild hb
      exact ⟨level, hreach.tail hcall, hlevel⟩

/-! ## The type name in front -/

/-- a type name of a shape comes from a collected one -/
theorem typename_not_mem {descend : String → List TaggedSet → Except Error (List TypeShape)} {collected : Table Slot}
    {selected : List ShapeField} (hf : collected.entries.mapM (ctx.fieldResult descend concrete) = .ok selected)
    (hv : ∀ slot ∈ collected.values, slot.value ≠ .typename) (key : String) (names : List String) (optional : Bool) :
    .typename key names optional ∉ selected := by
  intro hm
  obtain ⟨entry, he, hfield⟩ := exists_of_mem_mapM hf _ hm
  unfold fieldResult at hfield
  split at hfield
  · rename_i hvalue
    exact hv entry.2 (List.mem_map_of_mem he) hvalue
  · cases hfield
  · obtain ⟨_, -, he⟩ := map_eq_ok_iff.1 hfield
    cases he

/-- **The keys of a level are distinct unless it doubles the type name.** -/
theorem nodup_of_shapeResult {descend : String → List TaggedSet → Except Error (List TypeShape)} {sets : List TaggedSet}
    {shape : TypeShape} (hs : ctx.shapeResult descend sets concrete = .ok shape) :
    (shape.keys.Nodup ∧ ¬ shape.DoublesTypename) ∨
      (¬ shape.keys.Nodup ∧ shape.DoublesTypename ∧ ctx.options.skipTypename = false ∧
        ∃ collected, ctx.gather concrete sets = .ok collected ∧ "__typename" ∈ collected.keys ∧
          ∀ slot ∈ collected.values, slot.value ≠ .typename) := by
  obtain ⟨collected, hg, hs⟩ := bind_eq_ok_iff.1 hs
  obtain ⟨selected, hf, hs⟩ := bind_eq_ok_iff.1 hs
  cases hs
  have hkeys : selected.map ShapeField.key = collected.keys := keys_of_fieldResults hf
  have hnodup : (selected.map ShapeField.key).Nodup := hkeys ▸ collected.nodup_keys
  rcases implicitTypename_cases ctx concrete collected with hfront | ⟨hskip, hnone, names, optional, hfront⟩
  · rw [hfront, List.nil_append]
    refine Or.inl ⟨hnodup, ?_⟩
    rintro ⟨names, optional, rest, hfields, -, hmem⟩
    cases hfields
    exact (List.nodup_cons.1 hnodup).1 hmem
  · rw [hfront, List.singleton_append]
    have hlist : (TypeShape.mk concrete (.typename "__typename" names optional :: selected)).keys =
        "__typename" :: selected.map ShapeField.key := rfl
    by_cases hmem : "__typename" ∈ selected.map ShapeField.key
    · refine Or.inr ⟨fun h => ?_, ⟨names, optional, selected, rfl, typename_not_mem hf hnone, hmem⟩, hskip, collected, hg,
        hkeys ▸ hmem, hnone⟩
      exact (List.nodup_cons.1 (hlist ▸ h)).1 hmem
    · refine Or.inl ⟨hlist ▸ List.nodup_cons.2 ⟨hmem, hnodup⟩, ?_⟩
      rintro ⟨_, _, rest, hfields, -, hin⟩
      cases hfields
      exact hmem hin

/-! ## What spares the type name -/

/-- the sets and the fragments rename no field to `__typename` -/
structure SparesTypename (ctx : ShapeContext) (sets : List TaggedSet) : Prop where
  sets : ∀ set ∈ sets, Selection.allSpareTypename set.selections = true
  fragments : ∀ name entry, ctx.fragments.get? name = some entry →
    Selection.allSpareTypename entry.fragment.selections = true

/-- which says something of every field -/
theorem sparesTypename_iff {sets : List TaggedSet} : ctx.SparesTypename sets ↔ ctx.EveryField Selection.sparing sets := by
  constructor
  · intro h
    exact ⟨fun set hset => Selection.allSpareTypename_eq _ ▸ h.sets set hset,
      fun name entry he => Selection.allSpareTypename_eq _ ▸ h.fragments name entry he⟩
  · intro h
    exact ⟨fun set hset => (Selection.allSpareTypename_eq _).trans (h.sets set hset),
      fun name entry he => (Selection.allSpareTypename_eq _).trans (h.fragments name entry he)⟩

theorem MeetsSets.sparesTypename {sets : List TaggedSet} {met : List Occurrence} (h : MeetsSets ctx concrete sets met)
    (hs : ctx.SparesTypename sets) : ∀ o ∈ met, o.SparesTypename := by
  intro o ho
  obtain ⟨hhere, hbelow⟩ := (sparesTypename_iff.1 hs).met h o ho
  refine ⟨fun hk => ?_, (Selection.allSpareTypename_eq _).trans hbelow⟩
  rw [Selection.sparing, Bool.or_eq_true, bne_iff_ne, beq_iff_eq] at hhere
  exact hhere.resolve_left (not_not_intro hk)

/-- **What spares the type name does so on every level below.** -/
theorem SparesTypename.of_level {level top : String × List TaggedSet} (h : Relation.ReflTransGen ctx.Calls level top)
    (hs : ctx.SparesTypename top.2) : ctx.SparesTypename level.2 :=
  sparesTypename_iff.2 ((sparesTypename_iff.1 hs).of_level h)

/-- slots of the type name merge to one -/
theorem typename_merge {old new : Slot} (ho : old.value = .typename) (hn : new.value = .typename) :
    (old.merge new).value = .typename := by
  rcases merge_cases old new with ⟨_, _, _, _, hlink, -⟩ | ⟨hmerge, -⟩
  · rw [ho] at hlink
    cases hlink
  · rcases prefer_cases old new with hp | hp <;> rw [hmerge, hp] <;> assumption

/-- a selection of the type name collects it -/
theorem SparesTypename.typename_of_key {sets : List TaggedSet} (hs : ctx.SparesTypename sets) {collected : Table Slot}
    (hg : ctx.gather concrete sets = .ok collected) (hk : "__typename" ∈ collected.keys) :
    ∃ slot ∈ collected.values, slot.value = .typename := by
  obtain ⟨met, hmet, rfl⟩ := gather_ok hg
  obtain ⟨slot, hslot⟩ := Table.mem_keys_iff.1 hk
  refine ⟨slot, List.mem_map_of_mem (Table.get?_eq_some_iff.1 hslot), ?_⟩
  refine fillAll_invariant (fun key slot => key = "__typename" → slot.value = .typename)
    (fun _ _ _ ho hn hk => typename_merge (ho hk) (hn hk)) met .empty nofun (fun o ho hkey => ?_) "__typename" slot hslot rfl
  have hc := hmet.content o ho
  unfold fieldContent at hc
  rw [if_pos ((hmet.sparesTypename hs o ho).name hkey)] at hc
  exact (Except.ok.inj hc).symm

end ShapeContext

namespace Target

variable {target : Target} {fragments : FragmentIndex}

theorem flattenField_key (strategy : Strategy) (field : ShapeField) :
    (target.flattenField strategy field).key = field.key := by
  cases field <;> rw [flattenField] <;> rfl

/-- writing nested shapes keeps the keys -/
theorem flatten_keys (strategy : Strategy) (shape : TypeShape) : (target.flatten strategy shape).keys = shape.keys := by
  obtain ⟨type, fields⟩ := shape
  rw [flatten, FlatShape.keys, flattenFields_eq_map, List.map_map]
  exact List.map_congr_left fun field _ => flattenField_key strategy field

/-- **Keys are distinct unless the type name is doubled.** Let a shape stand anywhere in a result, for any target and
fragments, on any type and selection sets. Its keys are distinct if and only if it does not double the type name. It is
written with distinct property names, under either strategy, if and only if its keys are distinct. And they are when no type
name is added, or when neither the selection sets nor the fragments rename a field to `__typename`. -/
theorem keys_nodup_iff {parent : String} {sets : List SelectionSet} {noted : List String} {shapes : List TypeShape}
    (hr : (ShapeContext.runResolve ((target.context fragments).resolve parent sets) noted).1 = .ok shapes)
    {outer inner : TypeShape} (hm : outer ∈ shapes) (hw : inner.Within outer) :
    (inner.keys.Nodup ↔ ¬ inner.DoublesTypename) ∧
    (∀ strategy, (target.propertyNames (target.flatten strategy inner) strategy).Nodup ↔ inner.keys.Nodup) ∧
    (target.options.skipTypename = true → inner.keys.Nodup) ∧
    ((∀ set ∈ sets, Selection.allSpareTypename set = true) →
      (∀ name entry, fragments.get? name = some entry → Selection.allSpareTypename entry.fragment.selections = true) →
      inner.keys.Nodup) := by
  have hresult := (ShapeContext.steady_resolveTagged parent _ noted).symm.trans hr
  obtain ⟨level, hreach, descend, concrete, hshape⟩ := ShapeContext.exists_level hresult hm hw
  have hlevel := ShapeContext.nodup_of_shapeResult hshape
  refine ⟨?_, fun strategy => ?_, fun hskip => ?_, fun hsets hfragments => ?_⟩
  · rcases hlevel with ⟨hn, hd⟩ | ⟨hn, hd, -⟩
    · exact ⟨fun _ => hd, fun _ => hn⟩
    · exact ⟨fun h => absurd h hn, fun h => absurd hd h⟩
  · rw [(propertyNames_perm strategy _).nodup_iff, flatten_keys]
  · rcases hlevel with ⟨hn, -⟩ | ⟨-, -, hfalse, -⟩
    · exact hn
    · exact absurd (hfalse.symm.trans hskip) nofun
  · rcases hlevel with ⟨hn, -⟩ | ⟨-, -, -, collected, hg, hk, hnone⟩
    · exact hn
    · have hspares : (target.context fragments).SparesTypename (sets.map (⟨·, .inPlace⟩)) := by
        refine ⟨fun set hset => ?_, hfragments⟩
        obtain ⟨selections, hs, rfl⟩ := List.mem_map.1 hset
        exact hsets selections hs
      obtain ⟨slot, hslot, hv⟩ := (hspares.of_level hreach).typename_of_key hg hk
      exact absurd hv (hnone slot hslot)

/-- users have names -/
def userSchema : SchemaDocument :=
  [.type ⟨none, "User", [], .object []
    [⟨none, "id", [], .nonNull (.named "ID"), []⟩, ⟨none, "name", [], .named "String", []⟩]⟩]

/-- the name of a user under the key of the type name -/
def hidingSelections : SelectionSet :=
  [.field (some "__typename") "name" [] [] [], .field none "id" [] [] []]

/-- a target that writes its own names -/
def plainTarget (schema : Schema) : Target := ⟨schema, .typeScript .union false, id, id, .plain⟩

theorem keys_nodup_iff_user :
    ∃ schema shape, Schema.ofDocument userSchema = .ok schema ∧
      (ShapeContext.runResolve (((plainTarget schema).context .empty).resolve "User"
        [[.field none "name" [] [] []]]) []).1 = .ok [shape] ∧
      shape.keys = ["__typename", "name"] ∧ shape.keys.Nodup := by
  have hkeys : ∀ schema shape, Schema.ofDocument userSchema = .ok schema →
      (ShapeContext.runResolve (((plainTarget schema).context .empty).resolve "User"
        [[.field none "name" [] [] []]]) []).1 = .ok [shape] → shape.keys.Nodup := by
    intro schema shape _ hr
    refine (keys_nodup_iff hr List.mem_cons_self .self).2.2.2 (fun set hset => ?_) nofun
    rw [List.mem_singleton] at hset
    rw [hset]
    rfl
  refine ⟨_, _, rfl, rfl, rfl, ?_⟩
  exact hkeys _ _ rfl rfl

/-- **The type name is doubled** by a field that is renamed to it: the keys of the shape are not distinct. -/
theorem typename_doubled :
    ∃ schema shape, Schema.ofDocument userSchema = .ok schema ∧
      (ShapeContext.runResolve (((plainTarget schema).context .empty).resolve "User" [hidingSelections]) []).1 =
        .ok [shape] ∧
      shape.keys = ["__typename", "__typename", "id"] ∧ ¬ shape.keys.Nodup ∧
      ∀ strategy, ¬ ((plainTarget schema).propertyNames ((plainTarget schema).flatten strategy shape) strategy).Nodup := by
  obtain ⟨schema, shape, hs, hr, hkeys⟩ : ∃ schema shape, Schema.ofDocument userSchema = .ok schema ∧
      (ShapeContext.runResolve (((plainTarget schema).context .empty).resolve "User" [hidingSelections]) []).1 =
        .ok [shape] ∧
      shape.keys = ["__typename", "__typename", "id"] := ⟨_, _, rfl, rfl, rfl⟩
  have hrepeated : ¬ shape.keys.Nodup := by
    rw [hkeys]
    decide
  refine ⟨schema, shape, hs, hr, hkeys, hrepeated, fun strategy h => hrepeated ?_⟩
  rwa [(propertyNames_perm strategy _).nodup_iff, flatten_keys] at h

end Target

end GraphGen
