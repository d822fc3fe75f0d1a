/-
What all fields of selections have in common.

A property of field selections, by response key and name, that all selections have at any depth, in the fragments too, is a
property of whatever resolving comes to.

- `Selection.everyField`: every field selection has the property, at any depth.
- `ShapeContext.EveryField`: so it is in the sets of a level and in the fragments.
- `EveryField.met`: then every field that is met on the level has the property, and all fields below it.
- `EveryField.of_calls`, `EveryField.of_level`: and so it is on every level below.
- `EveryField.of_key`: the keys that are collected are keys of fields with the property.
-/
import GraphGen.Proofs.Shape.Levels

namespace GraphGen

namespace Selection

mutual

/-- every field has the property of response keys and names, at any depth -/
def everyField (p : String → String → Bool) : Selection → Bool
  | field aliasName name _ _ selections => p (aliasName.getD name) name && everyFieldOf p selections
  | spread _ _ => true
  | inline _ _ selections => everyFieldOf p selections

/-- every field of the selections has the property -/
def everyFieldOf (p : String → String → Bool) : List Selection → Bool
  | [] => true
  | selection :: rest => everyField p selection && everyFieldOf p rest

end

end Selection

/-- the field has the property, and so have all fields below it -/
structure Occurrence.Every (p : String → String → Bool) (o : Occurrence) : Prop where
  here : p o.key o.name = true
  below : Selection.everyFieldOf p o.selections = true

namespace ShapeContext

variable {ctx : ShapeContext} {concrete : String} {p : String → String → Bool}

/-- every field of the sets and of the fragments has the property -/
structure EveryField (ctx : ShapeContext) (p : String → String → Bool) (sets : List TaggedSet) : Prop where
  sets : ∀ set ∈ sets, Selection.everyFieldOf p set.selections = true
  fragments : ∀ name entry, ctx.fragments.get? name = some entry →
    Selection.everyFieldOf p entry.fragment.selections = true

theorem Meets.everyField {stack : List String} {provenance : Provenance} {selections : List Selection}
    {met : List Occurrence} (h : Meets ctx concrete stack provenance selections met)
    (hs : Selection.everyFieldOf p selections = true)
    (hf : ∀ name entry, ctx.fragments.get? name = some entry →
      Selection.everyFieldOf p entry.fragment.selections = true) :
    ∀ o ∈ met, o.Every p := by
  induction h with
  | nil => simp
  | field _ _ ih =>
    rw [Selection.everyFieldOf, Selection.everyField, Bool.and_eq_true, Bool.and_eq_true] at hs
    obtain ⟨⟨hhere, hbelow⟩, hrest⟩ := hs
    intro o ho
    rcases List.mem_cons.1 ho with rfl | ho
    · exact ⟨hhere, hbelow⟩
    · exact ih hrest o ho
  | inline _ _ _ ihi ihr =>
    rw [Selection.everyFieldOf, Selection.everyField, Bool.and_eq_true] at hs
    exact fun o ho => (List.mem_append.1 ho).elim (ihi hs.1 o) (ihr hs.2 o)
  | inlineSkip _ _ ih =>
    rw [Selection.everyFieldOf, Bool.and_eq_true] at hs
    exact ih hs.2
  | spread _ he _ _ _ ihi ihr =>
    rw [Selection.everyFieldOf, Bool.and_eq_true] at hs
    exact fun o ho => (List.mem_append.1 ho).elim (ihi (hf _ _ he) o) (ihr hs.2 o)
  | spreadSkip _ _ _ _ ih =>
    rw [Selection.everyFieldOf, Bool.and_eq_true] at hs
    exact ih hs.2

namespace EveryField

/-- what is met on the level -/
theorem met {sets : List TaggedSet} (hs : ctx.EveryField p sets) {met : List Occurrence}
    (h : MeetsSets ctx concrete sets met) : ∀ o ∈ met, o.Every p := by
  intro o ho
  obtain ⟨set, hset, _, hm, ho⟩ := h.exists_meets o ho
  exact hm.everyField (hs.sets set hset) hs.fragments o ho

/-- **What all fields have in common** they have on every level below. -/
theorem of_calls {child parent : String × List TaggedSet} (hs : ctx.EveryField p parent.2) (hc : ctx.Calls child parent) :
    ctx.EveryField p child.2 := by
  obtain ⟨concrete, collected, key, slot, field, hg, hm, hv, -⟩ := hc
  obtain ⟨met, hmet, rfl⟩ := gather_ok hg
  obtain ⟨-, hfrom⟩ := gather_linksFrom hmet hm field child.2 hv
  refine ⟨fun set hset => ?_, hs.fragments⟩
  obtain ⟨o, ho, rfl⟩ := hfrom set hset
  exact (hs.met hmet o ho).below

theorem of_level {level top : String × List TaggedSet} (h : Relation.ReflTransGen ctx.Calls level top)
    (hs : ctx.EveryField p top.2) : ctx.EveryField p level.2 := by
  induction h with
  | refl => exact hs
  | tail _ hc ih => exact ih (hs.of_calls hc)

/-- a key is collected for a field with the property -/
theorem of_key {sets : List TaggedSet} (hs : ctx.EveryField p sets) {collected : Table Slot}
    (hg : ctx.gather concrete sets = .ok collected) {key : String} {slot : Slot} (hm : (key, slot) ∈ collected.entries) :
    ∃ name, p key name = true := by
  obtain ⟨met, hmet, rfl⟩ := gather_ok hg
  refine fillAll_invariant (fun key _ => ∃ name, p key name = true) (fun _ _ _ h _ => h) met .empty nofun (fun o ho => ?_)
    key slot (Table.get?_eq_some_iff.2 hm)
  exact ⟨o.name, (hs.met hmet o ho).here⟩

end EveryField

end ShapeContext

end GraphGen
