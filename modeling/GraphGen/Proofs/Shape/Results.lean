/-
What resolving gives, apart from the types it notes.

Resolving keeps a list of the types that got a shape, but never looks at it: an action is steady when its result is the same
whatever was noted before (`Resolve.Steady`). Every action that makes shapes is (`steady_shapesUpTo`). Its result
(`Resolve.result`) then composes like a plain computation that may fail (`result_bind`, `result_mapM`), so that shapes can
be reasoned about with no state around:
- `result_level`: the shapes of one level from those of the levels below.
- `keys_of_fieldResults`: the fields of a shape have the keys that were collected.
- `succeeds_shapesUpTo_iff`: selections have shapes when their fields can be collected and those of every link have shapes.
-/
import GraphGen.Proofs.Traversal
import GraphGen.Shape.Resolve

namespace GraphGen

open ShapeContext

namespace Resolve

variable {α β : Type}

/-- what an action gives when no type was noted before -/
def result (action : Resolve α) : Except Error α := (runResolve action []).1

/-- the action gives the same whatever types were noted before -/
def Steady (action : Resolve α) : Prop := ∀ visited, (runResolve action visited).1 = action.result

theorem run_bind (action : Resolve α) (next : α → Resolve β) (visited : List String) :
    runResolve (action >>= next) visited =
      match runResolve action visited with
      | (.ok value, visited) => runResolve (next value) visited
      | (.error error, visited) => (.error error, visited) := by
  show (ExceptT.bindCont next (action.run visited).1).run (action.run visited).2 = _
  unfold runResolve
  obtain ⟨outcome, after⟩ := action.run visited
  cases outcome <;> rfl

theorem run_map (f : α → β) (action : Resolve α) (visited : List String) :
    runResolve (f <$> action) visited = ((runResolve action visited).1.map f, (runResolve action visited).2) := by
  rw [map_eq_pure_bind, run_bind]
  obtain ⟨outcome, after⟩ := runResolve action visited
  cases outcome <;> rfl

theorem steady_pure (value : α) : (pure value : Resolve α).Steady := fun _ => rfl

theorem steady_ofExcept (outcome : Except Error α) : (ofExcept outcome).Steady := by
  intro visited
  cases outcome <;> rfl

theorem result_ofExcept (outcome : Except Error α) : (ofExcept outcome).result = outcome := by
  cases outcome <;> rfl

theorem steady_note (concrete : String) : (note concrete).Steady := fun _ => rfl

theorem Steady.bind {action : Resolve α} {next : α → Resolve β} (ha : action.Steady) (hn : ∀ value, (next value).Steady) :
    (action >>= next).Steady := by
  intro visited
  have hv := ha visited
  unfold result at hv ⊢
  rw [run_bind, run_bind]
  rcases hr : runResolve action visited with ⟨outcome, after⟩
  rcases hr' : runResolve action [] with ⟨outcome', after'⟩
  rw [hr, hr'] at hv
  cases hv
  cases outcome with
  | error error => rfl
  | ok value => exact (hn value after).trans (hn value after').symm

theorem result_bind {action : Resolve α} {next : α → Resolve β} (hn : ∀ value, (next value).Steady) :
    (action >>= next).result = action.result >>= fun value => (next value).result := by
  unfold result
  rw [run_bind]
  obtain ⟨outcome, after⟩ := runResolve action []
  cases outcome with
  | error error => rfl
  | ok value => exact hn value after

theorem steady_mapM {f : α → Resolve β} {l : List α} (h : ∀ x, (f x).Steady) : (l.mapM f).Steady := by
  induction l with
  | nil => exact steady_pure _
  | cons x l ih =>
    rw [List.mapM_cons]
    exact (h x).bind fun _ => ih.bind fun _ => steady_pure _

theorem result_mapM {f : α → Resolve β} {l : List α} (h : ∀ x, (f x).Steady) :
    (l.mapM f).result = l.mapM fun x => (f x).result := by
  induction l with
  | nil => rfl
  | cons x l ih =>
    rw [List.mapM_cons, List.mapM_cons, result_bind fun _ => (steady_mapM h).bind fun _ => steady_pure _]
    refine congrArg _ (funext fun y => ?_)
    rw [result_bind fun _ => steady_pure _, ih]
    rfl

end Resolve

namespace ShapeContext

open Resolve

variable {ctx : ShapeContext}

/-! ## Shapes are steady -/

theorem steady_fieldOf {descend : String → List TaggedSet → Resolve (List TypeShape)}
    (h : ∀ parent sets, (descend parent sets).Steady) (concrete key : String) (slot : Slot) :
    (ctx.fieldOf descend concrete key slot).Steady := by
  unfold fieldOf
  split
  · exact steady_pure _
  · exact steady_pure _
  · exact (h _ _).bind fun _ => steady_pure _

theorem steady_shapeOn {descend : String → List TaggedSet → Resolve (List TypeShape)}
    (h : ∀ parent sets, (descend parent sets).Steady) (sets : List TaggedSet) (concrete : String) :
    (ctx.shapeOn descend sets concrete).Steady := by
  unfold shapeOn
  refine (steady_note concrete).bind fun _ => (steady_ofExcept _).bind fun collected => ?_
  exact (steady_mapM fun ⟨key, slot⟩ => steady_fieldOf h concrete key slot).bind fun _ => steady_pure _

theorem steady_shapesUpTo (fuel : Nat) (parent : String) (sets : List TaggedSet) :
    (ctx.shapesUpTo fuel parent sets).Steady := by
  induction fuel generalizing parent sets with
  | zero => exact fun _ => rfl
  | succ fuel ih =>
    rw [shapesUpTo]
    exact (steady_ofExcept _).bind fun _ => steady_mapM fun concrete => steady_shapeOn ih sets concrete

/-! ## Their results -/

/-- the field of a collected slot, given what its selections give -/
def fieldResult (ctx : ShapeContext) (descend : String → List TaggedSet → Except Error (List TypeShape))
    (concrete : String) (entry : String × Slot) : Except Error ShapeField :=
  match entry.2.value with
  | .typename => .ok (.typename entry.1 (ctx.typenames concrete) false)
  | .leaf field => .ok (.leaf entry.1 field)
  | .link field sets => (descend field.type.name sets).map (.link entry.1 field)

/-- the shape on a concrete type, given what the selections of its fields give -/
def shapeResult (ctx : ShapeContext) (descend : String → List TaggedSet → Except Error (List TypeShape))
    (sets : List TaggedSet) (concrete : String) : Except Error TypeShape := do
  let collected ← ctx.gather concrete sets
  let fields ← collected.entries.mapM (ctx.fieldResult descend concrete)
  pure (.mk concrete (ctx.implicitTypename concrete collected ++ fields))

/-- what a shape is made of: the collected fields of its type, after the type name where that is implicit -/
theorem shapeResult_ok {descend : String → List TaggedSet → Except Error (List TypeShape)} {sets : List TaggedSet}
    {concrete : String} {shape : TypeShape} (h : ctx.shapeResult descend sets concrete = .ok shape) :
    shape.type = concrete ∧ ∃ collected selected, ctx.gather concrete sets = .ok collected ∧
      collected.entries.mapM (ctx.fieldResult descend concrete) = .ok selected ∧
      shape.fields = ctx.implicitTypename concrete collected ++ selected := by
  obtain ⟨collected, hg, h⟩ := bind_eq_ok_iff.1 h
  obtain ⟨selected, hf, h⟩ := bind_eq_ok_iff.1 h
  cases h
  exact ⟨rfl, collected, selected, hg, hf, rfl⟩

theorem result_fieldOf {descend : String → List TaggedSet → Resolve (List TypeShape)} (concrete key : String)
    (slot : Slot) :
    (ctx.fieldOf descend concrete key slot).result =
      ctx.fieldResult (fun parent sets => (descend parent sets).result) concrete (key, slot) := by
  unfold fieldOf fieldResult
  cases slot.value with
  | typename => rfl
  | leaf field => rfl
  | link field sets =>
    dsimp only
    rw [result_bind fun _ => steady_pure _]
    cases (descend field.type.name sets).result <;> rfl

theorem result_shapeOn {descend : String → List TaggedSet → Resolve (List TypeShape)}
    (h : ∀ parent sets, (descend parent sets).Steady) (sets : List TaggedSet) (concrete : String) :
    (ctx.shapeOn descend sets concrete).result =
      ctx.shapeResult (fun parent sets => (descend parent sets).result) sets concrete := by
  have hfield : ∀ entry : String × Slot, (ctx.fieldOf descend concrete entry.1 entry.2).Steady :=
    fun entry => steady_fieldOf h concrete entry.1 entry.2
  have hfields : ∀ collected : Table Slot,
      (collected.entries.mapM fun entry => ctx.fieldOf descend concrete entry.1 entry.2).Steady :=
    fun _ => steady_mapM hfield
  unfold shapeOn shapeResult
  rw [result_bind fun _ => (steady_ofExcept _).bind fun c => (hfields c).bind fun _ => steady_pure _]
  show (ofExcept (ctx.gather concrete sets) >>= _).result = _
  rw [result_bind fun c => (hfields c).bind fun _ => steady_pure _, result_ofExcept]
  refine congrArg _ (funext fun collected => ?_)
  rw [result_bind fun _ => steady_pure _, result_mapM hfield]
  simp only [result_fieldOf]
  rfl

/-- **The shapes of one level** from those of the levels below -/
theorem result_level {descend : String → List TaggedSet → Resolve (List TypeShape)}
    (h : ∀ parent sets, (descend parent sets).Steady) (parent : String) (sets : List TaggedSet) :
    Resolve.result (do
      let concretes ← Resolve.ofExcept (ctx.shapeTypes parent sets)
      concretes.mapM (ctx.shapeOn descend sets)) =
      ctx.shapeTypes parent sets >>= fun concretes =>
        concretes.mapM (ctx.shapeResult (fun parent sets => (descend parent sets).result) sets) := by
  have hsteady : ∀ concrete, (ctx.shapeOn descend sets concrete).Steady := steady_shapeOn h sets
  rw [result_bind fun _ => steady_mapM hsteady, result_ofExcept]
  refine congrArg _ (funext fun concretes => ?_)
  rw [result_mapM hsteady]
  exact congrArg concretes.mapM (funext fun concrete => result_shapeOn h sets concrete)

theorem result_shapesUpTo_succ (fuel : Nat) (parent : String) (sets : List TaggedSet) :
    (ctx.shapesUpTo (fuel + 1) parent sets).result =
      ctx.shapeTypes parent sets >>= fun concretes =>
        concretes.mapM (ctx.shapeResult (fun parent sets => (ctx.shapesUpTo fuel parent sets).result) sets) := by
  rw [shapesUpTo]
  exact result_level (steady_shapesUpTo fuel) parent sets

theorem steady_resolveTagged (parent : String) (sets : List TaggedSet) : (ctx.resolveTagged parent sets).Steady :=
  steady_shapesUpTo _ parent sets

/-- a field keeps the key that its slot was collected under -/
theorem fieldResult_key {descend : String → List TaggedSet → Except Error (List TypeShape)} {concrete : String}
    {entry : String × Slot} {field : ShapeField} (h : ctx.fieldResult descend concrete entry = .ok field) :
    field.key = entry.1 := by
  unfold fieldResult at h
  split at h
  · cases h
    rfl
  · cases h
    rfl
  · obtain ⟨nested, -, rfl⟩ := map_eq_ok_iff.1 h
    rfl

theorem keys_of_fieldResults {descend : String → List TaggedSet → Except Error (List TypeShape)} {concrete : String}
    {entries : List (String × Slot)} {fields : List ShapeField}
    (h : entries.mapM (ctx.fieldResult descend concrete) = .ok fields) : fields.map ShapeField.key = entryKeys entries := by
  have hsteps := mapM_eq_ok_iff.1 h
  clear h
  induction hsteps with
  | nil => rfl
  | cons hx _ ih =>
    rw [List.map_cons, ih, fieldResult_key hx]
    rfl

/-! ## When they succeed -/

/-- a field succeeds when the selections of a link have shapes -/
theorem succeeds_fieldResult_iff {descend : String → List TaggedSet → Except Error (List TypeShape)} {concrete : String}
    {entry : String × Slot} :
    Succeeds (ctx.fieldResult descend concrete entry) ↔
      ∀ field links, entry.2.value = .link field links → Succeeds (descend field.type.name links) := by
  unfold fieldResult
  cases entry.2.value with
  | typename => exact iff_of_true (succeeds_ok _) (by simp)
  | leaf field => exact iff_of_true (succeeds_ok _) (by simp)
  | link field links =>
    refine succeeds_map_iff.trans ⟨fun h other more hl => ?_, fun h => h field links rfl⟩
    cases hl
    exact h

theorem succeeds_shapeResult_iff {descend : String → List TaggedSet → Except Error (List TypeShape)}
    {sets : List TaggedSet} {concrete : String} :
    Succeeds (ctx.shapeResult descend sets concrete) ↔
      ∃ collected, ctx.gather concrete sets = .ok collected ∧ ∀ entry ∈ collected.entries, ∀ field links,
        entry.2.value = .link field links → Succeeds (descend field.type.name links) := by
  unfold shapeResult
  rw [succeeds_bind_iff]
  refine exists_congr fun collected => and_congr_right fun _ => ?_
  refine (succeeds_bind_pure_iff fun _ => succeeds_ok _).trans (succeeds_mapM_iff.trans ?_)
  exact forall₂_congr fun entry _ => succeeds_fieldResult_iff

/-- **Selections have shapes** when their fields can be collected on every type that gets one, and those of every link have
shapes. -/
theorem succeeds_shapesUpTo_iff (fuel : Nat) (parent : String) (sets : List TaggedSet) :
    Succeeds (ctx.shapesUpTo (fuel + 1) parent sets).result ↔
      ∃ concretes, ctx.shapeTypes parent sets = .ok concretes ∧ ∀ concrete ∈ concretes,
        ∃ collected, ctx.gather concrete sets = .ok collected ∧ ∀ entry ∈ collected.entries, ∀ field links,
          entry.2.value = .link field links → Succeeds (ctx.shapesUpTo fuel field.type.name links).result := by
  rw [result_shapesUpTo_succ, succeeds_bind_iff]
  refine exists_congr fun concretes => and_congr_right fun _ => succeeds_mapM_iff.trans ?_
  exact forall₂_congr fun concrete _ => succeeds_shapeResult_iff

end ShapeContext

end GraphGen
