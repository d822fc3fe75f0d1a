/-
Resolving terminates and never reports a cyclic fragment.

Two bounds stand in the definitions: how many fragments may be entered at one level (`gatherSet`, `specializesSet`) and how
many levels there may be (`shapesUpTo`). When fragments do not spread themselves neither is ever met: the names entered at
one level are distinct and known (`FragmentIndex.OnPath`), so there are no more of them than fragments, and from level to
level the depth falls (`Calls.below`).

- `NotCyclic`: a result that is not the report of a cyclic fragment.
- `Settled`: two results that agree and are not such a report; so are the results of one level under any two bounds that
  exceed the number of fragments (`gatherSet_settled`, `specializesSet_settled`).

Main result:
- `resolve_terminates`: nested resolutions end, larger bounds change nothing, and no cyclic fragment is ever reported.
-/
import GraphGen.Proofs.Shape.Levels
import GraphGen.Schema.Build
import GraphGen.Shape.Render

namespace GraphGen

/-! ## Results that report no cyclic fragment -/

/-- the result is not the report of a cyclic fragment -/
def NotCyclic {α : Type} (outcome : Except Error α) : Prop := ∀ path, outcome ≠ .error (.cyclicFragment path)

theorem notCyclic_ok {α : Type} (value : α) : NotCyclic (.ok value) := nofun

theorem NotCyclic.bind {α β : Type} {outcome : Except Error α} {next : α → Except Error β} (h : NotCyclic outcome)
    (hn : ∀ value, outcome = .ok value → NotCyclic (next value)) : NotCyclic (outcome >>= next) := by
  cases outcome with
  | error error =>
    intro path he
    cases he
    exact h path rfl
  | ok value => exact hn value rfl

theorem NotCyclic.map {α β : Type} {outcome : Except Error α} (h : NotCyclic outcome) (f : α → β) :
    NotCyclic (outcome.map f) := by
  cases outcome with
  | error error => exact fun path he => h path (by cases he; rfl)
  | ok value => exact notCyclic_ok _

theorem notCyclic_mapM {α β : Type} {f : α → Except Error β} {l : List α} (h : ∀ x ∈ l, NotCyclic (f x)) :
    NotCyclic (l.mapM f) := by
  induction l with
  | nil => exact notCyclic_ok _
  | cons x l ih =>
    rw [List.mapM_cons]
    exact (h x List.mem_cons_self).bind fun _ _ =>
      (ih fun y hy => h y (List.mem_cons_of_mem _ hy)).bind fun _ _ => notCyclic_ok _

/-- the results agree and are not the report of a cyclic fragment -/
structure Settled {α : Type} (outcome other : Except Error α) : Prop where
  agree : outcome = other
  notCyclic : NotCyclic outcome

theorem settled_ok {α : Type} (value : α) : Settled (.ok value) (.ok value) := ⟨rfl, notCyclic_ok _⟩

theorem NotCyclic.settled {α : Type} {outcome : Except Error α} (h : NotCyclic outcome) : Settled outcome outcome :=
  ⟨rfl, h⟩

/-- a failure that was no report of a cyclic fragment stays none -/
theorem NotCyclic.error {α β : Type} {outcome : Except Error α} {error : Error} (h : NotCyclic outcome)
    (he : outcome = .error error) : NotCyclic (.error error : Except Error β) := by
  intro path hp
  cases hp
  exact h path he

namespace ShapeContext

variable {ctx : ShapeContext} {concrete : String}

/-! ## One level -/

theorem notCyclic_requireType (schema : Schema) (name : String) : NotCyclic (schema.requireType name) := by
  unfold Schema.requireType
  split <;> nofun

theorem notCyclic_requireField (schema : Schema) (type field : String) : NotCyclic (schema.requireField type field) := by
  unfold Schema.requireField
  split
  · rename_i he
    exact (notCyclic_requireType schema type).error he
  · split <;> nofun

theorem notCyclic_fieldContent (provenance : Provenance) (name : String) (selections : SelectionSet) :
    NotCyclic (ctx.fieldContent concrete provenance name selections) := by
  unfold fieldContent
  split
  · exact notCyclic_ok _
  · split
    · rename_i he
      exact (notCyclic_requireField ctx.schema concrete name).error he
    · split <;> exact notCyclic_ok _

/-- on a path without cycles, a fragment opens unless it is unknown; then there was room for it, and the path leads on -/
theorem openFragment_onPath (ha : ctx.fragments.Acyclic) {stack : List String} {name : String}
    (hp : ctx.fragments.OnPath stack name) :
    NotCyclic (ctx.openFragment stack name) ∧ ∀ entry, ctx.openFragment stack name = .ok entry →
      (stack ++ [name]).length ≤ ctx.fragments.size ∧
        ∀ next ∈ entry.spreads, ctx.fragments.OnPath (stack ++ [name]) next := by
  have hn := hp.not_mem ha
  constructor
  · unfold openFragment
    rw [if_neg (by simpa using hn)]
    unfold FragmentIndex.require
    split <;> nofun
  · intro entry ho
    obtain ⟨-, he⟩ := openFragment_ok ho
    rw [List.length_append, List.length_singleton]
    exact ⟨hp.length_lt hn (FragmentIndex.known_of_get? he), fun next hnext => hp.enter hn he hnext⟩

mutual

theorem gatherSelection_settled {expand expand' : String → Table Slot → Except Error (Table Slot)}
    {provenance : Provenance} : (selection : Selection) →
    (∀ name ∈ Selection.spreads selection, ∀ out, Settled (expand name out) (expand' name out)) → (out : Table Slot) →
    Settled (gatherSelection ctx expand concrete provenance out selection)
      (gatherSelection ctx expand' concrete provenance out selection)
  | .field aliasName name _ _ selections, _, out => by
    rw [gatherSelection, gatherSelection]
    cases hc : ctx.fieldContent concrete provenance name selections with
    | error error => exact ((notCyclic_fieldContent provenance name selections).error hc).settled
    | ok content => exact settled_ok _
  | .inline condition _ selections, hx, out => by
    rw [gatherSelection, gatherSelection]
    split
    · exact gatherSelections_settled selections (by simpa [Selection.spreads] using hx) out
    · exact settled_ok _
  | .spread name _, hx, out => by
    rw [gatherSelection, gatherSelection]
    exact hx name (by simp [Selection.spreads]) out

theorem gatherSelections_settled {expand expand' : String → Table Slot → Except Error (Table Slot)}
    {provenance : Provenance} : (selections : List Selection) →
    (∀ name ∈ Selection.spreadsOf selections, ∀ out, Settled (expand name out) (expand' name out)) →
    (out : Table Slot) →
    Settled (gatherSelections ctx expand concrete provenance out selections)
      (gatherSelections ctx expand' concrete provenance out selections)
  | [], _, out => by
    rw [gatherSelections, gatherSelections]
    exact settled_ok _
  | selection :: rest, hx, out => by
    simp only [Selection.spreadsOf, List.mem_append] at hx
    obtain ⟨hagree, hnot⟩ := gatherSelection_settled selection (fun name hn => hx name (Or.inl hn)) out
    rw [gatherSelections, gatherSelections, ← hagree]
    cases hg : gatherSelection ctx expand concrete provenance out selection with
    | error error => exact (hnot.error hg).settled
    | ok between => exact gatherSelections_settled rest (fun name hn => hx name (Or.inr hn)) between

end

/-- **A bound above the number of fragments changes nothing**, and the check for fragments that come again never fails. -/
theorem gatherSet_settled (ha : ctx.fragments.Acyclic) {fuel fuel' : Nat} {stack : List String} {set : TaggedSet}
    (hp : ∀ name ∈ Selection.spreadsOf set.selections, ctx.fragments.OnPath stack name)
    (hs : stack.length ≤ ctx.fragments.size) (h : ctx.fragments.size < fuel + stack.length)
    (h' : ctx.fragments.size < fuel' + stack.length) (out : Table Slot) :
    Settled (ctx.gatherSet concrete fuel stack set out) (ctx.gatherSet concrete fuel' stack set out) := by
  induction fuel generalizing fuel' stack set out with
  | zero => omega
  | succ fuel ih =>
    obtain ⟨fuel', rfl⟩ : ∃ n, fuel' = n + 1 := ⟨fuel' - 1, by omega⟩
    rw [gatherSet, gatherSet]
    refine gatherSelections_settled set.selections (fun name hm out => ?_) out
    obtain ⟨hopen, hnext⟩ := openFragment_onPath ha (hp name hm)
    cases ho : ctx.openFragment stack name with
    | error error => exact (hopen.error ho).settled
    | ok entry =>
      obtain ⟨hroom, hpath⟩ := hnext entry ho
      have hlen : (stack ++ [name]).length = stack.length + 1 := List.length_append
      dsimp only
      split
      · refine ih ?_ hroom (by omega) (by omega) out
        exact hpath
      · exact settled_ok _

mutual

theorem specializesSelection_settled {expand expand' : String → Except Error Bool} {parent : String} :
    (selection : Selection) → (∀ name ∈ Selection.spreads selection, Settled (expand name) (expand' name)) →
    Settled (specializesSelection expand parent selection) (specializesSelection expand' parent selection)
  | .field _ _ _ _ _, _ => by
    rw [specializesSelection, specializesSelection]
    exact settled_ok _
  | .inline condition _ selections, hx => by
    rw [specializesSelection, specializesSelection]
    split
    · exact settled_ok _
    · exact specializesSelections_settled selections (by simpa [Selection.spreads] using hx)
  | .spread name _, hx => by
    rw [specializesSelection, specializesSelection]
    exact hx name (by simp [Selection.spreads])

theorem specializesSelections_settled {expand expand' : String → Except Error Bool} {parent : String} :
    (selections : List Selection) → (∀ name ∈ Selection.spreadsOf selections, Settled (expand name) (expand' name)) →
    Settled (specializesSelections expand parent selections) (specializesSelections expand' parent selections)
  | [], _ => by
    rw [specializesSelections, specializesSelections]
    exact settled_ok _
  | selection :: rest, hx => by
    simp only [Selection.spreadsOf, List.mem_append] at hx
    obtain ⟨hagree, hnot⟩ : Settled (specializesSelection expand parent selection) _ :=
      specializesSelection_settled selection fun name hn => hx name (Or.inl hn)
    rw [specializesSelections, specializesSelections, ← hagree]
    split
    · exact specializesSelections_settled rest fun name hn => hx name (Or.inr hn)
    · exact hnot.settled

end

theorem specializesSet_settled (ha : ctx.fragments.Acyclic) {fuel fuel' : Nat} {stack : List String} {parent : String}
    {selections : SelectionSet} (hp : ∀ name ∈ Selection.spreadsOf selections, ctx.fragments.OnPath stack name)
    (hs : stack.length ≤ ctx.fragments.size) (h : ctx.fragments.size < fuel + stack.length)
    (h' : ctx.fragments.size < fuel' + stack.length) :
    Settled (ctx.specializesSet parent fuel stack selections) (ctx.specializesSet parent fuel' stack selections) := by
  induction fuel generalizing fuel' stack selections with
  | zero => omega
  | succ fuel ih =>
    obtain ⟨fuel', rfl⟩ : ∃ n, fuel' = n + 1 := ⟨fuel' - 1, by omega⟩
    rw [specializesSet, specializesSet]
    refine specializesSelections_settled selections fun name hm => ?_
    obtain ⟨hopen, hnext⟩ := openFragment_onPath ha (hp name hm)
    cases ho : ctx.openFragment stack name with
    | error error => exact (hopen.error ho).settled
    | ok entry =>
      obtain ⟨hroom, hpath⟩ := hnext entry ho
      have hlen : (stack ++ [name]).length = stack.length + 1 := List.length_append
      dsimp only
      split
      · exact settled_ok _
      · exact ih hpath hroom (by omega) (by omega)

/-! ## All levels -/

/-- at the start no fragment is entered, and there is room for all of them -/
theorem settled_gatherSet (hb : ctx.fragments.Built) {fuel : Nat} (h : ctx.fragments.size < fuel) (set : TaggedSet)
    (out : Table Slot) :
    Settled (ctx.gatherSet concrete fuel [] set out) (ctx.gatherSet concrete (ctx.fragments.size + 1) [] set out) :=
  gatherSet_settled hb.acyclic (fun name _ => FragmentIndex.onPath_nil name) (Nat.zero_le _) h (Nat.lt_succ_self _) out

theorem settled_specializesSet (hb : ctx.fragments.Built) {fuel : Nat} (h : ctx.fragments.size < fuel) (parent : String)
    (selections : SelectionSet) :
    Settled (ctx.specializesSet parent fuel [] selections)
      (ctx.specializesSet parent (ctx.fragments.size + 1) [] selections) :=
  specializesSet_settled hb.acyclic (fun name _ => FragmentIndex.onPath_nil name) (Nat.zero_le _) h (Nat.lt_succ_self _)

theorem notCyclic_gather (hb : ctx.fragments.Built) (sets : List TaggedSet) : NotCyclic (ctx.gather concrete sets) := by
  unfold gather
  generalize Table.empty = out
  induction sets generalizing out with
  | nil => exact notCyclic_ok _
  | cons set rest ih =>
    rw [List.foldlM_cons]
    exact (settled_gatherSet hb (Nat.lt_succ_self _) set out).notCyclic.bind fun between _ => ih between

theorem notCyclic_specializes (hb : ctx.fragments.Built) (parent : String) (sets : List TaggedSet) :
    NotCyclic (ctx.specializes parent sets) := by
  induction sets with
  | nil => exact notCyclic_ok _
  | cons set rest ih =>
    rw [specializes]
    split
    · exact ih
    · exact (settled_specializesSet hb (Nat.lt_succ_self _) parent set.selections).notCyclic

theorem notCyclic_shapeTypes (hb : ctx.fragments.Built) (parent : String) (sets : List TaggedSet) :
    NotCyclic (ctx.shapeTypes parent sets) := by
  unfold shapeTypes
  split
  · rename_i he
    exact (notCyclic_requireType ctx.schema parent).error he
  · split
    · exact notCyclic_ok _
    · exact notCyclic_ok _
    · dsimp only
      split
      · exact notCyclic_ok _
      · split
        · rename_i he
          exact (notCyclic_specializes hb parent sets).error he
        · exact notCyclic_ok _
    · nofun

theorem notCyclic_shapesUpTo (hb : ctx.fragments.Built) {deep : String → Nat} (hd : ctx.fragments.DeepEnough deep)
    {bound fuel : Nat} {parent : String} {sets : List TaggedSet} (hbelow : SetsBelow deep bound sets) (h : bound < fuel) :
    NotCyclic (ctx.shapesUpTo fuel parent sets).result := by
  induction fuel generalizing bound parent sets with
  | zero => omega
  | succ fuel ih =>
    rw [result_shapesUpTo_succ]
    refine (notCyclic_shapeTypes hb parent sets).bind fun concretes _ => notCyclic_mapM fun concrete _ => ?_
    unfold shapeResult
    refine (notCyclic_gather hb sets).bind fun collected hg => (notCyclic_mapM fun entry hm => ?_).bind
      fun _ _ => notCyclic_ok _
    unfold fieldResult
    split
    · exact notCyclic_ok _
    · exact notCyclic_ok _
    · rename_i field links hv
      have hc : ctx.Calls (field.type.name, links) (parent, sets) :=
        ⟨concrete, collected, entry.1, entry.2, field, hg, hm, hv, rfl⟩
      obtain ⟨less, rfl, hless⟩ := hc.below hd hbelow
      exact (ih hless (by omega)).map _

/-- **Resolving terminates, and the check for cyclic fragments never fails.** Every chain of nested resolutions ends; the
bound on the levels and the bound on the fragments entered at one level can be larger without changing a result, so that
neither is ever what ends a walk; and whatever types were noted before, the outcome is no report of a cyclic fragment,
neither for the shapes nor for the type that they are written as. -/
theorem resolve_terminates (hb : ctx.fragments.Built) (parent : String) (sets : List SelectionSet) :
    Acc ctx.Calls (parent, sets.map (⟨·, .inPlace⟩)) ∧
    (∀ fuel, ctx.levels sets ≤ fuel →
      ctx.shapesUpTo fuel parent (sets.map (⟨·, .inPlace⟩)) = ctx.resolve parent sets) ∧
    (∀ fuel, ctx.fragments.size < fuel →
      (∀ concrete set out, ctx.gatherSet concrete fuel [] set out =
        ctx.gatherSet concrete (ctx.fragments.size + 1) [] set out) ∧
      ∀ type selections, ctx.specializesSet type fuel [] selections =
        ctx.specializesSet type (ctx.fragments.size + 1) [] selections) ∧
    ∀ visited path, (runResolve (ctx.resolve parent sets) visited).1 ≠ .error (.cyclicFragment path) ∧
      ∀ (target : Target) (strategy : Strategy),
        (runResolve (ctx.resolve parent sets) visited).1.map (target.renderUnion strategy) ≠
          .error (.cyclicFragment path) := by
  obtain ⟨deep, hdeep, hle⟩ := FragmentIndex.exists_deep hb.refuseCycles
  have hplain : (sets.map fun set => TaggedSet.mk set .inPlace).map (·.selections) = sets := by
    rw [List.map_map]
    exact List.map_id sets
  obtain ⟨bound, hlevels, hbelow⟩ :
      ∃ bound, _ ∧ SetsBelow deep bound (sets.map (⟨·, .inPlace⟩)) := setsBelow_levels hle
  have hresult : NotCyclic (ctx.resolve parent sets).result := by
    rw [resolve, resolveTagged, hlevels]
    exact notCyclic_shapesUpTo hb hdeep hbelow (Nat.lt_succ_self _)
  have hrun : ∀ visited, (runResolve (ctx.resolve parent sets) visited).1 = (ctx.resolve parent sets).result :=
    steady_shapesUpTo _ parent _
  refine ⟨(calls_wellFounded hb).apply _, ?_, ?_, ?_⟩
  · intro fuel hfuel
    rw [resolve, resolveTagged, hlevels]
    rw [hplain] at hlevels
    exact shapesUpTo_eq hdeep hbelow (by omega) (Nat.lt_succ_self _)
  · exact fun fuel hfuel => ⟨fun concrete set out => (settled_gatherSet hb hfuel set out).agree,
      fun type selections => (settled_specializesSet hb hfuel type selections).agree⟩
  · intro visited path
    rw [hrun visited]
    exact ⟨hresult path, fun target strategy => hresult.map _ path⟩

/-- a user's friends are users -/
def friendSchema : SchemaDocument :=
  [.type ⟨none, "User", [], .object []
    [⟨none, "name", [], .named "String", []⟩, ⟨none, "friends", [], .list (.named "User"), []⟩]⟩]

/-- a fragment that spreads another one below a field of the type that it is declared on -/
def friendFragments : List Fragment :=
  [⟨"UserParts", "User", [], [.field none "name" [] [] [], .field none "friends" [] [] [.spread "FriendParts" []]]⟩,
    ⟨"FriendParts", "User", [], [.field none "name" [] [] []]⟩]

theorem resolve_terminates_friends :
    ∃ schema index, Schema.ofDocument friendSchema = .ok schema ∧
      FragmentIndex.ofDocuments [] friendFragments = .ok index ∧ ∀ visited path,
        (runResolve (resolve ⟨schema, index, .plain⟩ "User"
          [[.spread "UserParts" [], .field none "friends" [] [] [.spread "UserParts" []]]]) visited).1 ≠
            .error (.cyclicFragment path) :=
  ⟨_, _, rfl, rfl, fun visited path =>
    ((resolve_terminates (Or.inr ⟨[], friendFragments, rfl⟩) "User" _).2.2.2 visited path).1⟩

end ShapeContext

end GraphGen
