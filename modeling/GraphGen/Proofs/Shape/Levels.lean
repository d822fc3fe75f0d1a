/-
The levels of selections.

Resolving a selection set resolves the sub-selections of the fields that it collects, merged under their response keys, and
starts there with no fragment entered. So nothing at one level keeps a fragment from being entered again one level deeper;
what does is that fragments do not spread themselves at any depth. From level to level the depth falls: `Selection.depth`
counts the fields on the longest way down a selection, fragments included, given how deep each fragment goes, and
`exists_deep` finds such depths for a built index, from the order in which the walk finished the fragments.

Main results:
- `exists_deep`: every fragment has a depth, which the heights of all fragments together bound.
- `Calls.below`: what a collected link selects lies less deep than the sets that it was collected from.
- `calls_wellFounded`: a chain of nested resolutions, each for a link that the one before collected, ends.
- `shapesUpTo_eq`: a bound on the levels that exceeds the depth changes nothing.
- `resolveTagged_eq`: resolving is the recursion without a bound.
- `shape_of_mem`: what a shape is made of.
-/
import GraphGen.Proofs.Fragments.Building
import GraphGen.Proofs.Shape.Occurrences
import GraphGen.Proofs.Shape.Results

namespace GraphGen

/-! ## Depth of selections -/

mutual

/-- the number of fields on the longest way down a selection, given how deep each fragment goes -/
def Selection.depth (deep : String → Nat) : Selection → Nat
  | .field _ _ _ _ selections => Selection.depthOf deep selections + 1
  | .spread name _ => deep name
  | .inline _ _ selections => Selection.depthOf deep selections

/-- the number of fields on the longest way down any of the selections -/
def Selection.depthOf (deep : String → Nat) : List Selection → Nat
  | [] => 0
  | selection :: rest => max (Selection.depth deep selection) (Selection.depthOf deep rest)

end

namespace Selection

mutual

theorem depth_congr {deep deep' : String → Nat} : (selection : Selection) →
    (∀ name ∈ spreads selection, deep name = deep' name) → depth deep selection = depth deep' selection
  | .field _ _ _ _ selections, h => by
    rw [depth, depth, depthOf_congr selections (by simpa [spreads] using h)]
  | .spread name _, h => by
    rw [depth, depth, h name (by simp [spreads])]
  | .inline _ _ selections, h => by
    rw [depth, depth, depthOf_congr selections (by simpa [spreads] using h)]

theorem depthOf_congr {deep deep' : String → Nat} : (selections : List Selection) →
    (∀ name ∈ spreadsOf selections, deep name = deep' name) → depthOf deep selections = depthOf deep' selections
  | [], _ => rfl
  | selection :: rest, h => by
    simp only [spreadsOf, List.mem_append] at h
    rw [depthOf, depthOf, depth_congr selection fun n hn => h n (Or.inl hn),
      depthOf_congr rest fun n hn => h n (Or.inr hn)]

end

mutual

/-- fragments no deeper than a bound add no more than the bound to the height -/
theorem depth_le_height {deep : String → Nat} {bound : Nat} (h : ∀ name, deep name ≤ bound) :
    (selection : Selection) → depth deep selection ≤ height selection + bound
  | .field _ _ _ _ selections => by
    have := depthOf_le_heightOf h selections
    rw [depth, height]
    omega
  | .spread name _ => by
    have := h name
    rw [depth, height]
    omega
  | .inline _ _ selections => by
    rw [depth, height]
    exact depthOf_le_heightOf h selections

theorem depthOf_le_heightOf {deep : String → Nat} {bound : Nat} (h : ∀ name, deep name ≤ bound) :
    (selections : List Selection) → depthOf deep selections ≤ heightOf selections + bound
  | [] => Nat.zero_le _
  | selection :: rest => by
    have hs := depth_le_height h selection
    have hr := depthOf_le_heightOf h rest
    rw [depthOf, heightOf]
    omega

end

end Selection

/-! ## Heights of selection sets -/

namespace ShapeContext

theorem heights_perm {sets others : List SelectionSet} (h : sets.Perm others) : heights sets = heights others := by
  induction h with
  | nil => rfl
  | cons set _ ih => rw [heights, heights, ih]
  | swap set other rest =>
    simp only [heights]
    omega
  | trans _ _ ih ih' => exact ih.trans ih'

theorem heightOf_le_heights {set : SelectionSet} {sets : List SelectionSet} (h : set ∈ sets) :
    Selection.heightOf set ≤ heights sets := by
  induction sets with
  | nil => cases h
  | cons first rest ih =>
    rw [heights]
    rcases List.mem_cons.1 h with rfl | h
    · exact Nat.le_add_right _ _
    · exact Nat.le_trans (ih h) (Nat.le_add_left _ _)

end ShapeContext

/-! ## Depths of fragments -/

namespace FragmentIndex

variable {index : FragmentIndex}

/-- no fragment is deeper than it is said to be -/
def DeepEnough (index : FragmentIndex) (deep : String → Nat) : Prop :=
  ∀ name entry, index.get? name = some entry → Selection.depthOf deep entry.fragment.selections ≤ deep name

/-- the depth of the selections of a known fragment -/
def depthAt (index : FragmentIndex) (deep : String → Nat) (name : String) : Nat :=
  ((index.get? name).map fun entry => Selection.depthOf deep entry.fragment.selections).getD 0

/-- the selections of the known fragments among the names -/
def bodies (index : FragmentIndex) (names : List String) : List SelectionSet :=
  names.filterMap fun name => (index.get? name).map (·.fragment.selections)

/-- how deep each fragment goes, computed from the fragments that it spreads; these come later in the list -/
def deepFrom (index : FragmentIndex) : List String → String → Nat
  | [], _ => 0
  | first :: rest, name => if name = first then index.depthAt (index.deepFrom rest) first else index.deepFrom rest name

/-- a spread of a finished fragment does not reach the name in front -/
theorem Finished.deepFrom_tail {first : String} {rest : List String} (h : index.Finished (first :: rest)) {name : String}
    {entry : IndexedFragment} (hm : name ∈ first :: rest) (he : index.get? name = some entry) :
    Selection.depthOf (index.deepFrom (first :: rest)) entry.fragment.selections =
      Selection.depthOf (index.deepFrom rest) entry.fragment.selections := by
  cases h with
  | @cons _ found _ hf hn hs hd =>
    refine Selection.depthOf_congr _ fun next hnext => ?_
    have hne : next ≠ first := by
      rintro rfl
      have hk : index.Known next := known_of_get? hf
      rcases List.mem_cons.1 hm with rfl | hm
      · rw [hf] at he
        cases he
        exact hn (hs _ hnext hk)
      · exact hn (hd.closed hm ⟨⟨entry, he, hnext⟩, hk⟩)
    rw [deepFrom, if_neg hne]

theorem Finished.depthOf_le_deepFrom {order : List String} (h : index.Finished order) :
    ∀ name ∈ order, ∀ entry, index.get? name = some entry →
      Selection.depthOf (index.deepFrom order) entry.fragment.selections ≤ index.deepFrom order name := by
  induction h with
  | nil => simp
  | @cons first found rest hf hn hs hd ih =>
    intro name hm entry he
    rw [Finished.deepFrom_tail (.cons hf hn hs hd) hm he, deepFrom]
    rcases List.mem_cons.1 hm with rfl | hm
    · rw [if_pos rfl, depthAt, he]
      exact Nat.le_refl _
    · have hne : name ≠ first := fun e => hn (e ▸ hm)
      rw [if_neg hne]
      exact ih name hm entry he

theorem deepFrom_le (order : List String) (name : String) :
    index.deepFrom order name ≤ ShapeContext.heights (index.bodies order) := by
  induction order generalizing name with
  | nil => exact Nat.le_refl _
  | cons first rest ih =>
    rw [deepFrom, bodies, List.filterMap_cons]
    unfold depthAt
    cases index.get? first with
    | none =>
      split
      · exact Nat.zero_le _
      · exact ih name
    | some entry =>
      have hfirst := Selection.depthOf_le_heightOf ih entry.fragment.selections
      split
      · exact hfirst
      · exact Nat.le_trans (ih name) (Nat.le_add_left _ _)

theorem bodies_keys (index : FragmentIndex) :
    index.bodies index.entries.keys = index.entries.values.map (·.fragment.selections) := by
  rw [bodies, Table.keys, entryKeys, Table.values, List.filterMap_map, List.map_map, ← List.filterMap_eq_map]
  refine List.filterMap_congr fun pair hp => ?_
  have he : index.get? pair.1 = some pair.2 := Table.get?_eq_some_iff.2 hp
  simp [he]

/-- **Depths of fragments.** When no cycle was refused, every fragment has a depth, and all fragments together are at least
as high as each is deep. -/
theorem exists_deep (h : index.refuseCycles = .ok ()) :
    ∃ deep, index.DeepEnough deep ∧
      ∀ name, deep name ≤ ShapeContext.heights (index.entries.values.map (·.fragment.selections)) := by
  obtain ⟨order, hf, hall⟩ := finished_order h
  have hperm : order.Perm index.entries.keys :=
    (List.perm_ext_iff_of_nodup hf.nodup index.entries.nodup_keys).2 fun name => ⟨hf.known name, hall name⟩
  refine ⟨index.deepFrom order, ?_, fun name => ?_⟩
  · intro name entry he
    exact hf.depthOf_le_deepFrom name (hall name (known_of_get? he)) entry he
  · calc index.deepFrom order name ≤ ShapeContext.heights (index.bodies order) := deepFrom_le order name
      _ = ShapeContext.heights (index.bodies index.entries.keys) := ShapeContext.heights_perm (hperm.filterMap _)
      _ = _ := congrArg ShapeContext.heights (bodies_keys index)

end FragmentIndex

/-! ## Occurrences lie deeper -/

namespace ShapeContext

variable {ctx : ShapeContext} {concrete : String} {deep : String → Nat}

/-- no set is deeper than the bound -/
def SetsBelow (deep : String → Nat) (bound : Nat) (sets : List TaggedSet) : Prop :=
  ∀ set ∈ sets, Selection.depthOf deep set.selections ≤ bound

theorem Meets.depth_lt (hd : ctx.fragments.DeepEnough deep) {stack : List String} {provenance : Provenance}
    {selections : List Selection} {met : List Occurrence} (h : Meets ctx concrete stack provenance selections met) :
    ∀ o ∈ met, Selection.depthOf deep o.selections < Selection.depthOf deep selections := by
  induction h with
  | nil => simp
  | field _ _ ih =>
    intro o ho
    rw [Selection.depthOf, Selection.depth]
    rcases List.mem_cons.1 ho with rfl | ho
    · exact lt_of_lt_of_le (Nat.lt_succ_self _) (le_max_left _ _)
    · exact lt_of_lt_of_le (ih o ho) (le_max_right _ _)
  | inline _ _ _ ihi ihr =>
    intro o ho
    rw [Selection.depthOf, Selection.depth]
    rcases List.mem_append.1 ho with ho | ho
    · exact lt_of_lt_of_le (ihi o ho) (le_max_left _ _)
    · exact lt_of_lt_of_le (ihr o ho) (le_max_right _ _)
  | inlineSkip _ _ ih => exact fun o ho => lt_of_lt_of_le (ih o ho) (le_max_right _ _)
  | spread _ he _ _ _ ihi ihr =>
    intro o ho
    rw [Selection.depthOf, Selection.depth]
    rcases List.mem_append.1 ho with ho | ho
    · exact lt_of_lt_of_le (lt_of_lt_of_le (ihi o ho) (hd _ _ he)) (le_max_left _ _)
    · exact lt_of_lt_of_le (ihr o ho) (le_max_right _ _)
  | spreadSkip _ _ _ _ ih => exact fun o ho => lt_of_lt_of_le (ih o ho) (le_max_right _ _)

theorem MeetsSets.depth_lt (hd : ctx.fragments.DeepEnough deep) {bound : Nat} {sets : List TaggedSet}
    {met : List Occurrence} (h : MeetsSets ctx concrete sets met) (hb : SetsBelow deep bound sets) :
    ∀ o ∈ met, Selection.depthOf deep o.selections < bound := by
  intro o ho
  obtain ⟨set, hs, _, hm, ho⟩ := h.exists_meets o ho
  exact lt_of_lt_of_le (hm.depth_lt hd o ho) (hb set hs)

/-- the resolution of `parent` makes that of `child`: for a link that it collects on one of its concrete types -/
def Calls (ctx : ShapeContext) (child parent : String × List TaggedSet) : Prop :=
  ∃ concrete collected key slot field, ctx.gather concrete parent.2 = .ok collected ∧
    (key, slot) ∈ collected.entries ∧ slot.value = .link field child.2 ∧ child.1 = field.type.name

/-- **The depth falls from level to level.** -/
theorem Calls.below (hd : ctx.fragments.DeepEnough deep) {bound : Nat} {child parent : String × List TaggedSet}
    (h : ctx.Calls child parent) (hb : SetsBelow deep bound parent.2) :
    ∃ less, bound = less + 1 ∧ SetsBelow deep less child.2 := by
  obtain ⟨concrete, collected, key, slot, field, hg, hm, hv, -⟩ := h
  obtain ⟨met, hmet, rfl⟩ := gather_ok hg
  obtain ⟨hne, hfrom⟩ := gather_linksFrom hmet hm field child.2 hv
  have hlt : ∀ set ∈ child.2, Selection.depthOf deep set.selections < bound := by
    intro set hs
    obtain ⟨o, ho, rfl⟩ := hfrom set hs
    exact hmet.depth_lt hd hb o ho
  obtain ⟨first, hfirst⟩ := List.exists_mem_of_ne_nil _ hne
  have hpos := hlt first hfirst
  refine ⟨bound - 1, by omega, fun set hs => ?_⟩
  have := hlt set hs
  omega

/-- the levels of selection sets are more than any of them is deep -/
theorem setsBelow_levels {sets : List TaggedSet}
    (hd : ∀ name, deep name ≤ heights (ctx.fragments.entries.values.map (·.fragment.selections))) :
    ∃ bound, ctx.levels (sets.map (·.selections)) = bound + 1 ∧ SetsBelow deep bound sets := by
  refine ⟨_, rfl, fun set hs => ?_⟩
  have hset : Selection.heightOf set.selections ≤ heights (sets.map (·.selections)) :=
    heightOf_le_heights (List.mem_map_of_mem hs)
  have := Selection.depthOf_le_heightOf hd set.selections
  omega

/-- **A chain of nested resolutions ends.** -/
theorem calls_wellFounded (hb : ctx.fragments.Built) : WellFounded ctx.Calls := by
  obtain ⟨deep, hdeep, hle⟩ := FragmentIndex.exists_deep hb.refuseCycles
  have hacc : ∀ bound call, SetsBelow deep bound (Prod.snd call) → Acc ctx.Calls call := by
    intro bound
    induction bound with
    | zero =>
      refine fun call hbelow => .intro _ fun child hc => ?_
      obtain ⟨less, he, -⟩ := hc.below hdeep hbelow
      cases he
    | succ bound ih =>
      refine fun call hbelow => .intro _ fun child hc => ?_
      obtain ⟨less, he, hless⟩ := hc.below hdeep hbelow
      cases he
      exact ih child hless
  refine ⟨fun call => ?_⟩
  obtain ⟨bound, -, hbelow⟩ : ∃ bound, _ ∧ SetsBelow deep bound call.2 := setsBelow_levels hle
  exact hacc bound call hbelow

/-! ## Resolving without a bound -/

theorem shapeOn_congr {descend other : String → List TaggedSet → Resolve (List TypeShape)} {sets : List TaggedSet}
    {concrete : String} (parent : String)
    (h : ∀ child : String × List TaggedSet, ctx.Calls child (parent, sets) →
      descend child.1 child.2 = other child.1 child.2) :
    ctx.shapeOn descend sets concrete = ctx.shapeOn other sets concrete := by
  unfold shapeOn
  refine congrArg _ (funext fun _ => ?_)
  cases hg : ctx.gather concrete sets with
  | error error => rfl
  | ok collected =>
    show (pure collected >>= _) = (pure collected >>= _)
    rw [pure_bind, pure_bind]
    congr 1
    refine mapM_congr fun entry hm => ?_
    obtain ⟨key, provenance, content⟩ := entry
    cases content with
    | typename => rfl
    | leaf field => rfl
    | link field links =>
      have hc : ctx.Calls (field.type.name, links) (parent, sets) :=
        ⟨concrete, collected, key, _, field, hg, hm, rfl, rfl⟩
      exact congrArg (· >>= fun shapes => pure (ShapeField.link key field shapes)) (h _ hc)

/-- **A bound above the depth changes nothing.** -/
theorem shapesUpTo_eq (hd : ctx.fragments.DeepEnough deep) {bound fuel fuel' : Nat} {parent : String}
    {sets : List TaggedSet} (hb : SetsBelow deep bound sets) (h : bound < fuel) (h' : bound < fuel') :
    ctx.shapesUpTo fuel parent sets = ctx.shapesUpTo fuel' parent sets := by
  induction fuel generalizing bound fuel' parent sets with
  | zero => omega
  | succ fuel ih =>
    obtain ⟨fuel', rfl⟩ : ∃ n, fuel' = n + 1 := ⟨fuel' - 1, by omega⟩
    rw [shapesUpTo, shapesUpTo]
    refine congrArg _ (funext fun concretes => mapM_congr fun concrete _ => ?_)
    refine shapeOn_congr parent fun child hc => ?_
    obtain ⟨less, rfl, hless⟩ := hc.below hd hb
    exact ih hless (by omega) (by omega)

/-- **Resolving is the recursion without a bound.** -/
theorem resolveTagged_eq (hb : ctx.fragments.Built) (parent : String) (sets : List TaggedSet) :
    ctx.resolveTagged parent sets = (do
      let concretes ← Resolve.ofExcept (ctx.shapeTypes parent sets)
      concretes.mapM (ctx.shapeOn ctx.resolveTagged sets)) := by
  obtain ⟨deep, hdeep, hle⟩ := FragmentIndex.exists_deep hb.refuseCycles
  obtain ⟨bound, hlevels, hbelow⟩ : ∃ bound, _ ∧ SetsBelow deep bound sets := setsBelow_levels hle
  rw [resolveTagged, hlevels, shapesUpTo]
  refine congrArg _ (funext fun concretes => mapM_congr fun concrete _ => ?_)
  refine shapeOn_congr parent fun child hc => ?_
  obtain ⟨less, rfl, hless⟩ := hc.below hdeep hbelow
  obtain ⟨inner, hinner, hchild⟩ : ∃ inner, _ ∧ SetsBelow deep inner child.2 := setsBelow_levels hle
  rw [resolveTagged, hinner]
  rcases Nat.le_total less inner with hle | hle
  · exact shapesUpTo_eq hdeep hless (by omega) (by omega)
  · exact shapesUpTo_eq hdeep hchild (by omega) (by omega)

theorem result_resolveTagged (hb : ctx.fragments.Built) (parent : String) (sets : List TaggedSet) :
    (ctx.resolveTagged parent sets).result =
      ctx.shapeTypes parent sets >>= fun concretes =>
        concretes.mapM (ctx.shapeResult (fun parent sets => (ctx.resolveTagged parent sets).result) sets) := by
  rw [resolveTagged_eq hb]
  exact result_level steady_resolveTagged parent sets

/-- what every shape of a result is made of -/
theorem shape_of_mem (hb : ctx.fragments.Built) {parent : String} {sets : List TaggedSet} {visited : List String}
    {shapes : List TypeShape} (hr : (runResolve (ctx.resolveTagged parent sets) visited).1 = .ok shapes)
    {shape : TypeShape} (hm : shape ∈ shapes) :
    ∃ collected selected, ctx.gather shape.type sets = .ok collected ∧
      collected.entries.mapM
        (ctx.fieldResult (fun parent sets => (ctx.resolveTagged parent sets).result) shape.type) = .ok selected ∧
      shape.fields = ctx.implicitTypename shape.type collected ++ selected := by
  rw [steady_resolveTagged parent sets visited, result_resolveTagged hb] at hr
  obtain ⟨concretes, -, hshapes⟩ := bind_eq_ok_iff.1 hr
  obtain ⟨concrete, -, hshape⟩ := exists_of_mem_mapM hshapes shape hm
  obtain ⟨rfl, hshape⟩ := shapeResult_ok hshape
  exact hshape

end ShapeContext

end GraphGen
