/-
Selections up to the places of their spreads.

A fragment can be spread anywhere among the other selections of its level. Selection sets that differ in no more than that, on
any of their levels, become one when the spreads of every level are put in front of its other selections
(`Selection.spreadsFirst`).

- `Shuffled`: the same items in another order, with those in place in the same order.
- `Meets.spreadsFirst`: putting the spreads in front shuffles the occurrences, since those of a spread come from a fragment.
- `Rearranged`: tagged sets that are shuffled, up to the places of spreads. On every concrete type they have shuffled
  occurrences (`shuffled_of_rearranged`), and they get shapes on the same types, since the search for other types finds them in
  both or in neither (`shapeTypes_of_rearranged`).
-/
import Mathlib.Data.List.Perm.Basic
import GraphGen.Proofs.Shape.InterfaceShortcut

namespace GraphGen

namespace Selection

/-- whether it is a spread -/
def isSpread : Selection → Bool
  | spread _ _ => true
  | _ => false

mutual

/-- the selection with the spreads in front on all levels within it -/
def arranged : Selection → Selection
  | field aliasName name arguments directives selections =>
    .field aliasName name arguments directives (selections.filter isSpread ++ othersArranged selections)
  | spread name directives => .spread name directives
  | inline condition directives selections =>
    .inline condition directives (selections.filter isSpread ++ othersArranged selections)

/-- the selections that are no spreads, with the spreads in front on all levels within them -/
def othersArranged : List Selection → List Selection
  | [] => []
  | selection :: rest => if isSpread selection then othersArranged rest else arranged selection :: othersArranged rest

end

/-- the selections with the spreads of every level in front of its other selections -/
def spreadsFirst (selections : List Selection) : List Selection :=
  selections.filter isSpread ++ othersArranged selections

/-- the selections differ in the places of spreads among the other selections of their levels, and in nothing else -/
def SpreadsMoved (selections others : List Selection) : Prop :=
  spreadsFirst selections = spreadsFirst others

theorem arranged_field (aliasName : Option String) (name : String) (arguments : List (String × Value))
    (directives : List Directive) (selections : List Selection) :
    arranged (.field aliasName name arguments directives selections) =
      .field aliasName name arguments directives (spreadsFirst selections) := by
  rw [arranged, spreadsFirst]

theorem arranged_inline (condition : Option String) (directives : List Directive) (selections : List Selection) :
    arranged (.inline condition directives selections) = .inline condition directives (spreadsFirst selections) := by
  rw [arranged, spreadsFirst]

@[simp] theorem isSpread_arranged (selection : Selection) : isSpread (arranged selection) = isSpread selection := by
  cases selection <;> simp [arranged, isSpread]

theorem arranged_of_isSpread {selection : Selection} (h : isSpread selection = true) : arranged selection = selection := by
  cases selection with
  | spread name directives => rw [arranged]
  | field => cases h
  | inline => cases h

theorem othersArranged_eq (selections : List Selection) :
    othersArranged selections = (selections.filter fun selection => !isSpread selection).map arranged := by
  induction selections with
  | nil => rw [othersArranged, List.filter_nil, List.map_nil]
  | cons selection rest ih =>
    rw [othersArranged]
    cases h : isSpread selection <;> simp [h, ih]

/-- **Selections whose spreads come in one order and whose other selections come in one order** differ in no more than the
places of the spreads. -/
theorem spreadsMoved_of_filter {selections others : List Selection}
    (hs : selections.filter isSpread = others.filter isSpread)
    (ho : selections.filter (fun selection => !isSpread selection) = others.filter fun selection => !isSpread selection) :
    SpreadsMoved selections others := by
  rw [SpreadsMoved, spreadsFirst, spreadsFirst, hs, othersArranged_eq, othersArranged_eq, ho]

/-- putting the spreads in front only changes the order, up to the levels within -/
theorem spreadsFirst_perm (selections : List Selection) : (spreadsFirst selections).Perm (selections.map arranged) := by
  have hspreads : selections.filter isSpread = (selections.filter isSpread).map arranged := by
    refine (List.map_id _).symm.trans (List.map_congr_left fun selection hs => ?_)
    exact (arranged_of_isSpread (List.mem_filter.1 hs).2).symm
  rw [spreadsFirst, othersArranged_eq, hspreads, ← List.map_append]
  exact (List.filter_append_perm isSpread selections).map arranged

theorem forall_mem_spreadsFirst {p : Selection → Prop} {selections : List Selection} :
    (∀ selection ∈ spreadsFirst selections, p selection) ↔ ∀ selection ∈ selections, p (arranged selection) := by
  simp only [(spreadsFirst_perm selections).mem_iff, List.forall_mem_map]

/-! ## Once is enough -/

theorem othersArranged_append (selections more : List Selection) :
    othersArranged (selections ++ more) = othersArranged selections ++ othersArranged more := by
  simp [othersArranged_eq]

theorem othersArranged_spreads (selections : List Selection) : othersArranged (selections.filter isSpread) = [] := by
  simp [othersArranged_eq, List.filter_filter]

theorem filter_othersArranged (selections : List Selection) : (othersArranged selections).filter isSpread = [] := by
  rw [othersArranged_eq, List.filter_map]
  simp [List.filter_filter, Function.comp_def]

/-- putting the spreads in front once more changes what comes after them alone -/
theorem spreadsFirst_of_others {selections : List Selection}
    (h : othersArranged (othersArranged selections) = othersArranged selections) :
    spreadsFirst (spreadsFirst selections) = spreadsFirst selections := by
  rw [spreadsFirst, spreadsFirst, List.filter_append, filter_othersArranged, othersArranged_append, othersArranged_spreads, h]
  simp

mutual

theorem arranged_arranged : (selection : Selection) → arranged (arranged selection) = arranged selection
  | .field _ _ _ _ selections => by
    rw [arranged_field, arranged_field, spreadsFirst_of_others (othersArranged_othersArranged selections)]
  | .spread _ _ => by rw [arranged, arranged]
  | .inline _ _ selections => by
    rw [arranged_inline, arranged_inline, spreadsFirst_of_others (othersArranged_othersArranged selections)]

theorem othersArranged_othersArranged : (selections : List Selection) →
    othersArranged (othersArranged selections) = othersArranged selections
  | [] => by rw [othersArranged, othersArranged]
  | selection :: rest => by
    rw [othersArranged]
    split
    · exact othersArranged_othersArranged rest
    · rename_i h
      rw [othersArranged, isSpread_arranged, if_neg h, arranged_arranged selection, othersArranged_othersArranged rest]

end

@[simp] theorem spreadsFirst_spreadsFirst (selections : List Selection) :
    spreadsFirst (spreadsFirst selections) = spreadsFirst selections :=
  spreadsFirst_of_others (othersArranged_othersArranged selections)

end Selection

/-! ## Shuffled items -/

/-- the same items in another order, with those in place in the same order -/
structure Shuffled {α : Type} (origin : α → Provenance) (items others : List α) : Prop where
  perm : items.Perm others
  inPlace : items.filter (origin · = .inPlace) = others.filter (origin · = .inPlace)

namespace Shuffled

variable {α β : Type} {origin : α → Provenance} {items others more rest : List α}

theorem refl (items : List α) : Shuffled origin items items := ⟨.refl _, rfl⟩

theorem symm (h : Shuffled origin items others) : Shuffled origin others items := ⟨h.perm.symm, h.inPlace.symm⟩

theorem trans (h : Shuffled origin items others) (h' : Shuffled origin others more) : Shuffled origin items more :=
  ⟨h.perm.trans h'.perm, h.inPlace.trans h'.inPlace⟩

theorem append (h : Shuffled origin items others) (h' : Shuffled origin more rest) :
    Shuffled origin (items ++ more) (others ++ rest) :=
  ⟨h.perm.append h'.perm, by rw [List.filter_append, List.filter_append, h.inPlace, h'.inPlace]⟩

/-- items of which none is in place go past any others -/
theorem swap (h : items.filter (origin · = .inPlace) = []) (others more : List α) :
    Shuffled origin (items ++ (others ++ more)) (others ++ (items ++ more)) := by
  refine ⟨?_, by simp [h]⟩
  rw [← List.append_assoc, ← List.append_assoc]
  exact List.perm_append_comm.append_right more

theorem filter (h : Shuffled origin items others) (p : α → Bool) :
    Shuffled origin (items.filter p) (others.filter p) := by
  refine ⟨h.perm.filter p, ?_⟩
  rw [List.filter_comm, h.inPlace, List.filter_comm]

theorem map (h : Shuffled origin items others) {origin' : β → Provenance} (f : α → β)
    (hf : ∀ item, origin' (f item) = origin item) : Shuffled origin' (items.map f) (others.map f) := by
  refine ⟨h.perm.map f, ?_⟩
  simp only [List.filter_map, Function.comp_def, hf, h.inPlace]

end Shuffled

/-! ## Shuffled occurrences -/

/-- the set with the spreads in front -/
def TaggedSet.arranged (set : TaggedSet) : TaggedSet := ⟨Selection.spreadsFirst set.selections, set.provenance⟩

/-- the field, with the spreads of its sub-selections in front -/
def SlotContent.arranged : SlotContent → SlotContent
  | link field sets => .link field (sets.map TaggedSet.arranged)
  | content => content

/-- the occurrence, with the spreads of its sub-selections in front -/
def Occurrence.arranged (o : Occurrence) : Occurrence :=
  ⟨⟨o.key, o.name, Selection.spreadsFirst o.selections⟩, o.provenance, o.content.arranged⟩

namespace ShapeContext

variable {ctx : ShapeContext} {concrete : String}

/-- what is met in a fragment comes from a spread -/
theorem Meets.provenance {stack : List String} {selections : List Selection} {met : List Occurrence}
    (h : Meets ctx concrete stack .spread selections met) : standing met = [] := by
  generalize hp : Provenance.spread = provenance at h
  induction h with
  | nil => rfl
  | field _ _ ih =>
    subst hp
    exact ih rfl
  | inline _ _ _ ihi ihr => rw [standing_append, ihi hp, ihr hp, List.append_nil]
  | inlineSkip _ _ ih => exact ih hp
  | spread _ _ _ _ _ ihi ihr => rw [standing_append, ihi rfl, ihr hp, List.append_nil]
  | spreadSkip _ _ _ _ ih => exact ih hp

/-- a field selection collects the same with its spreads in front -/
theorem fieldContent_arranged {provenance : Provenance} {name : String} {selections : SelectionSet} {content : SlotContent}
    (h : ctx.fieldContent concrete provenance name selections = .ok content) :
    ∃ content', ctx.fieldContent concrete provenance name (Selection.spreadsFirst selections) = .ok content' ∧
      content'.arranged = content.arranged := by
  unfold fieldContent at h ⊢
  split at h
  · rename_i hname
    cases h
    exact ⟨_, if_pos hname, rfl⟩
  · rename_i hname
    rw [if_neg hname]
    split at h
    · cases h
    · split at h <;> rename_i hleaf <;> cases h
      · exact ⟨_, if_pos hleaf, rfl⟩
      · exact ⟨_, if_neg hleaf, by simp [SlotContent.arranged, TaggedSet.arranged]⟩

/-- **Putting the spreads in front shuffles the occurrences.** -/
theorem Meets.spreadsFirst {stack : List String} {provenance : Provenance} {selections : List Selection}
    {met : List Occurrence} (h : Meets ctx concrete stack provenance selections met) :
    ∃ met', Meets ctx concrete stack provenance (Selection.spreadsFirst selections) met' ∧
      Shuffled (·.provenance) (met.map Occurrence.arranged) (met'.map Occurrence.arranged) := by
  suffices hparts : ∃ front back, Meets ctx concrete stack provenance (selections.filter Selection.isSpread) front ∧
      Meets ctx concrete stack provenance (Selection.othersArranged selections) back ∧ standing front = [] ∧
      Shuffled (·.provenance) (met.map Occurrence.arranged) ((front ++ back).map Occurrence.arranged) by
    obtain ⟨front, back, hfront, hback, -, hmet⟩ := hparts
    exact ⟨front ++ back, hfront.append hback, hmet⟩
  -- the occurrences of spreads in front go past those of a selection that is none
  have hpast : ∀ {own own' met front back : List Occurrence}, standing front = [] →
      Shuffled (·.provenance) (own.map Occurrence.arranged) (own'.map Occurrence.arranged) →
      Shuffled (·.provenance) (met.map Occurrence.arranged) ((front ++ back).map Occurrence.arranged) →
      Shuffled (·.provenance) ((own ++ met).map Occurrence.arranged) ((front ++ (own' ++ back)).map Occurrence.arranged) := by
    intro own own' met front back hnone hown hmet
    have happend := hown.append hmet
    rw [← List.map_append, ← List.map_append] at happend
    exact happend.trans ((Shuffled.swap hnone own' back).symm.map Occurrence.arranged fun _ => rfl)
  induction h with
  | nil => exact ⟨[], [], .nil, by rw [Selection.othersArranged]; exact .nil, rfl, .refl _⟩
  | @field _ provenance aliasName name _ _ selections _ content _ hc _ ih =>
    obtain ⟨front, back, hfront, hback, hnone, hmet⟩ := ih
    obtain ⟨content', hc', harranged⟩ := fieldContent_arranged hc
    rw [Selection.othersArranged, Selection.arranged_field]
    refine ⟨front, _ :: back, hfront, .field hc' hback, hnone, ?_⟩
    refine @hpast [_] [_] _ _ _ hnone ?_ hmet
    simp only [List.map_cons, List.map_nil, Occurrence.arranged, harranged, Selection.spreadsFirst_spreadsFirst]
    exact .refl _
  | inline ha _ _ ihi ihr =>
    obtain ⟨front, back, hfront, hback, hnone, hmet⟩ := ihr
    obtain ⟨front', back', hfront', hback', -, hinner⟩ := ihi
    rw [Selection.othersArranged, Selection.arranged_inline]
    exact ⟨front, _, hfront, .inline ha (hfront'.append hback') hback, hnone, hpast hnone hinner hmet⟩
  | inlineSkip ha _ ih =>
    obtain ⟨front, back, hfront, hback, hnone, hmet⟩ := ih
    rw [Selection.othersArranged, Selection.arranged_inline]
    exact ⟨front, back, hfront, .inlineSkip ha hback, hnone, hmet⟩
  | @spread _ _ _ _ _ _ inner _ hn he ha hi _ _ ihr =>
    obtain ⟨front, back, hfront, hback, hnone, hmet⟩ := ihr
    rw [Selection.othersArranged]
    refine ⟨inner ++ front, back, .spread hn he ha hi hfront, hback, ?_, ?_⟩
    · rw [standing_append, hi.provenance, hnone, List.append_nil]
    · rw [List.append_assoc, List.map_append, List.map_append]
      exact .append (.refl _) hmet
  | spreadSkip hn he ha _ ih =>
    obtain ⟨front, back, hfront, hback, hnone, hmet⟩ := ih
    rw [Selection.othersArranged]
    exact ⟨front, back, .spreadSkip hn he ha hfront, hback, hnone, hmet⟩

end ShapeContext

/-! ## Rearranged sets -/

/-- the sets are shuffled, up to the places of spreads in them -/
def Rearranged (sets others : List TaggedSet) : Prop :=
  Shuffled (·.provenance) (sets.map TaggedSet.arranged) (others.map TaggedSet.arranged)

/-- one set in which spreads were moved -/
theorem rearranged_of_spreadsMoved {selections others : List Selection} (h : Selection.SpreadsMoved selections others)
    (provenance : Provenance) : Rearranged [⟨selections, provenance⟩] [⟨others, provenance⟩] := by
  unfold Rearranged
  rw [List.map_singleton, List.map_singleton, TaggedSet.arranged, TaggedSet.arranged, show _ = _ from h]
  exact .refl _

namespace ShapeContext

variable {ctx : ShapeContext} {concrete interface : String} {sets others : List TaggedSet} {met met' : List Occurrence}

theorem MeetsSets.arranged (h : MeetsSets ctx concrete sets met) :
    ∃ met', MeetsSets ctx concrete (sets.map TaggedSet.arranged) met' ∧
      Shuffled (·.provenance) (met.map Occurrence.arranged) (met'.map Occurrence.arranged) := by
  induction h with
  | nil => exact ⟨[], .nil, .refl _⟩
  | cons hm _ ih =>
    obtain ⟨own, hown, hshuffled⟩ := hm.spreadsFirst
    obtain ⟨rest, hrest, hshuffled'⟩ := ih
    refine ⟨own ++ rest, .cons hown hrest, ?_⟩
    rw [List.map_append, List.map_append]
    exact hshuffled.append hshuffled'

theorem MeetsSets.perm (hp : sets.Perm others) (h : MeetsSets ctx concrete sets met) :
    ∃ met', MeetsSets ctx concrete others met' ∧ met.Perm met' := by
  induction hp generalizing met with
  | nil => exact ⟨met, h, .refl _⟩
  | cons set _ ih =>
    cases h with
    | @cons _ _ own _ hm hr =>
      obtain ⟨rest, hrest, hperm⟩ := ih hr
      exact ⟨own ++ rest, .cons hm hrest, hperm.append_left own⟩
  | swap set set' rest =>
    cases h with
    | @cons _ _ own _ hm hr =>
      cases hr with
      | @cons _ _ own' more hm' hr' =>
        refine ⟨own' ++ (own ++ more), .cons hm' (.cons hm hr'), ?_⟩
        rw [← List.append_assoc, ← List.append_assoc]
        exact List.perm_append_comm.append_right more
  | trans _ _ ih ih' =>
    obtain ⟨between, hbetween, hperm⟩ := ih h
    obtain ⟨met', hmet', hperm'⟩ := ih' hbetween
    exact ⟨met', hmet', hperm.trans hperm'⟩

/-- what stands in place is met in the sets that do -/
theorem MeetsSets.standing (h : MeetsSets ctx concrete sets met) :
    ∃ met', MeetsSets ctx concrete (sets.filter (·.provenance = .inPlace)) met' ∧ standing met = standing met' := by
  induction h with
  | nil => exact ⟨[], .nil, rfl⟩
  | @cons set _ own _ hm _ ih =>
    obtain ⟨met', hmet', hstanding⟩ := ih
    by_cases hp : set.provenance = .inPlace
    · refine ⟨own ++ met', ?_, by rw [standing_append, standing_append, hstanding]⟩
      rw [List.filter_cons_of_pos (by simpa using hp)]
      exact .cons hm hmet'
    · rw [Provenance.ne_inPlace_iff.1 hp] at hm
      refine ⟨met', ?_, by rw [standing_append, hm.provenance, List.nil_append, hstanding]⟩
      rw [List.filter_cons_of_neg (by simpa using hp)]
      exact hmet'

/-- **Rearranged sets have shuffled occurrences.** -/
theorem shuffled_of_rearranged (h : Rearranged sets others) (hm : MeetsSets ctx concrete sets met)
    (hm' : MeetsSets ctx concrete others met') :
    Shuffled (·.provenance) (met.map Occurrence.arranged) (met'.map Occurrence.arranged) := by
  obtain ⟨front, hfront, hmet⟩ := hm.arranged
  obtain ⟨front', hfront', hmet'⟩ := hm'.arranged
  have hperm : front.Perm front' := by
    obtain ⟨between, hbetween, hperm⟩ := hfront.perm h.perm
    rwa [hbetween.unique hfront'] at hperm
  have hstanding : GraphGen.standing front = GraphGen.standing front' := by
    obtain ⟨place, hplace, hstanding⟩ := hfront.standing
    obtain ⟨place', hplace', hstanding'⟩ := hfront'.standing
    rw [h.inPlace] at hplace
    rw [hstanding, hstanding', hplace.unique hplace']
  have hfronts : Shuffled (·.provenance) front front' := ⟨hperm, hstanding⟩
  exact hmet.trans ((hfronts.map Occurrence.arranged fun _ => rfl).trans hmet'.symm)

/-! ## The types that are asked for -/

theorem unnarrowed_cons_iff {selection : Selection} {rest : List Selection} :
    Unnarrowed ctx interface (selection :: rest) ↔
      Unnarrowed ctx interface [selection] ∧ Unnarrowed ctx interface rest := by
  constructor
  · intro h
    cases h with
    | field hr => exact ⟨.field .nil, hr⟩
    | inline hc hi hr => exact ⟨.inline hc hi .nil, hr⟩
    | spread he hc hi hr => exact ⟨.spread he hc hi .nil, hr⟩
  · rintro ⟨hfirst, hr⟩
    cases hfirst with
    | field => exact .field hr
    | inline hc hi => exact .inline hc hi hr
    | spread he hc hi => exact .spread he hc hi hr

theorem unnarrowed_iff {selections : List Selection} :
    Unnarrowed ctx interface selections ↔ ∀ selection ∈ selections, Unnarrowed ctx interface [selection] := by
  induction selections with
  | nil => exact iff_of_true .nil (by simp)
  | cons selection rest ih => rw [unnarrowed_cons_iff, ih, List.forall_mem_cons]

theorem unnarrowed_spreadsFirst_iff {selections : List Selection} :
    Unnarrowed ctx interface (Selection.spreadsFirst selections) ↔
      ∀ selection ∈ selections, Unnarrowed ctx interface [selection.arranged] :=
  unnarrowed_iff.trans Selection.forall_mem_spreadsFirst

mutual

theorem unnarrowed_arranged : (selection : Selection) →
    (Unnarrowed ctx interface [selection.arranged] ↔ Unnarrowed ctx interface [selection])
  | .field _ _ _ _ _ => by
    rw [Selection.arranged]
    exact ⟨fun _ => .field .nil, fun _ => .field .nil⟩
  | .spread _ _ => by rw [Selection.arranged]
  | .inline _ _ selections => by
    have hinner := unnarrowed_spreadsFirst_iff.trans (unnarrowed_of_arranged selections)
    rw [Selection.arranged_inline]
    constructor
    · rintro (_ | _ | ⟨hc, hi, _⟩)
      exact .inline hc (hinner.1 hi) .nil
    · rintro (_ | _ | ⟨hc, hi, _⟩)
      exact .inline hc (hinner.2 hi) .nil

theorem unnarrowed_of_arranged : (selections : List Selection) →
    ((∀ selection ∈ selections, Unnarrowed ctx interface [selection.arranged]) ↔ Unnarrowed ctx interface selections)
  | [] => iff_of_true (by simp) .nil
  | selection :: rest => by
    rw [List.forall_mem_cons, unnarrowed_arranged selection, unnarrowed_of_arranged rest, ← unnarrowed_cons_iff]

end

theorem unnarrowed_spreadsFirst (selections : List Selection) :
    Unnarrowed ctx interface (Selection.spreadsFirst selections) ↔ Unnarrowed ctx interface selections :=
  unnarrowed_spreadsFirst_iff.trans (unnarrowed_of_arranged selections)

/-- rearranged sets ask for other types alike -/
theorem unnarrowed_of_rearranged (h : Rearranged sets others)
    (hs : ∀ set ∈ sets, Unnarrowed ctx interface set.selections) :
    ∀ set ∈ others, Unnarrowed ctx interface set.selections := by
  intro set hset
  obtain ⟨other, hother, he⟩ := List.mem_map.1 (h.perm.symm.subset (List.mem_map_of_mem hset))
  have hselections : Selection.spreadsFirst other.selections = Selection.spreadsFirst set.selections :=
    congrArg TaggedSet.selections he
  rw [← unnarrowed_spreadsFirst, ← hselections, unnarrowed_spreadsFirst]
  exact hs other hother

/-! ## The search finds no type in them -/

/-- a spread of a fragment without other conditions does not make the search find one -/
def SpreadFinds (ctx : ShapeContext) (interface : String) (expand : String → Except Error Bool) : Prop :=
  ∀ name entry, ctx.fragments.get? name = some entry → entry.fragment.condition = interface →
    Unnarrowed ctx interface entry.fragment.selections → expand name ≠ .ok true

/-- a search that goes on when one selection was searched -/
theorem specializesSelections_cons {expand : String → Except Error Bool} {selection : Selection} {rest : List Selection}
    (h : specializesSelection expand interface selection ≠ .ok true)
    (hr : specializesSelections expand interface rest ≠ .ok true) :
    specializesSelections expand interface (selection :: rest) ≠ .ok true := by
  rw [specializesSelections]
  split
  · exact hr
  · exact h

theorem Unnarrowed.specializesSelections_ne {selections : List Selection} (h : Unnarrowed ctx interface selections)
    {expand : String → Except Error Bool} (hx : SpreadFinds ctx interface expand) :
    specializesSelections expand interface selections ≠ .ok true := by
  induction h with
  | nil => nofun
  | field _ ih => exact specializesSelections_cons nofun ih
  | @inline condition _ _ _ hc _ _ ihi ihr =>
    refine specializesSelections_cons ?_ ihr
    rw [specializesSelection, if_neg]
    · exact ihi
    · cases condition with
      | none => simp
      | some other => simp [hc other rfl]
  | spread he hc hi _ _ ihr =>
    refine specializesSelections_cons ?_ ihr
    rw [specializesSelection]
    exact hx _ _ he hc hi

theorem Unnarrowed.specializesSet_ne (fuel : Nat) {stack : List String} {selections : SelectionSet}
    (h : Unnarrowed ctx interface selections) : ctx.specializesSet interface fuel stack selections ≠ .ok true := by
  induction fuel generalizing stack selections with
  | zero => nofun
  | succ fuel ih =>
    rw [specializesSet]
    apply h.specializesSelections_ne
    intro name entry he hc hi
    cases ho : ctx.openFragment stack name with
    | error error => simp [ho]
    | ok found =>
      cases he.symm.trans (openFragment_ok ho).2
      simpa [ho, hc] using ih hi

/-- **The search finds another condition only when there is one.** -/
theorem specializes_ne (h : ∀ set ∈ sets, Unnarrowed ctx interface set.selections) :
    ctx.specializes interface sets ≠ .ok true := by
  induction sets with
  | nil => nofun
  | cons set rest ih =>
    obtain ⟨hset, hrest⟩ := List.forall_mem_cons.1 h
    rw [specializes]
    split
    · exact ih hrest
    · exact hset.specializesSet_ne _

theorem specializes_iff {narrowed : Bool} (h : ctx.specializes interface sets = .ok narrowed) :
    narrowed = false ↔ ∀ set ∈ sets, Unnarrowed ctx interface set.selections := by
  cases narrowed with
  | false => exact iff_of_true rfl (unnarrowed_of_specializes h)
  | true => exact iff_of_false nofun fun hs => specializes_ne hs h

theorem specializes_of_rearranged (h : Rearranged sets others) {narrowed narrowed' : Bool}
    (hs : ctx.specializes interface sets = .ok narrowed) (hs' : ctx.specializes interface others = .ok narrowed') :
    narrowed = narrowed' := by
  have hiff : narrowed = false ↔ narrowed' = false := by
    rw [specializes_iff hs, specializes_iff hs']
    exact ⟨unnarrowed_of_rearranged h, unnarrowed_of_rearranged h.symm⟩
  cases narrowed <;> cases narrowed' <;> simp_all

/-- **Rearranged sets have shapes on the same types.** -/
theorem shapeTypes_of_rearranged (h : Rearranged sets others) {parent : String} {concretes concretes' : List String}
    (ht : ctx.shapeTypes parent sets = .ok concretes) (ht' : ctx.shapeTypes parent others = .ok concretes') :
    concretes = concretes' := by
  unfold shapeTypes at ht ht'
  cases hr : ctx.schema.requireType parent with
  | error error =>
    rw [hr] at ht
    cases ht
  | ok type =>
    rw [hr] at ht ht'
    cases hk : type.kind <;> simp only [hk] at ht ht'
    case interface =>
      -- an interface is the only type for which the selections matter
      by_cases hp : (ctx.schema.possibleTypes parent).isEmpty = true
      · rw [if_pos hp] at ht ht'
        exact Except.ok.inj (ht.symm.trans ht')
      · rw [if_neg hp] at ht ht'
        split at ht
        · cases ht
        · rename_i hs
          split at ht'
          · cases ht'
          · rename_i hs'
            rw [specializes_of_rearranged h hs hs'] at ht
            exact Except.ok.inj (ht.symm.trans ht')
    all_goals exact Except.ok.inj (ht.symm.trans ht')

end ShapeContext

end GraphGen
