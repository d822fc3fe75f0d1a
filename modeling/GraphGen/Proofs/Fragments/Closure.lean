/-
The fragments that a selection set needs.

`reach` meets the pending names in order. A fragment that is met for the first time goes over from those that were not met,
and its spreads come in front of the names that are pending. Which names are those of fragments does not change by that
(`present_meet`), so that this is known of all pending names from the start: the walk fails exactly at a name of no fragment.

Main results:
- `known_of_closure`: a selection set whose fragments were found spreads known names only.
- `succeeds_closure`: it is enough that it and all fragments spread known names only.
-/
import GraphGen.Proofs.Fragments.Building

namespace GraphGen

namespace FragmentIndex

/-! ## Meeting a fragment -/

/-- the name is that of a fragment: of one that was not met, or of one that was -/
def Present (unmet : List (String × IndexedFragment)) (met : List IndexedFragment) (name : String) : Prop :=
  (∃ entry, unmet.lookup name = some entry) ∨ ∃ entry ∈ met, nameOf entry = name

/-- every fragment stands under its own name -/
def UnderOwnNames (unmet : List (String × IndexedFragment)) : Prop :=
  ∀ name entry, unmet.lookup name = some entry → nameOf entry = name

variable {unmet : List (String × IndexedFragment)} {met : List IndexedFragment}

theorem lookup_without (name other : String) (unmet : List (String × IndexedFragment)) :
    (without name unmet).lookup other = if other = name then none else unmet.lookup other := by
  induction unmet with
  | nil => simp [without]
  | cons first rest ih =>
    obtain ⟨key, entry⟩ := first
    rw [without] at ih ⊢
    rw [List.filter_cons, lookup_cons_ite]
    by_cases hkey : key = name
    · subst hkey
      rw [if_neg (by simp), ih]
      split <;> rfl
    · rw [if_pos (bne_iff_ne.2 hkey), lookup_cons_ite, ih]
      by_cases ho : other = key
      · subst ho
        rw [if_pos rfl, if_neg hkey, if_pos rfl]
      · rw [if_neg ho, if_neg ho]

theorem UnderOwnNames.without (h : UnderOwnNames unmet) (name : String) : UnderOwnNames (without name unmet) := by
  intro other entry he
  rw [lookup_without] at he
  split at he
  · cases he
  · exact h other entry he

/-- meeting a fragment changes nothing about which names there are -/
theorem present_meet (h : UnderOwnNames unmet) {name : String} {entry : IndexedFragment}
    (he : unmet.lookup name = some entry) (other : String) :
    Present (without name unmet) (met ++ [entry]) other ↔ Present unmet met other := by
  have hname : nameOf entry = name := h name entry he
  unfold Present
  rw [lookup_without]
  by_cases ho : other = name
  · subst ho
    exact iff_of_true (Or.inr ⟨entry, by simp, hname⟩) (Or.inl ⟨entry, he⟩)
  · rw [if_neg ho]
    refine or_congr_right ⟨?_, fun ⟨found, hm, hf⟩ => ⟨found, List.mem_append_left _ hm, hf⟩⟩
    rintro ⟨found, hm, hf⟩
    rcases List.mem_append.1 hm with hm | hm
    · exact ⟨found, hm, hf⟩
    · rw [List.mem_singleton.1 hm] at hf
      exact absurd (hf.symm.trans hname) ho

/-! ## The walk -/

theorem reach_unmet {name : String} {entry : IndexedFragment} (he : unmet.lookup name = some entry)
    (pending : List String) :
    reach unmet met (name :: pending) = reach (without name unmet) (met ++ [entry]) (entry.spreads ++ pending) := by
  rw [reach]
  split
  · rename_i found hf
    rw [he] at hf
    cases hf
    rfl
  · rename_i hn
    rw [he] at hn
    cases hn

theorem reach_met {name : String} (hn : unmet.lookup name = none) (hm : ∃ entry ∈ met, nameOf entry = name)
    (pending : List String) : reach unmet met (name :: pending) = reach unmet met pending := by
  rw [reach]
  split
  · rename_i found hf
    rw [hn] at hf
    cases hf
  · rw [if_pos]
    simpa using hm

/-- the walk comes to names of fragments only -/
theorem present_of_reach {pending : List String} (h : UnderOwnNames unmet) (hr : Succeeds (reach unmet met pending)) :
    ∀ name ∈ pending, Present unmet met name := by
  induction unmet, met, pending using reach.induct with
  | case1 => simp
  | case2 unmet met name pending entry he ih =>
    rw [reach_unmet he] at hr
    have hlater := ih (h.without name) hr
    intro other ho
    rcases List.mem_cons.1 ho with rfl | ho
    · exact Or.inl ⟨entry, he⟩
    · exact (present_meet h he other).1 (hlater other (List.mem_append_right _ ho))
  | case3 unmet met name pending hn hm ih =>
    have hmet : ∃ entry ∈ met, nameOf entry = name := by simpa using hm
    rw [reach_met hn hmet] at hr
    exact List.forall_mem_cons.2 ⟨Or.inr hmet, ih h hr⟩
  | case4 unmet met name pending hn hm =>
    rw [reach] at hr
    split at hr
    · rename_i found hf
      rw [hn] at hf
      cases hf
    · rw [if_neg hm] at hr
      obtain ⟨_, hr⟩ := hr
      cases hr

/-- the walk succeeds when all spreads are of names that are there -/
theorem succeeds_reach {pending : List String} (h : UnderOwnNames unmet)
    (hclosed : ∀ name entry, unmet.lookup name = some entry → ∀ next ∈ entry.spreads, Present unmet met next)
    (hp : ∀ name ∈ pending, Present unmet met name) : Succeeds (reach unmet met pending) := by
  induction unmet, met, pending using reach.induct with
  | case1 => exact ⟨_, by rw [reach]⟩
  | case2 unmet met name pending entry he ih =>
    rw [reach_unmet he]
    refine ih (h.without name) (fun other found hf next hnext => ?_) fun next hnext => ?_
    · rw [lookup_without] at hf
      split at hf
      · cases hf
      · exact (present_meet h he next).2 (hclosed other found hf next hnext)
    · refine (present_meet h he next).2 ?_
      rcases List.mem_append.1 hnext with hnext | hnext
      · exact hclosed name entry he next hnext
      · exact hp next (List.mem_cons_of_mem _ hnext)
  | case3 unmet met name pending hn hm ih =>
    rw [reach_met hn (by simpa using hm)]
    exact ih h hclosed fun other ho => hp other (List.mem_cons_of_mem _ ho)
  | case4 unmet met name pending hn hm =>
    rcases hp name List.mem_cons_self with ⟨entry, he⟩ | hmet
    · rw [hn] at he
      cases he
    · exact absurd (by simpa using hmet) hm

/-! ## The closure -/

variable {index : FragmentIndex} {sources : List LocatedDocument} {external : List Fragment}

theorem underOwnNames_of_ofDocuments (h : ofDocuments sources external = .ok index) :
    UnderOwnNames index.entries.entries :=
  fun _ _ he => ((get?_iff_of_entries (ofDocuments_ok h).1).1 he).2

theorem Built.underOwnNames (h : index.Built) : UnderOwnNames index.entries.entries := by
  rcases h with rfl | ⟨sources, external, h⟩
  · exact nofun
  · exact underOwnNames_of_ofDocuments h

theorem present_iff_known {name : String} : Present index.entries.entries [] name ↔ index.Known name := by
  rw [Known, Table.mem_keys_iff]
  simp [Present, Table.get?]

/-- what needs all its fragments found spreads known names -/
theorem known_of_closure (h : ofDocuments sources external = .ok index) {selections : SelectionSet}
    (hc : Succeeds (index.closure selections)) : ∀ name ∈ selections.spreads, index.Known name :=
  fun name hm => present_iff_known.1 (present_of_reach (underOwnNames_of_ofDocuments h) hc name hm)

/-- **All fragments are found** where no spread is of an unknown name. -/
theorem succeeds_closure (h : ofDocuments sources external = .ok index)
    (hk : ∀ entry ∈ keptFragments sources external, ∀ name ∈ entry.spreads, index.Known name) {selections : SelectionSet}
    (hs : ∀ name ∈ selections.spreads, index.Known name) : Succeeds (index.closure selections) := by
  refine succeeds_reach (underOwnNames_of_ofDocuments h) (fun _ entry he name hm => ?_)
    fun name hm => present_iff_known.2 (hs name hm)
  exact present_iff_known.2 (hk entry ((get?_iff_of_entries (ofDocuments_ok h).1).1 he).1 name hm)

end FragmentIndex

end GraphGen
