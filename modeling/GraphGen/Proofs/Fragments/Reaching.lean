/-
The fragments that a selection set reaches.

`Reaches` follows spreads at any depth, without a walk. `Covers` is the invariant of the walk that finds them: the fragments
that were met are different ones of the index, what was met or is pending is reached, and whatever is spread, first by the
selections or then by a fragment that was met, was met or is pending. It is kept when a fragment is met (`Covers.meet`) and
when the name of one that was met is passed (`Covers.pass`). With no name pending, all that is reached was met.

Main results:
- `mem_closure_iff`: the fragments that are found for a selection set are those that it reaches, each once.
- `not_reaches_itself`: where no fragment spreads itself, the selections of a fragment do not reach it.
-/
import GraphGen.Proofs.Fragments.Closure

namespace GraphGen

namespace FragmentIndex

/-- the selections lead to a name: they spread it, at any depth, or it is spread by a fragment that they lead to -/
inductive Reaches (index : FragmentIndex) (selections : SelectionSet) : String → Prop where
  | spread {name : String} {selection : Selection} (hm : selection ∈ selections) (hs : selection.Mentions name) :
      Reaches index selections name
  | through {name next : String} {entry : IndexedFragment} {selection : Selection}
      (hr : Reaches index selections name) (he : index.get? name = some entry)
      (hm : selection ∈ entry.fragment.selections) (hs : selection.Mentions next) : Reaches index selections next

variable {index : FragmentIndex} {selections : SelectionSet}

theorem reaches_of_mem_spreads {name : String} (h : name ∈ selections.spreads) : index.Reaches selections name := by
  obtain ⟨selection, hm, hs⟩ := (Selection.mem_spreadsOf_iff name selections).1 h
  exact .spread hm hs

theorem Reaches.next {name next : String} {entry : IndexedFragment} (hr : index.Reaches selections name)
    (he : index.get? name = some entry) (hn : next ∈ entry.spreads) : index.Reaches selections next := by
  obtain ⟨selection, hm, hs⟩ := (Selection.mem_spreadsOf_iff next entry.fragment.selections).1 hn
  exact .through hr he hm hs

/-! ## Reaching from parts -/

/-- what selections reach, all selections reach that reach their spreads -/
theorem Reaches.of_spreads {inner outer : SelectionSet} {name : String} (h : index.Reaches inner name)
    (hs : ∀ selection ∈ inner, ∀ other, selection.Mentions other → index.Reaches outer other) :
    index.Reaches outer name := by
  induction h with
  | spread hm hn => exact hs _ hm _ hn
  | through _ he hm hn ih => exact .through ih he hm hn

/-- the selections of a field reach no more than those that it stands in -/
theorem Reaches.of_field {aliasName : Option String} {fieldName name : String} {arguments : List (String × Value)}
    {directives : List Directive} {inner outer : SelectionSet}
    (hm : .field aliasName fieldName arguments directives inner ∈ outer) (h : index.Reaches inner name) :
    index.Reaches outer name :=
  h.of_spreads fun _ hs _ hn => .spread hm (.inField hs hn)

theorem Reaches.of_inline {condition : Option String} {name : String} {directives : List Directive}
    {inner outer : SelectionSet} (hm : .inline condition directives inner ∈ outer) (h : index.Reaches inner name) :
    index.Reaches outer name :=
  h.of_spreads fun _ hs _ hn => .spread hm (.inInline hs hn)

/-- the selections of a fragment reach no more than those that spread it -/
theorem Reaches.of_fragment {spread name : String} {directives : List Directive} {entry : IndexedFragment}
    {outer : SelectionSet} (hm : .spread spread directives ∈ outer) (he : index.get? spread = some entry)
    (h : index.Reaches entry.fragment.selections name) : index.Reaches outer name :=
  h.of_spreads fun _ hs _ hn => .through (.spread hm (.here directives)) he hs hn

theorem Reaches.of_rest {first : Selection} {rest : SelectionSet} {name : String} (h : index.Reaches rest name) :
    index.Reaches (first :: rest) name :=
  h.of_spreads fun _ hs _ hn => .spread (List.mem_cons_of_mem _ hs) hn

/-! ## The invariant of the walk -/

/-- the walk from the selections has met these fragments, others are unmet, and these names are pending -/
structure Covers (index : FragmentIndex) (selections : SelectionSet) (unmet : List (String × IndexedFragment))
    (met : List IndexedFragment) (pending : List String) : Prop where
  unmetOf : ∀ name entry, unmet.lookup name = some entry → index.get? name = some entry
  metOf : ∀ entry ∈ met, index.get? (nameOf entry) = some entry ∧ unmet.lookup (nameOf entry) = none
  nodup : (met.map nameOf).Nodup
  reached : ∀ name ∈ met.map nameOf ++ pending, index.Reaches selections name
  first : ∀ name ∈ selections.spreads, name ∈ met.map nameOf ++ pending
  next : ∀ entry ∈ met, ∀ name ∈ entry.spreads, name ∈ met.map nameOf ++ pending

variable {unmet : List (String × IndexedFragment)} {met : List IndexedFragment} {name : String} {pending : List String}

/-- before the walk nothing is met, and all that the selections spread is pending -/
theorem covers_start : index.Covers selections index.entries.entries [] selections.spreads where
  unmetOf _ _ he := he
  metOf := by simp
  nodup := List.nodup_nil
  reached _ hm := reaches_of_mem_spreads hm
  first _ hm := hm
  next := by simp

/-- meeting a fragment keeps what was met or pending, and adds its spreads -/
theorem mem_meet_iff {entry : IndexedFragment} {other : String} :
    other ∈ (met ++ [entry]).map nameOf ++ (entry.spreads ++ pending) ↔
      other ∈ met.map nameOf ++ nameOf entry :: pending ∨ other ∈ entry.spreads := by
  simp only [List.map_append, List.map_cons, List.map_nil, List.mem_append, List.mem_cons, List.not_mem_nil, or_false]
  tauto

/-- a fragment that is unmet was not met under its name -/
theorem Covers.not_met (h : index.Covers selections unmet met pending) {entry : IndexedFragment}
    (he : unmet.lookup name = some entry) : name ∉ met.map nameOf := by
  intro hm
  obtain ⟨found, hf, hfound⟩ := List.mem_map.1 hm
  have hgone := (h.metOf found hf).2
  rw [hfound, he] at hgone
  cases hgone

/-- a fragment is met for the first time: its name is no longer pending, and its spreads are -/
theorem Covers.meet (hown : UnderOwnNames unmet) {entry : IndexedFragment} (he : unmet.lookup name = some entry)
    (h : index.Covers selections unmet met (name :: pending)) :
    index.Covers selections (without name unmet) (met ++ [entry]) (entry.spreads ++ pending) := by
  have hname : nameOf entry = name := hown name entry he
  have hget : index.get? name = some entry := h.unmetOf name entry he
  have hnew : name ∉ met.map nameOf := h.not_met he
  subst hname
  refine ⟨?_, ?_, ?_, ?_, fun other ho => mem_meet_iff.2 (.inl (h.first other ho)), ?_⟩
  · intro other found hf
    rw [lookup_without] at hf
    split at hf
    · cases hf
    · exact h.unmetOf other found hf
  · intro found hf
    rw [lookup_without]
    rcases List.mem_append.1 hf with hf | hf
    · obtain ⟨hindex, hgone⟩ := h.metOf found hf
      exact ⟨hindex, by rw [hgone, ite_self]⟩
    · rw [List.mem_singleton.1 hf, if_pos rfl]
      exact ⟨hget, rfl⟩
  · rw [List.map_append, List.map_singleton, ← List.concat_eq_append]
    exact h.nodup.concat hnew
  · intro other ho
    rcases mem_meet_iff.1 ho with ho | ho
    · exact h.reached other ho
    · exact (h.reached (nameOf entry) (by simp)).next hget ho
  · intro found hf other ho
    rcases List.mem_append.1 hf with hf | hf
    · exact mem_meet_iff.2 (.inl (h.next found hf other ho))
    · rw [List.mem_singleton.1 hf] at ho
      exact mem_meet_iff.2 (.inr ho)

/-- the name of a fragment that was met is passed -/
theorem Covers.pass (hm : name ∈ met.map nameOf) (h : index.Covers selections unmet met (name :: pending)) :
    index.Covers selections unmet met pending := by
  have hkeeps : ∀ other ∈ met.map nameOf ++ name :: pending, other ∈ met.map nameOf ++ pending := by
    intro other ho
    rcases List.mem_append.1 ho with ho | ho
    · exact List.mem_append_left _ ho
    · rcases List.mem_cons.1 ho with rfl | ho
      · exact List.mem_append_left _ hm
      · exact List.mem_append_right _ ho
  refine { h with
    reached := fun other ho => h.reached other ?_
    first := fun other ho => hkeeps other (h.first other ho)
    next := fun found hf other ho => hkeeps other (h.next found hf other ho) }
  exact ((List.append_sublist_append_left _).2 (List.sublist_cons_self name pending)).subset ho

/-- **A whole walk** ends with nothing pending. -/
theorem covers_of_reach {all : List IndexedFragment} (hown : UnderOwnNames unmet)
    (h : index.Covers selections unmet met pending) (hr : reach unmet met pending = .ok all) :
    ∃ rest, index.Covers selections rest all [] := by
  induction unmet, met, pending using reach.induct with
  | case1 unmet met =>
    rw [reach] at hr
    cases hr
    exact ⟨unmet, h⟩
  | case2 unmet met name pending entry he ih =>
    rw [reach_unmet he] at hr
    exact ih (hown.without name) (h.meet hown he) hr
  | case3 unmet met name pending hn hm ih =>
    have hmet : ∃ entry ∈ met, nameOf entry = name := by simpa using hm
    rw [reach_met hn hmet] at hr
    exact ih hown (h.pass (List.mem_map.2 hmet)) hr
  | case4 unmet met name pending hn hm =>
    obtain ⟨entry, he⟩ | hmet := present_of_reach hown ⟨all, hr⟩ name List.mem_cons_self
    · rw [hn] at he
      cases he
    · exact absurd (by simpa using hmet) hm

/-- with nothing pending, all that is reached was met -/
theorem Covers.met_of_reaches (h : index.Covers selections unmet met []) (hr : index.Reaches selections name) :
    name ∈ met.map nameOf := by
  have hmet : ∀ other, other ∈ met.map nameOf ++ [] → other ∈ met.map nameOf := fun _ => by simp
  induction hr with
  | spread hm hs => exact hmet _ (h.first _ ((Selection.mem_spreadsOf_iff _ _).2 ⟨_, hm, hs⟩))
  | through _ he hm hs ih =>
    obtain ⟨found, hf, rfl⟩ := List.mem_map.1 ih
    cases (h.metOf found hf).1.symm.trans he
    exact hmet _ (h.next _ hf _ ((Selection.mem_spreadsOf_iff _ _).2 ⟨_, hm, hs⟩))

/-! ## The closure -/

variable {sources : List LocatedDocument} {external : List Fragment}

/-- **What a selection set needs.** The fragments that are found for it are different ones of the index, and their names are
all those that it reaches. -/
theorem mem_closure_iff (h : ofDocuments sources external = .ok index) {found : List IndexedFragment}
    (hc : index.closure selections = .ok found) :
    (found.map nameOf).Nodup ∧ (∀ name, name ∈ found.map nameOf ↔ index.Reaches selections name) ∧
      ∀ entry ∈ found, index.get? (nameOf entry) = some entry := by
  obtain ⟨rest, hcovers⟩ := covers_of_reach (underOwnNames_of_ofDocuments h) covers_start hc
  refine ⟨hcovers.nodup, fun name => ⟨fun hm => ?_, hcovers.met_of_reaches⟩, fun entry he => (hcovers.metOf entry he).1⟩
  exact hcovers.reached name (List.mem_append_left _ hm)

/-- what the selections of a fragment reach lies behind it in the graph of spreads -/
theorem transGen_of_reaches {entry : IndexedFragment} {next : String} (he : index.get? name = some entry)
    (hr : index.Reaches entry.fragment.selections next) (hk : index.Known next) :
    Relation.TransGen index.Edge name next := by
  induction hr with
  | spread hm hs => exact .single ⟨⟨entry, he, (Selection.mem_spreadsOf_iff _ _).2 ⟨_, hm, hs⟩⟩, hk⟩
  | through _ hmid hm hs ih =>
    exact (ih (known_of_get? hmid)).tail ⟨⟨_, hmid, (Selection.mem_spreadsOf_iff _ _).2 ⟨_, hm, hs⟩⟩, hk⟩

/-- **No fragment is reached from itself** when the index was built, since that would close a cycle of spreads. -/
theorem not_reaches_itself (h : ofDocuments sources external = .ok index) {entry : IndexedFragment}
    (he : index.get? name = some entry) : ¬ index.Reaches entry.fragment.selections name := fun hr =>
  Built.acyclic (Or.inr ⟨sources, external, h⟩) name (transGen_of_reaches he hr (known_of_get? he))

end FragmentIndex

end GraphGen
