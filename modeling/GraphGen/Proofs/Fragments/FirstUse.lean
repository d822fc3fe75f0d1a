/-
The order in which the fragments of a selection set are found.

The work list that finds them takes its names from the front, passes those that were met, and puts the spreads of a fragment
that is met for the first time in front of the rest (`Round`). A recursive walk meets fragments in the order of their first
use: it takes the spreads in the order in which they stand, and goes into a fragment where it first meets it (`Preorder`).

- `rounds_end`: there is no endless run of rounds, whatever the fragments spread.
- `run_of_reach`: finding fragments is running rounds, until no name is pending or a pending name is that of no fragment.
- `preorder_of_run`: rounds that end with no name pending meet the fragments in the order of the recursive walk. The names in
  front of the list are those that the walk still owes to the fragments it is in (`Preorder.split`).

Main result:
- `closure_first_use`: the rounds end, they fail exactly when a name of no fragment is reached, and otherwise all fragments
  that are reached are found once, in the order of the recursive walk.
-/
import Mathlib.Data.Prod.Lex
import Mathlib.Order.WellFounded
import GraphGen.Proofs.Fragments.Reaching

namespace GraphGen

namespace FragmentIndex

open Relation

variable {index : FragmentIndex} {selections : SelectionSet}

/-! ## Rounds of the work list -/

/-- one round of the work list, on the names that were met and those that are pending -/
inductive Round (index : FragmentIndex) : List String × List String → List String × List String → Prop where
  | pass {met pending : List String} {name : String} (hm : name ∈ met) : Round index (met, name :: pending) (met, pending)
  | meet {met pending : List String} {name : String} {entry : IndexedFragment} (hn : name ∉ met)
      (he : index.get? name = some entry) : Round index (met, name :: pending) (met ++ [name], entry.spreads ++ pending)

/-- the number of fragments that were not met -/
def unmetCount (index : FragmentIndex) (met : List String) : Nat :=
  (index.entries.keys.filter (· ∉ met)).length

theorem unmetCount_lt {met : List String} {name : String} (hn : name ∉ met) (hk : index.Known name) :
    index.unmetCount (met ++ [name]) < index.unmetCount met := by
  have hfilter : index.entries.keys.filter (· ∉ met ++ [name]) =
      (index.entries.keys.filter (· ∉ met)).filter (· ≠ name) := by
    rw [List.filter_filter]
    apply List.filter_congr
    intro other _
    simp [and_comm]
  have hmem : name ∈ index.entries.keys.filter (· ∉ met) := List.mem_filter.2 ⟨hk, by simpa using hn⟩
  unfold unmetCount
  rw [hfilter]
  apply List.length_filter_lt_length_iff_exists.2
  exact ⟨name, hmem, by simp⟩

/-- **Rounds end.** A fragment that is met is no longer unmet, and a name that is passed is no longer pending. -/
theorem rounds_end (index : FragmentIndex) : WellFounded fun next state => index.Round state next := by
  have hmeasure : WellFounded (InvImage (Prod.Lex (· < ·) (· < ·)) fun state : List String × List String =>
      (index.unmetCount state.1, state.2.length)) := InvImage.wf _ (WellFounded.prod_lex Nat.lt_wfRel.wf Nat.lt_wfRel.wf)
  apply Subrelation.wf ?_ hmeasure
  intro next state hround
  cases hround with
  | pass hm => exact Prod.Lex.right _ (Nat.lt_succ_self _)
  | meet hn he => exact Prod.Lex.left _ _ (unmetCount_lt hn (known_of_get? he))

/-- all that is met or pending after some rounds was so before or is reached -/
theorem reaches_of_run {state : List String × List String}
    (h : ReflTransGen index.Round ([], selections.spreads) state) :
    ∀ name ∈ state.1 ++ state.2, index.Reaches selections name := by
  induction h with
  | refl =>
    intro name hm
    exact reaches_of_mem_spreads hm
  | tail _ hround ih =>
    cases hround with
    | pass hm =>
      intro name hname
      apply ih name
      rcases List.mem_append.1 hname with hname | hname
      · exact List.mem_append_left _ hname
      · exact List.mem_append_right _ (List.mem_cons_of_mem _ hname)
    | @meet met pending first entry hn he =>
      have hfirst : index.Reaches selections first := ih first (by simp)
      intro name hname
      simp only [List.mem_append, List.mem_singleton] at hname
      rcases hname with (hname | rfl) | hname | hname
      · exact ih name (by simp [hname])
      · exact hfirst
      · exact hfirst.next he hname
      · exact ih name (by simp [hname])

/-! ## Finding fragments is running rounds -/

/-- what comes of a run: it ends with no name pending, or it stops at a name of no fragment -/
def RunsTo (index : FragmentIndex) (state : List String × List String) : Except Error (List IndexedFragment) → Prop
  | .ok found => ReflTransGen index.Round state (found.map nameOf, [])
  | .error error => ∃ met name pending, ReflTransGen index.Round state (met, name :: pending) ∧ name ∉ met ∧
      ¬ index.Known name ∧ error = .unknownFragment name

theorem RunsTo.head {state next : List String × List String} {outcome : Except Error (List IndexedFragment)}
    (hround : index.Round state next) (h : index.RunsTo next outcome) : index.RunsTo state outcome := by
  cases outcome with
  | ok found => exact ReflTransGen.head hround h
  | error error =>
    obtain ⟨met, name, pending, hrun, hstop⟩ := h
    exact ⟨met, name, pending, hrun.head hround, hstop⟩

/-- **Finding fragments is running rounds.** -/
theorem run_of_reach {unmet : List (String × IndexedFragment)} {met : List IndexedFragment} {pending : List String}
    (hown : UnderOwnNames unmet) (h : index.Covers selections unmet met pending)
    (hall : ∀ name, Present unmet met name ↔ index.Known name) :
    index.RunsTo (met.map nameOf, pending) (reach unmet met pending) := by
  induction unmet, met, pending using reach.induct with
  | case1 unmet met =>
    rw [reach]
    exact ReflTransGen.refl
  | case2 unmet met name pending entry he ih =>
    rw [reach_unmet he]
    have hlater := ih (hown.without name) (h.meet hown he) fun other => (present_meet hown he other).trans (hall other)
    rw [List.map_append, List.map_singleton, hown name entry he] at hlater
    exact hlater.head (.meet (h.not_met he) (h.unmetOf name entry he))
  | case3 unmet met name pending hn hm ih =>
    have hmet : ∃ entry ∈ met, nameOf entry = name := by simpa using hm
    rw [reach_met hn hmet]
    have hpassed : name ∈ met.map nameOf := List.mem_map.2 hmet
    exact (ih hown (h.pass hpassed) hall).head (.pass hpassed)
  | case4 unmet met name pending hn hm =>
    have hnew : ¬ ∃ entry ∈ met, nameOf entry = name := by simpa using hm
    have hreach : reach unmet met (name :: pending) = .error (.unknownFragment name) := by
      rw [reach]
      split
      · rename_i entry he
        rw [hn] at he
        cases he
      · exact if_neg hm
    rw [hreach]
    refine ⟨met.map nameOf, name, pending, ReflTransGen.refl, fun hmet => hnew (List.mem_map.1 hmet), fun hk => ?_, rfl⟩
    rcases (hall name).2 hk with ⟨entry, he⟩ | hmet
    · rw [hn] at he
      cases he
    · exact hnew hmet

theorem run_of_closure (hown : UnderOwnNames index.entries.entries) (selections : SelectionSet) :
    index.RunsTo ([], selections.spreads) (index.closure selections) :=
  run_of_reach hown covers_start fun _ => present_iff_known

/-! ## The recursive walk -/

/-- a recursive walk over names, given those that were met before: a name that was met is passed, and a fragment that is met
for the first time comes before all that its own spreads lead to; gives the names that are met for the first time, in order -/
inductive Preorder (index : FragmentIndex) : List String → List String → List String → Prop where
  | nil {met : List String} : Preorder index met [] []
  | again {met rest order : List String} {name : String} (hm : name ∈ met) (hr : Preorder index met rest order) :
      Preorder index met (name :: rest) order
  | first {met rest inner order : List String} {name : String} {entry : IndexedFragment} (hn : name ∉ met)
      (he : index.get? name = some entry) (hi : Preorder index (met ++ [name]) entry.spreads inner)
      (hr : Preorder index (met ++ name :: inner) rest order) : Preorder index met (name :: rest) (name :: inner ++ order)

/-- **The recursive walk has one order.** -/
theorem Preorder.unique {met names order other : List String} (h : index.Preorder met names order)
    (h' : index.Preorder met names other) : order = other := by
  induction h generalizing other with
  | nil =>
    cases h'
    rfl
  | again hm _ ih =>
    cases h' with
    | again _ hr' => exact ih hr'
    | first hn' _ _ _ => exact absurd hm hn'
  | first hn he _ _ ihi ihr =>
    cases h' with
    | again hm' _ => exact absurd hm' hn
    | first _ he' hi' hr' =>
      cases he.symm.trans he'
      obtain rfl := ihi hi'
      rw [ihr hr']

/-- a walk over some names and then others is a walk over the first and, after it, one over the others -/
theorem Preorder.split {met more order : List String} (names : List String)
    (h : index.Preorder met (names ++ more) order) :
    ∃ before after, order = before ++ after ∧ index.Preorder met names before ∧
      index.Preorder (met ++ before) more after := by
  induction names generalizing met order with
  | nil => exact ⟨[], order, rfl, .nil, by simpa using h⟩
  | cons name names ih =>
    cases h with
    | again hm hr =>
      obtain ⟨before, after, rfl, hbefore, hafter⟩ := ih hr
      exact ⟨before, after, rfl, .again hm hbefore, hafter⟩
    | @first _ _ inner _ _ entry hn he hi hr =>
      obtain ⟨before, after, rfl, hbefore, hafter⟩ := ih hr
      refine ⟨name :: inner ++ before, after, by simp, .first hn he hi hbefore, ?_⟩
      simpa using hafter

/-- **Rounds meet the fragments in the order of the recursive walk.** -/
theorem preorder_of_run {state : List String × List String} {all : List String}
    (h : ReflTransGen index.Round state (all, [])) :
    ∃ order, all = state.1 ++ order ∧ index.Preorder state.1 state.2 order := by
  induction h using ReflTransGen.head_induction_on with
  | refl => exact ⟨[], by simp, .nil⟩
  | head hround _ ih =>
    obtain ⟨order, hall, hwalk⟩ := ih
    cases hround with
    | pass hm => exact ⟨order, hall, .again hm hwalk⟩
    | @meet met pending name entry hn he =>
      -- the spreads of the fragment are walked first, then what was pending behind its name
      obtain ⟨inner, after, rfl, hinner, hafter⟩ := hwalk.split entry.spreads
      refine ⟨name :: inner ++ after, by simpa using hall, .first hn he hinner ?_⟩
      simpa using hafter

/-! ## The closure -/

/-- a selection set has its fragments found exactly when all names that it reaches are known -/
theorem succeeds_closure_iff (hown : UnderOwnNames index.entries.entries) :
    Succeeds (index.closure selections) ↔ ∀ name, index.Reaches selections name → index.Known name := by
  have hrun := run_of_closure hown selections
  constructor
  · rintro ⟨found, hc⟩ name hreached
    obtain ⟨rest, hcovers⟩ := covers_of_reach hown covers_start hc
    obtain ⟨entry, hentry, rfl⟩ := List.mem_map.1 (hcovers.met_of_reaches hreached)
    exact known_of_get? (hcovers.metOf entry hentry).1
  · intro hall
    cases hc : index.closure selections with
    | ok found => exact succeeds_ok found
    | error error =>
      rw [hc] at hrun
      obtain ⟨met, name, pending, hstate, -, hunknown, -⟩ := hrun
      exact absurd (hall name (reaches_of_run hstate name (by simp))) hunknown

variable {sources : List LocatedDocument} {external : List Fragment}

/-- **The fragments of a selection set stand in the order of their first use.** On a built index the rounds of the work list
end. They stop at the first pending name that is that of no fragment, and there is one exactly when the selections reach a name
of no fragment. Otherwise the fragments that are found are those that the selections reach, each once, in the only order in
which a recursive walk over the spreads of the selections meets them. -/
theorem closure_first_use (h : ofDocuments sources external = .ok index) (selections : SelectionSet) :
    Acc (fun next state => index.Round state next) ([], selections.spreads) ∧
    ((∃ name, index.closure selections = .error (.unknownFragment name)) ↔
      ∃ name, index.Reaches selections name ∧ ¬ index.Known name) ∧
    (∀ error, index.closure selections = .error error →
      ∃ met name pending, ReflTransGen index.Round ([], selections.spreads) (met, name :: pending) ∧ name ∉ met ∧
        ¬ index.Known name ∧ error = .unknownFragment name) ∧
    ∀ found, index.closure selections = .ok found →
      ReflTransGen index.Round ([], selections.spreads) (found.map nameOf, []) ∧ (found.map nameOf).Nodup ∧
        (∀ name, name ∈ found.map nameOf ↔ index.Reaches selections name) ∧
        (∀ entry ∈ found, index.get? (nameOf entry) = some entry) ∧
        ∀ order, index.Preorder [] selections.spreads order ↔ order = found.map nameOf := by
  have hown := underOwnNames_of_ofDocuments h
  have hrun := run_of_closure hown selections
  have hstops : ∀ error, index.closure selections = .error error →
      ∃ met name pending, ReflTransGen index.Round ([], selections.spreads) (met, name :: pending) ∧ name ∉ met ∧
        ¬ index.Known name ∧ error = .unknownFragment name := by
    intro error he
    rwa [he] at hrun
  refine ⟨(rounds_end index).apply _, ⟨?_, ?_⟩, hstops, ?_⟩
  · rintro ⟨_, he⟩
    obtain ⟨met, name, pending, hstate, -, hunknown, -⟩ := hstops _ he
    exact ⟨name, reaches_of_run hstate name (by simp), hunknown⟩
  · rintro ⟨name, hreached, hunknown⟩
    cases hc : index.closure selections with
    | ok found => exact absurd ((succeeds_closure_iff hown).1 ⟨found, hc⟩ name hreached) hunknown
    | error error =>
      obtain ⟨_, stop, _, -, -, -, rfl⟩ := hstops error hc
      exact ⟨stop, rfl⟩
  · intro found hc
    rw [hc] at hrun
    obtain ⟨hnodup, hreached, hentries⟩ := mem_closure_iff h hc
    obtain ⟨order, horder, hwalk⟩ := preorder_of_run hrun
    rw [List.nil_append] at horder
    subst horder
    exact ⟨hrun, hnodup, hreached, hentries, fun order => ⟨fun hother => hother.unique hwalk, fun he => he ▸ hwalk⟩⟩

/-- two fragments that share one -/
def sharingFragments : List Fragment :=
  [⟨"Bits", "User", [], [.field none "id" [] [] []]⟩, ⟨"More", "User", [], [.spread "Bits" [], .field none "name" [] [] []]⟩,
    ⟨"Rest", "User", [], [.field none "friends" [] [] [.spread "Bits" []]]⟩]

/-- their index -/
def sharingIndex : FragmentIndex :=
  ⟨Table.ofList (sharingFragments.map fun fragment => (fragment.name, ⟨fragment, "<external>", true⟩))⟩

/-- the one that is defined last is spread first -/
def sharingSelections : SelectionSet :=
  [.field none "me" [] [] [.spread "Rest" [], .spread "More" [], .spread "Bits" []]]

theorem closure_first_use_sharing :
    ofDocuments [] sharingFragments = .ok sharingIndex ∧
      ∃ found, sharingIndex.closure sharingSelections = .ok found ∧ found.map nameOf = ["Rest", "Bits", "More"] ∧
        ∀ order, sharingIndex.Preorder [] sharingSelections.spreads order ↔ order = ["Rest", "Bits", "More"] := by
  have hindex : ofDocuments [] sharingFragments = .ok sharingIndex := rfl
  have hnames : (sharingIndex.closure sharingSelections).map (·.map nameOf) = .ok ["Rest", "Bits", "More"] := by cbv
  obtain ⟨found, hfound, hmapped⟩ := map_eq_ok_iff.1 hnames
  obtain ⟨-, -, -, hfinds⟩ := closure_first_use hindex sharingSelections
  obtain ⟨-, -, -, -, horder⟩ := hfinds found hfound
  rw [hmapped] at horder
  exact ⟨hindex, found, hfound, hmapped, horder⟩

end FragmentIndex

end GraphGen
