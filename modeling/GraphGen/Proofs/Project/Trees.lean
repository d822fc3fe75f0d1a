/-
File trees and the places of files.

- `FileTree.WellFormed`: the names in a directory are distinct, and each leads to one entry.
- `mem_files_iff`: the files of a tree are what is found in it, and `nodup_places` that none is enumerated twice.
- `find?_append`: what stands at a place is found step by step.
- `Place.Before`: the order of places, name by name; `pairwise_before_mergeSort` says that distinct places are put in it.
-/
import GraphGen.Project.Load
import Mathlib.Data.List.Nodup

namespace GraphGen

/-! ## Trees -/

/-- a name that leads from a directory to an entry of it, and no further -/
def Path.IsEntryName (name : String) : Prop :=
  Path.stays name = false ∧ name ≠ ".." ∧ '/' ∉ name.toList

namespace FileTree

mutual

/-- whether the names in every directory are distinct names of entries -/
def WellFormed : FileTree → Prop
  | .file _ => True
  | .directory entries => (entryKeys entries).Nodup ∧ WellFormedEntries entries

/-- the same for the entries of a directory, but for being distinct -/
def WellFormedEntries : List (String × FileTree) → Prop
  | [] => True
  | (name, tree) :: rest => Path.IsEntryName name ∧ tree.WellFormed ∧ WellFormedEntries rest

end

variable {entries : List (String × FileTree)} {name : String} {tree : FileTree}

theorem wellFormedEntries_iff :
    WellFormedEntries entries ↔ ∀ entry ∈ entries, Path.IsEntryName entry.1 ∧ entry.2.WellFormed := by
  induction entries with
  | nil => exact iff_of_true trivial fun _ h => absurd h List.not_mem_nil
  | cons entry rest ih =>
    obtain ⟨name, tree⟩ := entry
    rw [WellFormedEntries, ih, List.forall_mem_cons, and_assoc]

theorem mem_of_lookup (h : entries.lookup name = some tree) : (name, tree) ∈ entries := by
  obtain ⟨before, after, rfl, -⟩ := List.lookup_eq_some_iff.mp h
  exact List.mem_append_right _ List.mem_cons_self

theorem lookup_eq_some_iff_mem (h : (entryKeys entries).Nodup) :
    entries.lookup name = some tree ↔ (name, tree) ∈ entries := by
  refine ⟨mem_of_lookup, fun hm => ?_⟩
  induction entries with
  | nil => exact absurd hm List.not_mem_nil
  | cons entry rest ih =>
    obtain ⟨first, held⟩ := entry
    obtain ⟨hfirst, hrest⟩ := List.nodup_cons.mp h
    rw [lookup_cons_ite]
    rcases List.mem_cons.mp hm with heq | hm
    · obtain ⟨rfl, rfl⟩ := Prod.mk.injEq .. ▸ heq
      exact if_pos rfl
    · have hne : name ≠ first := fun he => hfirst (List.mem_map.mpr ⟨_, hm, he⟩)
      rw [if_neg hne]
      exact ih hrest hm

theorem WellFormed.entry (h : (directory entries).WellFormed) (hl : entries.lookup name = some tree) :
    Path.IsEntryName name ∧ tree.WellFormed :=
  wellFormedEntries_iff.mp h.2 _ (mem_of_lookup hl)

/-! ### What stands at a place -/

theorem find?_nil (tree : FileTree) : tree.find? [] = some tree := by
  cases tree <;> rfl

theorem find?_directory_cons (entries : List (String × FileTree)) (name : String) (rest : Place) :
    (directory entries).find? (name :: rest) = (entries.lookup name).bind (find? · rest) := by
  rw [find?]
  cases entries.lookup name <;> rfl

theorem find?_append (tree : FileTree) (place more : Place) :
    tree.find? (place ++ more) = (tree.find? place).bind (find? · more) := by
  induction place generalizing tree with
  | nil => rw [List.nil_append, find?_nil, Option.bind_some]
  | cons name rest ih =>
    cases tree with
    | file text => rfl
    | directory entries =>
      rw [List.cons_append, find?_directory_cons, find?_directory_cons, Option.bind_assoc]
      cases entries.lookup name with
      | none => rfl
      | some entry => exact ih entry

/-- what stands somewhere in a tree is well-formed, and so are the names that lead there -/
theorem WellFormed.find? {tree found : FileTree} {place : Place} (h : tree.WellFormed) (hf : tree.find? place = some found) :
    found.WellFormed ∧ ∀ name ∈ place, Path.IsEntryName name := by
  induction place generalizing tree with
  | nil =>
    rw [find?_nil] at hf
    exact ⟨Option.some.inj hf ▸ h, fun _ hn => absurd hn List.not_mem_nil⟩
  | cons name rest ih =>
    cases tree with
    | file text => cases hf
    | directory entries =>
      rw [find?_directory_cons] at hf
      obtain ⟨entry, hl, hf⟩ := Option.bind_eq_some_iff.mp hf
      obtain ⟨hname, hentry⟩ := h.entry hl
      obtain ⟨hfound, hrest⟩ := ih hentry hf
      exact ⟨hfound, List.forall_mem_cons.mpr ⟨hname, hrest⟩⟩

/-! ### All files -/

theorem filesOf_eq_flatMap (entries : List (String × FileTree)) :
    filesOf entries = entries.flatMap fun entry => (files entry.2).map fun file => (entry.1 :: file.1, file.2) := by
  induction entries with
  | nil => rfl
  | cons entry rest ih =>
    rw [filesOf, ih]
    rfl

theorem mem_filesOf {place : Place} {text : String} :
    (place, text) ∈ filesOf entries ↔
      ∃ name tree rest, (name, tree) ∈ entries ∧ (rest, text) ∈ files tree ∧ place = name :: rest := by
  simp only [filesOf_eq_flatMap, List.mem_flatMap, List.mem_map, Prod.mk.injEq, Prod.exists]
  constructor
  · rintro ⟨name, tree, hm, rest, _, hf, rfl, rfl⟩
    exact ⟨name, tree, rest, hm, hf, rfl⟩
  · rintro ⟨name, tree, rest, hm, hf, rfl⟩
    exact ⟨name, tree, hm, rest, text, hf, rfl, rfl⟩

/-- **The files of a tree are what is found in it.** -/
theorem mem_files_iff (h : tree.WellFormed) {place : Place} {text : String} :
    (place, text) ∈ files tree ↔ tree.find? place = some (.file text) := by
  induction place generalizing tree with
  | nil =>
    rw [find?_nil]
    cases tree with
    | file other => simp [files, eq_comm]
    | directory entries => simp [files, mem_filesOf]
  | cons name rest ih =>
    cases tree with
    | file other => simp [files, FileTree.find?]
    | directory entries =>
      rw [files, mem_filesOf, find?_directory_cons, Option.bind_eq_some_iff]
      constructor
      · rintro ⟨_, entry, _, hm, hf, ⟨⟩⟩
        have hl := (lookup_eq_some_iff_mem h.1).mpr hm
        exact ⟨entry, hl, (ih (h.entry hl).2).mp hf⟩
      · rintro ⟨entry, hl, hf⟩
        exact ⟨name, entry, rest, mem_of_lookup hl, (ih (h.entry hl).2).mpr hf, rfl⟩

mutual

/-- **No place is enumerated twice.** -/
theorem nodup_places : ∀ tree : FileTree, tree.WellFormed → ((files tree).map Prod.fst).Nodup
  | .file _, _ => List.nodup_singleton _
  | .directory entries, h => nodup_placesOf entries h.1 h.2

theorem nodup_placesOf : ∀ entries : List (String × FileTree), (entryKeys entries).Nodup → WellFormedEntries entries →
    ((filesOf entries).map Prod.fst).Nodup
  | [], _, _ => List.nodup_nil
  | (name, tree) :: rest, hn, hw => by
    obtain ⟨hname, hrest⟩ := List.nodup_cons.mp hn
    have htree := nodup_places tree hw.2.1
    rw [filesOf, List.map_append, List.map_map, List.nodup_append]
    refine ⟨?_, nodup_placesOf rest hrest hw.2.2, ?_⟩
    · have hcons : Prod.fst ∘ (fun file : Place × String => (name :: file.1, file.2)) = (name :: ·) ∘ Prod.fst := rfl
      show (List.map (Prod.fst ∘ fun file : Place × String => (name :: file.1, file.2)) (files tree)).Nodup
      rw [hcons, ← List.map_map]
      exact htree.map (List.cons_injective)
    · -- the places below other entries begin with other names
      rintro place hp _ hq rfl
      obtain ⟨_, -, rfl⟩ := List.mem_map.mp hp
      obtain ⟨⟨_, text⟩, hq, rfl⟩ := List.mem_map.mp hq
      obtain ⟨other, entry, _, hm, -, heq⟩ := mem_filesOf.mp hq
      obtain ⟨rfl, -⟩ := List.cons.inj heq
      exact hname (List.mem_map.mpr ⟨_, hm, rfl⟩)

end

end FileTree

/-! ## The order of places -/

namespace Place

/-- whether a place stands before another, name by name -/
def Before (place other : Place) : Prop :=
  notAfter place other = true ∧ place ≠ other

theorem notAfter_total (place other : Place) : (notAfter place other || notAfter other place) = true := by
  induction place generalizing other with
  | nil => rfl
  | cons a as ih =>
    cases other with
    | nil => rfl
    | cons b bs =>
      rw [notAfter, notAfter]
      by_cases h : a = b
      · rw [if_pos h, if_pos h.symm]
        exact ih bs
      · rw [if_neg h, if_neg (Ne.symm h), Bool.or_eq_true, decide_eq_true_iff, decide_eq_true_iff]
        exact String.le_total a b

theorem notAfter_trans (place other last : Place) (h : notAfter place other = true) (h' : notAfter other last = true) :
    notAfter place last = true := by
  induction place generalizing other last with
  | nil => rfl
  | cons a as ih =>
    cases other with
    | nil => cases h
    | cons b bs =>
      cases last with
      | nil => cases h'
      | cons c cs =>
        rw [notAfter] at h h' ⊢
        by_cases hab : a = b
        · subst hab
          rw [if_pos rfl] at h
          by_cases hac : a = c
          · rw [if_pos hac] at h' ⊢
            exact ih bs cs h h'
          · rwa [if_neg hac] at h' ⊢
        · rw [if_neg hab, decide_eq_true_iff] at h
          by_cases hbc : b = c
          · subst hbc
            rw [if_neg hab]
            exact decide_eq_true h
          · rw [if_neg hbc, decide_eq_true_iff] at h'
            have hac : a ≠ c := fun hac => hab (String.le_antisymm h (hac ▸ h'))
            rw [if_neg hac]
            exact decide_eq_true (String.le_trans h h')

end Place

/-- distinct places in order -/
theorem pairwise_before_mergeSort {places : List Place} (h : places.Nodup) :
    (places.mergeSort Place.notAfter).Pairwise Place.Before :=
  (List.pairwise_mergeSort Place.notAfter_trans Place.notAfter_total places).and (List.nodup_mergeSort.mpr h)

end GraphGen
