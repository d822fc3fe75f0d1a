/-
Sorting by name.

Sorting keeps the order of what is tied (`filter_mergeSort`), so that items of one name stay in order (`filter_sortByName`), and
definitions of one place, which is a group with a name in it (`filter_place`). Where no two names are the same, nothing is left of
the order before: what is sorted is the same for all orders of the items (`sortByName_eq_of_perm`) and of the definitions
(`sorted_eq_of_perm`).

- `eq_of_filter_key`: sorted lists are the same when the items of each key stand in the same order.
- `mergeSort_filterMap`: definitions may be changed or left out before sorting or after it.
- `sorted_eq`: a document may be sorted on the inside first.
-/
import GraphGen.Targets.SchemaText
import Mathlib.Data.List.Nodup

namespace GraphGen

/-! ## Sorting -/

section Keys

variable {α β : Type} [DecidableEq β] {le : α → α → Bool} {l l' : List α}

/-- lists have the same elements when what has one key is the same in both -/
theorem mem_iff_of_filter_key {key : α → β} (h : ∀ k, l.filter (key · = k) = l'.filter (key · = k)) (a : α) : a ∈ l ↔ a ∈ l' := by
  have hsame : a ∈ l.filter (key · = key a) ↔ a ∈ l'.filter (key · = key a) := by rw [h]
  simpa using hsame

/-- **A stable order is one order:** sorted lists are the same when what has one key stands in the same order in both, where only
what has one key is tied. -/
theorem eq_of_filter_key (key : α → β) (hkey : ∀ a b, le a b = true → le b a = true → key a = key b)
    (hl : l.Pairwise fun a b => le a b = true) (hl' : l'.Pairwise fun a b => le a b = true)
    (h : ∀ k, l.filter (key · = k) = l'.filter (key · = k)) : l = l' := by
  induction l generalizing l' with
  | nil => exact (List.eq_nil_iff_forall_not_mem.2 fun a ha => List.not_mem_nil ((mem_iff_of_filter_key h a).2 ha)).symm
  | cons a rest ih =>
    cases l' with
    | nil => exact absurd ((mem_iff_of_filter_key h a).1 List.mem_cons_self) List.not_mem_nil
    | cons b rest' =>
      obtain ⟨ha, hrest⟩ := List.pairwise_cons.1 hl
      obtain ⟨hb, hrest'⟩ := List.pairwise_cons.1 hl'
      -- the first elements may stand before each other, so that both are the first one of their key
      have hfirst : key a = key b := by
        rcases List.mem_cons.1 ((mem_iff_of_filter_key h b).2 List.mem_cons_self) with rfl | hba
        · rfl
        · rcases List.mem_cons.1 ((mem_iff_of_filter_key h a).1 List.mem_cons_self) with rfl | hab
          · rfl
          · exact hkey a b (ha b hba) (hb a hab)
      have hheads := h (key a)
      rw [List.filter_cons_of_pos (by simp), List.filter_cons_of_pos (by simp [hfirst])] at hheads
      obtain ⟨rfl, -⟩ := List.cons.inj hheads
      refine congrArg (a :: ·) (ih hrest hrest' fun k => ?_)
      have hk := h k
      by_cases hak : key a = k
      · rw [List.filter_cons_of_pos (by simp [hak]), List.filter_cons_of_pos (by simp [hak])] at hk
        exact (List.cons.inj hk).2
      · rwa [List.filter_cons_of_neg (by simp [hak]), List.filter_cons_of_neg (by simp [hak])] at hk

end Keys

section Sorting

variable {α β : Type} {le : α → α → Bool} (htrans : ∀ a b c, le a b = true → le b c = true → le a c = true)
  (htotal : ∀ a b, (le a b || le b a) = true)

include htrans htotal

/-- **Sorting keeps the order of what is tied.** -/
theorem filter_mergeSort {p : α → Bool} (htied : ∀ a b, p a = true → p b = true → le a b = true) (l : List α) :
    (l.mergeSort le).filter p = l.filter p := by
  have hpairwise : (l.filter p).Pairwise fun a b => le a b = true := by
    refine List.pairwise_of_forall_mem_list fun a ha b hb => ?_
    exact htied a b (List.mem_filter.1 ha).2 (List.mem_filter.1 hb).2
  have hkept : (l.filter p).Sublist (l.mergeSort le) :=
    List.sublist_mergeSort htrans htotal hpairwise List.filter_sublist
  have hfiltered : (l.filter p).Sublist ((l.mergeSort le).filter p) := by
    simpa using hkept.filter p
  have hlength : (l.filter p).length = ((l.mergeSort le).filter p).length :=
    ((List.mergeSort_perm l le).filter p).length_eq.symm
  exact (hfiltered.eq_of_length hlength).symm

/-- **What has different keys is sorted in one way,** where only what has one key is tied: the sorted lists are the same as far as
the lists have the same elements. -/
theorem filter_mergeSort_eq_of_perm {key : α → β} (hkey : ∀ a b, le a b = true → le b a = true → key a = key b)
    {l l' : List α} {p : α → Bool} (h : (l.filter p).Perm (l'.filter p)) (hn : (l.map key).Nodup) :
    (l.mergeSort le).filter p = (l'.mergeSort le).filter p := by
  have hleft : ((l.mergeSort le).filter p).Perm (l.filter p) := (List.mergeSort_perm l le).filter p
  have hright : ((l'.mergeSort le).filter p).Perm (l'.filter p) := (List.mergeSort_perm l' le).filter p
  refine (hleft.trans (h.trans hright.symm)).eq_of_pairwise (fun a b ha hb hab hba => ?_)
    ((List.pairwise_mergeSort htrans htotal l).filter p) ((List.pairwise_mergeSort htrans htotal l').filter p)
  have hma : a ∈ l := (List.mem_filter.1 (hleft.mem_iff.1 ha)).1
  have hmb : b ∈ l := (List.mem_filter.1 (h.mem_iff.2 (hright.mem_iff.1 hb))).1
  exact List.inj_on_of_nodup_map hn hma hmb (hkey a b hab hba)

theorem mergeSort_eq_of_perm {key : α → β} (hkey : ∀ a b, le a b = true → le b a = true → key a = key b)
    {l l' : List α} (h : l.Perm l') (hn : (l.map key).Nodup) : l.mergeSort le = l'.mergeSort le := by
  have hsame := filter_mergeSort_eq_of_perm htrans htotal hkey (h.filter fun _ => true) hn
  rwa [List.filter_true, List.filter_true] at hsame

end Sorting

/-! ## Items by name -/

section Items

variable {α : Type} {name : α → String} {items others : List α}

theorem byName_trans (name : α → String) (a b c : α) (hab : decide (name a ≤ name b) = true)
    (hbc : decide (name b ≤ name c) = true) : decide (name a ≤ name c) = true :=
  decide_eq_true (String.le_trans (of_decide_eq_true hab) (of_decide_eq_true hbc))

theorem byName_total (name : α → String) (a b : α) : (decide (name a ≤ name b) || decide (name b ≤ name a)) = true := by
  rw [Bool.or_eq_true, decide_eq_true_iff, decide_eq_true_iff]
  exact String.le_total (name a) (name b)

theorem sortByName_perm (name : α → String) (items : List α) : (sortByName name items).Perm items :=
  List.mergeSort_perm items _

theorem sortByName_pairwise (name : α → String) (items : List α) :
    (sortByName name items).Pairwise fun a b => name a ≤ name b :=
  (List.pairwise_mergeSort (byName_trans name) (byName_total name) items).imp of_decide_eq_true

/-- items of one name keep their order -/
theorem filter_sortByName (name : α → String) (items : List α) (key : String) :
    (sortByName name items).filter (name · = key) = items.filter (name · = key) := by
  refine filter_mergeSort (byName_trans name) (byName_total name) (fun a b ha hb => ?_) items
  rw [of_decide_eq_true ha, of_decide_eq_true hb]
  exact decide_eq_true (String.le_refl key)

/-- items with other parts but the same names are sorted alike -/
theorem sortByName_map {β : Type} {name' : β → String} {f : β → α} (hname : ∀ b, name (f b) = name' b) (items : List β) :
    sortByName name (items.map f) = (sortByName name' items).map f := by
  have hsame : ∀ a ∈ items, ∀ b ∈ items, decide (name' a ≤ name' b) = decide (name (f a) ≤ name (f b)) := by
    intro a _ b _
    rw [hname a, hname b]
  exact (List.map_mergeSort hsame).symm

/-- **Items of different names are sorted in one way.** -/
theorem sortByName_eq_of_perm (h : items.Perm others) (hn : (items.map name).Nodup) :
    sortByName name items = sortByName name others := by
  refine mergeSort_eq_of_perm (byName_trans name) (byName_total name) (fun a b hab hba => ?_) h hn
  exact String.le_antisymm (of_decide_eq_true hab) (of_decide_eq_true hba)

end Items

/-! ## Definitions by group and name -/

namespace SchemaDefinition

/-- the group of a definition and its name in it -/
def place (d : SchemaDefinition) : Nat × String :=
  (d.group, d.sortName)

theorem before_iff {a b : SchemaDefinition} :
    a.before b = true ↔ a.group < b.group ∨ a.group = b.group ∧ a.sortName ≤ b.sortName := by
  simp [before]

theorem before_trans (a b c : SchemaDefinition) (hab : a.before b = true) (hbc : b.before c = true) :
    a.before c = true := by
  rw [before_iff] at hab hbc ⊢
  rcases hab with hab | ⟨hab, hnab⟩
  · rcases hbc with hbc | ⟨hbc, -⟩
    · exact .inl (by omega)
    · exact .inl (by omega)
  · rcases hbc with hbc | ⟨hbc, hnbc⟩
    · exact .inl (by omega)
    · exact .inr ⟨hab.trans hbc, String.le_trans hnab hnbc⟩

theorem before_total (a b : SchemaDefinition) : (a.before b || b.before a) = true := by
  rw [Bool.or_eq_true, before_iff, before_iff]
  rcases Nat.lt_trichotomy a.group b.group with h | h | h
  · exact .inl (.inl h)
  · rcases String.le_total a.sortName b.sortName with hn | hn
    · exact .inl (.inr ⟨h, hn⟩)
    · exact .inr (.inr ⟨h.symm, hn⟩)
  · exact .inr (.inl h)

/-- definitions that may stand before each other are at one place -/
theorem place_eq_of_before {a b : SchemaDefinition} (hab : a.before b = true) (hba : b.before a = true) :
    a.place = b.place := by
  rw [before_iff] at hab hba
  have hgroup : a.group = b.group := by omega
  have hname : a.sortName = b.sortName :=
    String.le_antisymm ((hab.resolve_left (by omega)).2) ((hba.resolve_left (by omega)).2)
  rw [place, place, hgroup, hname]

theorem before_of_place {a b : SchemaDefinition} (h : a.place = b.place) : a.before b = true := by
  obtain ⟨hgroup, hname⟩ := Prod.mk.inj h
  exact before_iff.2 (.inr ⟨hgroup, hname ▸ String.le_refl _⟩)

/-- sorting on the inside keeps the place -/
theorem place_sorted (d : SchemaDefinition) : d.sorted.place = d.place := by
  cases d <;> rfl

end SchemaDefinition

namespace SchemaDocument

variable {document other : SchemaDocument}

/-- definitions at one place keep their order -/
theorem filter_place (document : SchemaDocument) (place : Nat × String) :
    (document.mergeSort SchemaDefinition.before).filter (·.place = place) = document.filter (·.place = place) := by
  refine filter_mergeSort SchemaDefinition.before_trans SchemaDefinition.before_total (fun a b ha hb => ?_) document
  exact SchemaDefinition.before_of_place ((of_decide_eq_true ha).trans (of_decide_eq_true hb).symm)

/-- **Definitions may be changed or left out before sorting or after it,** where the others keep their places. -/
theorem mergeSort_filterMap {f : SchemaDefinition → Option SchemaDefinition}
    (hf : ∀ d d', f d = some d' → d'.place = d.place) (document : SchemaDocument) :
    (document.filterMap f).mergeSort SchemaDefinition.before =
      (document.mergeSort SchemaDefinition.before).filterMap f := by
  have hplaces : ∀ (place : Nat × String) (l : SchemaDocument),
      (l.filterMap f).filter (·.place = place) = (l.filter (·.place = place)).filterMap f := by
    intro place l
    rw [List.filter_filterMap, List.filterMap_filter]
    refine List.filterMap_congr fun d _ => ?_
    cases hd : f d with
    | none => simp
    | some d' => simp [Option.filter, hf d d' hd]
  have hordered := List.pairwise_mergeSort SchemaDefinition.before_trans SchemaDefinition.before_total
  refine eq_of_filter_key SchemaDefinition.place (fun _ _ => SchemaDefinition.place_eq_of_before)
    (hordered _) ?_ fun place => ?_
  · refine List.pairwise_filterMap.2 ((hordered document).imp fun {a b} hab a' ha b' hb => ?_)
    obtain ⟨hgroup, hname⟩ := Prod.mk.inj (hf a a' ha)
    obtain ⟨hgroup', hname'⟩ := Prod.mk.inj (hf b b' hb)
    rw [SchemaDefinition.before_iff] at hab ⊢
    rwa [hgroup, hgroup', hname, hname']
  · rw [filter_place, hplaces, hplaces, filter_place]

/-- a document may be sorted on the inside first -/
theorem sorted_eq (document : SchemaDocument) :
    document.sorted = (document.map SchemaDefinition.sorted).mergeSort SchemaDefinition.before := by
  have hsame : ∀ a b : SchemaDefinition, a.before b = a.sorted.before b.sorted := by
    intro a b
    have ha := Prod.mk.inj (SchemaDefinition.place_sorted a)
    have hb := Prod.mk.inj (SchemaDefinition.place_sorted b)
    unfold SchemaDefinition.before
    rw [ha.1, ha.2, hb.1, hb.2]
  exact List.map_mergeSort fun a _ b _ => hsame a b

/-- **Definitions of different places are sorted in one way,** as far as the documents have the same definitions. -/
theorem filter_sorted_eq_of_perm {p : SchemaDefinition → Bool}
    (h : ((document.map SchemaDefinition.sorted).filter p).Perm ((other.map SchemaDefinition.sorted).filter p))
    (hn : (document.map SchemaDefinition.place).Nodup) : document.sorted.filter p = other.sorted.filter p := by
  have hplaces : (document.map SchemaDefinition.sorted).map SchemaDefinition.place =
      document.map SchemaDefinition.place := by
    rw [List.map_map]
    exact List.map_congr_left fun d _ => d.place_sorted
  rw [← hplaces] at hn
  rw [sorted_eq, sorted_eq]
  exact filter_mergeSort_eq_of_perm SchemaDefinition.before_trans SchemaDefinition.before_total
    (fun _ _ => SchemaDefinition.place_eq_of_before) h hn

theorem sorted_eq_of_perm (h : (document.map SchemaDefinition.sorted).Perm (other.map SchemaDefinition.sorted))
    (hn : (document.map SchemaDefinition.place).Nodup) : document.sorted = other.sorted := by
  have hsame := filter_sorted_eq_of_perm (h.filter fun _ => true) hn
  rwa [List.filter_true, List.filter_true] at hsame

end SchemaDocument

end GraphGen
