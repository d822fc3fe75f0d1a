/-
Texts that are cut.

- `cutAll_eq_splitOn`: cutting at every separator is what lists have for it.
- `exists_splitOn_append_cons`: what is cut behind a character that is no separator.
- `cutOnce_some`, `cutOnce_none`: a cut at a piece gives the text back, and there is none when the piece does not occur.
- `cutOnce_append`: what stands before the first occurrence can be left out.
- `splitOn_intercalate`: pieces that are put together with the separator are cut where they are and where it occurs in them.
-/
import GraphGen.Text.Pieces
import Mathlib.Data.List.Basic
import Mathlib.Data.List.Infix

namespace GraphGen.Text

/-! ## Cutting at every separator -/

theorem cutAll_eq_splitOn (sep : Char) (cs : List Char) : cutAll sep cs = cs.splitOn sep := by
  induction cs with
  | nil => rfl
  | cons c cs ih =>
    rw [cutAll, ih, List.splitOn_cons_eq_if_modifyHead]
    by_cases hc : c = sep
    · rw [if_pos hc, if_pos (beq_iff_eq.2 hc)]
    · rw [if_neg hc, if_neg (mt beq_iff_eq.1 hc)]
      obtain ⟨first, rest, hcs⟩ := List.exists_cons_of_ne_nil (List.splitOn_ne_nil sep cs)
      rw [hcs, List.modifyHead_cons]

/-- no piece has the separator -/
theorem not_mem_of_mem_splitOn {sep : Char} {cs piece : List Char} (h : piece ∈ cs.splitOn sep) : sep ∉ piece := by
  induction cs generalizing piece with
  | nil =>
    obtain rfl := List.mem_singleton.1 h
    exact List.not_mem_nil
  | cons c cs ih =>
    rw [List.splitOn_cons_eq_if_modifyHead] at h
    split at h
    · rcases List.mem_cons.1 h with rfl | h
      · exact List.not_mem_nil
      · exact ih h
    · rename_i hc
      obtain ⟨first, rest, hcs⟩ := List.exists_cons_of_ne_nil (List.splitOn_ne_nil sep cs)
      rw [hcs, List.modifyHead_cons] at h
      rw [hcs] at ih
      rcases List.mem_cons.1 h with rfl | h
      · rw [List.mem_cons, not_or]
        exact ⟨fun he => hc (beq_iff_eq.2 he.symm), ih List.mem_cons_self⟩
      · exact ih (List.mem_cons_of_mem _ h)

/-- pieces that are put together are cut where they are, and where the separator occurs in them -/
theorem splitOn_intercalate {sep : Char} {pieces : List (List Char)} (h : pieces ≠ []) :
    ([sep].intercalate pieces).splitOn sep = pieces.flatMap (·.splitOn sep) := by
  induction pieces with
  | nil => exact absurd rfl h
  | cons piece pieces ih =>
    by_cases hpieces : pieces = []
    · rw [hpieces, List.intercalate_singleton, List.flatMap_singleton]
    · rw [List.intercalate_cons_of_ne_nil hpieces, List.append_assoc, List.singleton_append, List.splitOn_append_cons_self,
        ih hpieces, List.flatMap_cons]

/-- before another text, the last piece is continued by the first piece of that text -/
theorem exists_splitOn_append_cons {sep c : Char} (hc : c ≠ sep) (front : List Char) {after first : List Char}
    {rest : List (List Char)} (hafter : after.splitOn sep = first :: rest) :
    ∃ pieces start, c ∈ start ∧ (front ++ c :: after).splitOn sep = pieces ++ (start ++ first) :: rest := by
  induction front with
  | nil =>
    refine ⟨[], [c], List.mem_singleton_self c, ?_⟩
    rw [List.nil_append, List.splitOn_cons_eq_if_modifyHead, if_neg (mt beq_iff_eq.1 hc), hafter]
    rfl
  | cons d front ih =>
    obtain ⟨pieces, start, hstart, heq⟩ := ih
    rw [List.cons_append, List.splitOn_cons_eq_if_modifyHead, heq]
    split
    · exact ⟨[] :: pieces, start, hstart, rfl⟩
    · cases pieces with
      | nil => exact ⟨[], d :: start, List.mem_cons_of_mem d hstart, rfl⟩
      | cons piece pieces => exact ⟨(d :: piece) :: pieces, start, hstart, rfl⟩

/-! ## Cutting at the first occurrence -/

variable {piece cs before after : List Char}

/-- a cut gives the text back -/
theorem cutOnce_some (h : cutOnce piece cs = some (before, after)) : cs = before ++ (piece ++ after) := by
  induction cs generalizing before with
  | nil =>
    rw [cutOnce] at h
    split at h
    · rename_i hempty
      cases h
      rw [List.isEmpty_iff.1 hempty, List.append_nil, List.append_nil]
    · cases h
  | cons c cs ih =>
    rw [cutOnce] at h
    split at h
    · rename_i hbegins
      cases h
      obtain ⟨rest, hrest⟩ := List.isPrefixOf_iff_prefix.1 hbegins
      rw [← hrest, List.drop_left, List.nil_append]
    · obtain ⟨⟨front, back⟩, hcut, heq⟩ := Option.map_eq_some_iff.1 h
      cases heq
      rw [ih hcut, List.cons_append]

theorem cutOnce_of_prefix (after : List Char) : cutOnce piece (piece ++ after) = some ([], after) := by
  cases hcs : piece ++ after with
  | nil =>
    obtain ⟨rfl, rfl⟩ := List.append_eq_nil_iff.1 hcs
    rfl
  | cons c cs =>
    rw [cutOnce, if_pos (List.isPrefixOf_iff_prefix.2 ⟨after, hcs⟩), ← hcs, List.drop_left]

/-- what stands before the first occurrence can be left out -/
theorem cutOnce_append {front : List Char} (h : cutOnce piece (front ++ cs) = some (front ++ before, after)) :
    cutOnce piece cs = some (before, after) := by
  induction front with
  | nil => exact h
  | cons c front ih =>
    rw [List.cons_append, cutOnce] at h
    split at h
    · cases h
    · obtain ⟨⟨left, right⟩, hcut, heq⟩ := Option.map_eq_some_iff.1 h
      cases heq
      exact ih hcut

/-- a text without a cut does not have the piece -/
theorem cutOnce_none (h : cutOnce piece cs = none) : ¬ piece <:+: cs := by
  rintro ⟨front, back, rfl⟩
  rw [List.append_assoc] at h
  induction front with
  | nil =>
    rw [List.nil_append, cutOnce_of_prefix] at h
    cases h
  | cons c front ih =>
    rw [List.cons_append, cutOnce] at h
    split at h
    · cases h
    · exact ih (Option.map_eq_none_iff.1 h)

end GraphGen.Text
