/-
How often a piece occurs in a text.

A character that the piece does not have parts a text in two: what occurs in the whole occurs before it or behind it
(`occurrences_append_cons`). So blank characters at the ends of a text, and cuts at its line ends, make no difference to a piece
without blank characters.
-/
import GraphGen.Text.Blank
import Mathlib.Algebra.BigOperators.Group.List.Basic
import Mathlib.Algebra.GroupWithZero.Nat
import Mathlib.Data.List.Basic
import Mathlib.Data.List.TakeWhile

namespace GraphGen.Text

/-- how often the nonempty piece `piece` occurs -/
def occurrences (piece : List Char) : List Char → Nat
  | [] => 0
  | c :: rest => (if piece.isPrefixOf (c :: rest) then 1 else 0) + occurrences piece rest

variable {piece : List Char}

/-- what stands behind a text occurs in the whole -/
theorem occurrences_le_append (before after : List Char) : occurrences piece after ≤ occurrences piece (before ++ after) := by
  induction before with
  | nil => exact Nat.le_refl _
  | cons c before ih => exact Nat.le_trans ih (Nat.le_add_left _ _)

/-- a piece begins before a character that it does not have, and ends before it -/
theorem isPrefixOf_append_cons {c : Char} (h : c ∉ piece) (before after : List Char) :
    piece.isPrefixOf (before ++ c :: after) = piece.isPrefixOf before := by
  induction piece generalizing before with
  | nil => simp
  | cons d piece ih =>
    obtain ⟨hd, hpiece⟩ := not_or.1 (mt List.mem_cons.2 h)
    cases before with
    | nil => simp [List.isPrefixOf, Ne.symm hd]
    | cons e before => rw [List.cons_append, List.isPrefixOf, List.isPrefixOf, ih hpiece]

theorem occurrences_cons_of_not_mem {c : Char} (hne : piece ≠ []) (h : c ∉ piece) (after : List Char) :
    occurrences piece (c :: after) = occurrences piece after := by
  have hnot : piece.isPrefixOf (c :: after) = false := by
    rw [← List.nil_append (c :: after), isPrefixOf_append_cons h]
    cases piece with
    | nil => exact absurd rfl hne
    | cons d piece => rfl
  rw [occurrences, hnot, if_neg Bool.false_ne_true, Nat.zero_add]

/-- **A character that the piece does not have parts a text in two.** -/
theorem occurrences_append_cons {c : Char} (hne : piece ≠ []) (h : c ∉ piece) (before after : List Char) :
    occurrences piece (before ++ c :: after) = occurrences piece before + occurrences piece after := by
  induction before with
  | nil => rw [List.nil_append, occurrences_cons_of_not_mem hne h, occurrences, Nat.zero_add]
  | cons d before ih =>
    rw [List.cons_append, occurrences, ih, occurrences, ← List.cons_append, isPrefixOf_append_cons h, Nat.add_assoc]

theorem occurrences_append_of_forall_not_mem {after : List Char} (hne : piece ≠ []) (h : ∀ c ∈ after, c ∉ piece)
    (before : List Char) : occurrences piece (before ++ after) = occurrences piece before := by
  induction after generalizing before with
  | nil => rw [List.append_nil]
  | cons c after ih =>
    obtain ⟨hc, hafter⟩ := List.forall_mem_cons.1 h
    rw [occurrences_append_cons hne hc, ← List.nil_append after, ih hafter, occurrences, Nat.add_zero]

theorem occurrences_append_left_of_forall_not_mem {before : List Char} (hne : piece ≠ []) (h : ∀ c ∈ before, c ∉ piece)
    (after : List Char) : occurrences piece (before ++ after) = occurrences piece after := by
  induction before with
  | nil => rfl
  | cons c before ih =>
    obtain ⟨hc, hbefore⟩ := List.forall_mem_cons.1 h
    rw [List.cons_append, occurrences_cons_of_not_mem hne hc, ih hbefore]

/-- a character occurs where it stands -/
theorem occurrences_singleton_pos {c : Char} {cs : List Char} (h : c ∈ cs) : 0 < occurrences [c] cs := by
  obtain ⟨before, after, rfl⟩ := List.append_of_mem h
  refine Nat.lt_of_lt_of_le ?_ (occurrences_le_append before (c :: after))
  rw [occurrences, if_pos (by simp [List.isPrefixOf])]
  exact Nat.lt_of_lt_of_le Nat.zero_lt_one (Nat.le_add_right 1 _)

/-! ## Blank characters and lines -/

section Blank

theorem not_mem_of_isBlank (hblank : ∀ c ∈ piece, isBlank c = false) {c : Char} (h : isBlank c = true) : c ∉ piece :=
  fun hc => Bool.false_ne_true ((hblank c hc).symm.trans h)

variable (hne : piece ≠ []) (hblank : ∀ c ∈ piece, isBlank c = false)

include hne hblank

theorem occurrences_dropBlank (cs : List Char) : occurrences piece (dropBlank cs) = occurrences piece cs := by
  induction cs with
  | nil => rfl
  | cons c cs ih =>
    unfold dropBlank at ih ⊢
    rw [List.dropWhile_cons]
    split
    · rename_i hc
      rw [ih, occurrences_cons_of_not_mem hne (not_mem_of_isBlank hblank hc)]
    · rfl

theorem occurrences_dropBlankEnd (cs : List Char) : occurrences piece (dropBlankEnd cs) = occurrences piece cs := by
  have hcut : cs = dropBlankEnd cs ++ (cs.reverse.takeWhile isBlank).reverse := by
    rw [dropBlankEnd, ← List.reverse_append, List.takeWhile_append_dropWhile, List.reverse_reverse]
  have hlast : ∀ c ∈ (cs.reverse.takeWhile isBlank).reverse, c ∉ piece := fun c hc =>
    not_mem_of_isBlank hblank (List.mem_takeWhile_imp (List.mem_reverse.1 hc))
  calc occurrences piece (dropBlankEnd cs)
      = occurrences piece (dropBlankEnd cs ++ (cs.reverse.takeWhile isBlank).reverse) :=
        (occurrences_append_of_forall_not_mem hne hlast _).symm
    _ = occurrences piece cs := by rw [← hcut]

theorem occurrences_dropReturn (line : List Char) : occurrences piece (dropReturn line) = occurrences piece line := by
  unfold dropReturn
  split
  · rename_i hlast
    have hreturn : ∀ c ∈ ['\r'], c ∉ piece := by
      rintro c (_ | ⟨_, ⟨⟩⟩)
      exact not_mem_of_isBlank hblank rfl
    have hsplit : line.dropLast ++ ['\r'] = line := List.dropLast_append_getLast? _ hlast
    rw [← occurrences_append_of_forall_not_mem hne hreturn line.dropLast, hsplit]
  · rfl

/-- **What occurs in a text occurs in its lines.** -/
theorem sum_occurrences_cutLines (line cs : List Char) :
    ((cutLines line cs).map (occurrences piece)).sum = occurrences piece (line.reverse ++ cs) := by
  induction cs generalizing line with
  | nil =>
    rw [cutLines, List.append_nil]
    cases line with
    | nil => rfl
    | cons c line => simp
  | cons c cs ih =>
    rw [cutLines]
    split
    · rename_i hc
      have hfeed : c ∉ piece := not_mem_of_isBlank hblank (hc ▸ rfl)
      rw [List.map_cons, List.sum_cons, ih, occurrences_dropReturn hne hblank, occurrences_append_cons hne hfeed,
        List.reverse_nil, List.nil_append]
    · rw [ih, List.reverse_cons, List.append_assoc]
      rfl

end Blank

end GraphGen.Text
