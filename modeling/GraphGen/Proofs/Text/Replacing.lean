/-
Pieces that are replaced.

A replacement goes over a text from left to right and does not look at what it has put in.
- `replaceFrom_single`: a piece of one character is replaced character by character.
- `replaceFrom_pair_cons`: a piece of two characters is replaced where the first stands before the second.
-/
import Mathlib.Data.List.Basic
import GraphGen.Text.Pieces

namespace GraphGen.Text

/-- **One character is replaced wherever it stands.** -/
theorem replaceFrom_single (c : Char) (new cs : List Char) :
    replaceFrom [c] new 0 cs = cs.flatMap fun d => if d = c then new else [d] := by
  induction cs with
  | nil => rfl
  | cons d cs ih =>
    rw [List.flatMap_cons, ← ih, replaceFrom]
    by_cases hd : d = c
    · simp [hd]
    · simp [hd, Ne.symm hd]

/-- **Two characters are replaced where they stand together,** and the replacement goes on behind them. -/
theorem replaceFrom_pair_cons (a b : Char) (new : List Char) (c : Char) (rest : List Char) :
    replaceFrom [a, b] new 0 (c :: rest) =
      if c = a ∧ rest.head? = some b then new ++ replaceFrom [a, b] new 0 rest.tail
      else c :: replaceFrom [a, b] new 0 rest := by
  have hpiece : [a, b].isPrefixOf (c :: rest) = true ↔ c = a ∧ rest.head? = some b := by
    rw [List.isPrefixOf_cons_cons, Bool.and_eq_true, beq_iff_eq, eq_comm]
    refine and_congr_right fun _ => ?_
    cases rest with
    | nil => simp
    | cons d rest =>
      rw [List.isPrefixOf_cons_cons, List.isPrefixOf_nil_left, Bool.and_true, beq_iff_eq, List.head?_cons, Option.some_inj,
        eq_comm]
  rw [replaceFrom]
  by_cases hc : c = a ∧ rest.head? = some b
  · obtain ⟨more, rfl⟩ := List.head?_eq_some_iff.1 hc.2
    rw [if_pos (hpiece.2 hc), if_pos hc]
    rfl
  · rw [if_neg (mt hpiece.1 hc), if_neg hc]

end GraphGen.Text
