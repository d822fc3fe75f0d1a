/-
How the characters of a quoted text are written.

- `Written`: a character has a short escape, stands as it is, or is written by its code point.
- `not_quote_of_mem_escape`: a quote is written by nothing but a quote.
- `flatMap_eq_self_iff`: a text in which no character gets shorter is the same only when each of its characters is.
-/
import Mathlib.Data.List.Basic
import GraphGen.Text.Quoted

namespace GraphGen.Text

/-- the characters that have a short escape, each with its mark -/
def shortEscapes : List (Char × Char) :=
  [('"', '"'), ('\\', '\\'), ('\n', 'n'), ('\r', 'r'), ('\t', 't'), ('\x00', '0')]

/-- how a character is written between quotes -/
inductive Written (c : Char) : Prop where
  | short (mark : Char) (known : (c, mark) ∈ shortEscapes) (written : escape c = ['\\', mark])
  | plain (printable : isPrintable c = true) (quote : c ≠ '"') (backslash : c ≠ '\\') (written : escape c = [c])
  | code (hidden : isPrintable c = false) (other : c ∉ shortEscapes.map Prod.fst)
      (written : escape c = '\\' :: 'u' :: '\x7b' :: (hexDigits c.toNat ++ ['\x7d']))

theorem written (c : Char) : Written c := by
  by_cases hshort : c ∈ shortEscapes.map Prod.fst
  · obtain ⟨⟨_, mark⟩, hknown, rfl⟩ := List.mem_map.1 hshort
    have hwritten : ∀ entry ∈ shortEscapes, escape entry.1 = ['\\', entry.2] := by decide
    exact .short mark hknown (hwritten _ hknown)
  · have hescape : escape c = if isPrintable c then [c] else ['\\', 'u', '\x7b'] ++ hexDigits c.toNat ++ ['\x7d'] := by
      unfold escape
      split <;> first | rfl | exact absurd (by decide) hshort
    cases hc : isPrintable c with
    | true =>
      refine .plain hc ?_ ?_ (by rw [hescape, hc]; rfl)
      · rintro rfl
        exact hshort (by decide)
      · rintro rfl
        exact hshort (by decide)
    | false => exact .code hc hshort (by rw [hescape, hc]; rfl)

theorem mem_hexDigits {c : Char} {n : Nat} (h : c ∈ hexDigits n) : ∃ digit, c = Nat.digitChar digit := by
  unfold hexDigits at h
  induction n using Nat.strongRecOn with
  | ind n ih =>
    rw [Nat.toDigits_eq_if (by decide)] at h
    split at h
    · exact ⟨n, List.mem_singleton.1 h⟩
    · rename_i hlarge
      rcases List.mem_append.1 h with h | h
      · exact ih (n / 16) (Nat.div_lt_self (by omega) (by decide)) h
      · exact ⟨n % 16, List.mem_singleton.1 h⟩

/-- a quote is written by nothing but a quote -/
theorem not_quote_of_mem_escape {c d : Char} (hc : c ≠ '"') (hd : d ∈ escape c) : d ≠ '"' := by
  rcases written c with ⟨mark, hknown, hw⟩ | ⟨-, -, -, hw⟩ | ⟨-, -, hw⟩ <;> rw [hw] at hd
  · have hmarks : ∀ entry ∈ shortEscapes, entry.2 = '"' → entry.1 = '"' := by decide
    rcases List.mem_cons.1 hd with rfl | hd
    · decide
    · rw [List.mem_singleton.1 hd]
      exact fun hq => hc (hmarks _ hknown hq)
  · rw [List.mem_singleton.1 hd]
    exact hc
  · simp only [List.mem_cons, List.mem_append, List.not_mem_nil, or_false] at hd
    rcases hd with rfl | rfl | rfl | hd | rfl
    · decide
    · decide
    · decide
    · obtain ⟨digit, rfl⟩ := mem_hexDigits hd
      exact Nat.digitChar_ne '"' (by decide)
    · decide

/-- no written text begins with a quote -/
theorem head?_flatMap_escape (cs : List Char) : (cs.flatMap escape).head? ≠ some '"' := by
  cases cs with
  | nil => simp
  | cons c cs =>
    rw [List.flatMap_cons]
    rcases written c with ⟨mark, -, hw⟩ | ⟨-, hq, -, hw⟩ | ⟨-, -, hw⟩ <;> simp [hw]
    exact hq

theorem length_le_flatMap {f : Char → List Char} (hf : ∀ c, f c ≠ []) (cs : List Char) :
    cs.length ≤ (cs.flatMap f).length := by
  induction cs with
  | nil => exact Nat.le_refl 0
  | cons c cs ih =>
    have hc := List.length_pos_iff.2 (hf c)
    rw [List.flatMap_cons, List.length_append, List.length_cons]
    omega

/-- **A text stays the same only when each of its characters does,** if none gets shorter. -/
theorem flatMap_eq_self_iff {f : Char → List Char} (hf : ∀ c, f c = [c] ∨ 2 ≤ (f c).length) (cs : List Char) :
    cs.flatMap f = cs ↔ ∀ c ∈ cs, f c = [c] := by
  have hne : ∀ c, f c ≠ [] := by
    intro c hnil
    rcases hf c with h | h
    · rw [hnil] at h
      cases h
    · rw [hnil] at h
      cases h
  induction cs with
  | nil => simp
  | cons c cs ih =>
    rw [List.flatMap_cons, List.forall_mem_cons]
    rcases hf c with hc | hc
    · rw [hc, List.singleton_append, List.cons_inj_right, and_iff_right rfl]
      exact ih
    · refine iff_of_false (fun h => ?_) fun h => ?_
      · have hlength := congrArg List.length h
        have hrest := length_le_flatMap hne cs
        rw [List.length_append, List.length_cons] at hlength
        omega
      · rw [h.1, List.length_singleton] at hc
        omega

end GraphGen.Text
