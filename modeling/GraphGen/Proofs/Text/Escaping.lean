/-
Escaping in template literals.

What has a meaning in a template literal gets a backslash in front: backslashes, backticks, and dollar signs that open a
substitution (`escaped`). The same is done by three replacements, one after the other: what an earlier one puts in gives a later
one nothing to replace (`replace_escaped`).
-/
import GraphGen.Proofs.Text.Replacing

namespace GraphGen

/-- characters with a backslash before each backslash, each backtick, and each dollar sign before an opening brace -/
def escaped : List Char → List Char
  | [] => []
  | c :: rest =>
    if c = '\\' ∨ c = '\x60' ∨ (c = '$' ∧ rest.head? = some '\x7b') then '\\' :: c :: escaped rest
    else c :: escaped rest

/-- characters with a backslash before each backslash and each backtick -/
def marked (cs : List Char) : List Char :=
  cs.flatMap fun c => if c = '\\' ∨ c = '\x60' then ['\\', c] else [c]

theorem marked_cons (c : Char) (cs : List Char) :
    marked (c :: cs) = (if c = '\\' ∨ c = '\x60' then ['\\', c] else [c]) ++ marked cs := rfl

/-- the first two replacements are made character by character -/
theorem replaceFrom_marked (cs : List Char) :
    Text.replaceFrom ['\x60'] ['\\', '\x60'] 0 (Text.replaceFrom ['\\'] ['\\', '\\'] 0 cs) = marked cs := by
  rw [Text.replaceFrom_single, Text.replaceFrom_single, List.flatMap_assoc]
  refine List.flatMap_congr fun c _ => ?_
  by_cases hescape : c = '\\'
  · simp [hescape]
  · by_cases hclose : c = '\x60' <;> simp [hescape, hclose]

theorem head?_marked (cs : List Char) : (marked cs).head? = some '\x7b' ↔ cs.head? = some '\x7b' := by
  cases cs with
  | nil => rfl
  | cons c cs =>
    rw [marked_cons]
    split
    · rename_i hc
      rcases hc with rfl | rfl <;> simp
    · simp

/-- the third replacement finds the openings of the text, since no mark is a dollar sign or a brace -/
theorem replaceFrom_escaped (cs : List Char) :
    Text.replaceFrom ['$', '\x7b'] ['\\', '$', '\x7b'] 0 (marked cs) = escaped cs := by
  induction cs with
  | nil => rfl
  | cons c cs ih =>
    rw [marked_cons, escaped]
    by_cases hmark : c = '\\' ∨ c = '\x60'
    · have hdollar : c ≠ '$' := by rcases hmark with rfl | rfl <;> decide
      rw [if_pos hmark, if_pos (or_assoc.1 (Or.inl hmark)), List.cons_append, List.singleton_append,
        Text.replaceFrom_pair_cons, if_neg (by simp), Text.replaceFrom_pair_cons, if_neg (by simp [hdollar]), ih]
    · simp only [if_neg hmark, List.singleton_append, Text.replaceFrom_pair_cons, head?_marked]
      by_cases hopen : c = '$' ∧ cs.head? = some '\x7b'
      · obtain ⟨more, rfl⟩ := List.head?_eq_some_iff.1 hopen.2
        have hbrace : marked ('\x7b' :: more) = '\x7b' :: marked more := rfl
        rw [hbrace, Text.replaceFrom_pair_cons, if_neg (by simp)] at ih
        rw [if_pos hopen, if_pos (Or.inr (Or.inr hopen)), hbrace, List.tail_cons, ← ih, hopen.1]
        rfl
      · rw [if_neg hopen, if_neg (by tauto), ih]

/-- **The replacements together escape a text once.** -/
theorem replace_escaped (text : String) :
    (Text.replace "$\x7b" "\\$\x7b" (Text.replace "`" "\\`" (Text.replace "\\" "\\\\" text))).toList = escaped text.toList := by
  have hpieces : "\\".toList = ['\\'] ∧ "\\\\".toList = ['\\', '\\'] ∧ "`".toList = ['\x60'] ∧
      "\\`".toList = ['\\', '\x60'] ∧ "$\x7b".toList = ['$', '\x7b'] ∧ "\\$\x7b".toList = ['\\', '$', '\x7b'] := by
    decide
  obtain ⟨hescape, hescaped, hclose, hclosed, hopen, hopened⟩ := hpieces
  simp only [Text.replace, String.toList_ofList, hescape, hescaped, hclose, hclosed, hopen, hopened, replaceFrom_marked,
    replaceFrom_escaped]

end GraphGen
