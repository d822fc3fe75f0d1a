/-
Texts with balanced brackets.

- `closing?`: the brackets of the type syntaxes, each with the one that closes it.
- `Bracketed`: every bracket is closed by its own closing bracket, and what stands outside of all brackets is allowed there.
  With nothing forbidden, that is balance (`Balanced`).
- `Bracketed.append`, `Bracketed.enclosed`, `Balanced.intercalate`: how such texts are put together. What is enclosed in brackets
  may hold whatever is balanced.
-/
namespace GraphGen.Text

/-- the bracket that closes an opening one -/
def closing? : Char → Option Char
  | '(' => some ')'
  | '\x7b' => some '\x7d'
  | '[' => some ']'
  | '<' => some '>'
  | _ => none

/-- all brackets -/
def brackets : List Char :=
  ['(', ')', '\x7b', '\x7d', '[', ']', '<', '>']

/-- whether the character is no bracket -/
def isBare (c : Char) : Bool :=
  !brackets.contains c

/-- every opening bracket is closed by its own closing bracket, and the characters outside of all brackets are allowed -/
inductive Bracketed : (Char → Prop) → List Char → Prop where
  | nil {allowed : Char → Prop} : Bracketed allowed []
  | bare {allowed : Char → Prop} {c : Char} {rest : List Char} (hc : c ∉ brackets) (ha : allowed c)
      (hr : Bracketed allowed rest) : Bracketed allowed (c :: rest)
  | enclosed {allowed : Char → Prop} {opening closing : Char} {inner rest : List Char} (hc : closing? opening = some closing)
      (hi : Bracketed (fun _ => True) inner) (hr : Bracketed allowed rest) :
      Bracketed allowed (opening :: (inner ++ closing :: rest))

/-- every bracket of the text is closed by its own closing bracket -/
def Balanced (text : String) : Prop :=
  Bracketed (fun _ => True) text.toList

namespace Bracketed

variable {allowed : Char → Prop}

theorem append {left right : List Char} (hl : Bracketed allowed left) (hr : Bracketed allowed right) :
    Bracketed allowed (left ++ right) := by
  induction hl with
  | nil => exact hr
  | bare hc ha _ ih => exact .bare hc ha (ih hr)
  | @enclosed _ opening closing inner rest hc hi _ _ ih =>
    have hrest := Bracketed.enclosed hc hi (ih hr)
    rwa [List.cons_append, List.append_assoc, List.cons_append]

theorem mono {other : Char → Prop} {text : List Char} (h : Bracketed allowed text) (hmono : ∀ c, allowed c → other c) :
    Bracketed other text := by
  induction h with
  | nil => exact .nil
  | bare hc ha _ ih => exact .bare hc (hmono _ ha) (ih hmono)
  | enclosed hc hi _ _ ih => exact .enclosed hc hi (ih hmono)

/-- without brackets, it is enough that every character is allowed -/
theorem of_forall {text : List Char} (h : ∀ c ∈ text, c ∉ brackets ∧ allowed c) : Bracketed allowed text := by
  induction text with
  | nil => exact .nil
  | cons c rest ih =>
    obtain ⟨hc, ha⟩ := h c List.mem_cons_self
    exact .bare hc ha (ih fun d hd => h d (List.mem_cons_of_mem _ hd))

end Bracketed

namespace Balanced

/-- a text without brackets -/
theorem of_bare {text : String} (h : text.toList.all isBare = true) : Balanced text := by
  refine Bracketed.of_forall fun c hc => ⟨?_, trivial⟩
  simpa [isBare] using List.all_eq_true.1 h c hc

theorem append {left right : String} (hl : Balanced left) (hr : Balanced right) : Balanced (left ++ right) := by
  rw [Balanced, String.toList_append]
  exact Bracketed.append hl hr

/-- balanced pieces with a balanced text between them -/
theorem intercalate {sep : String} (hs : Balanced sep) {pieces : List String} (h : ∀ piece ∈ pieces, Balanced piece) :
    Balanced (String.intercalate sep pieces) := by
  induction pieces with
  | nil => exact .nil
  | cons piece rest ih =>
    obtain ⟨hp, hrest⟩ := List.forall_mem_cons.1 h
    cases rest with
    | nil => rwa [String.intercalate_singleton]
    | cons next more =>
      rw [String.intercalate_cons_cons]
      exact (hp.append hs).append (ih hrest)

end Balanced

end GraphGen.Text
