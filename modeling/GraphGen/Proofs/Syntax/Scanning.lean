/-
Lexing what was written.

The tokens of a text, without their places, are those of what stands in front and of the rest (`scan`). Whether a word or a number
ends where it was meant to depends on what follows, and an empty string must not be taken for the start of a block string; commas,
colons and closing brackets do for all of them (`Stops`).

- `scan_blank`, `scan_punct`, `scan_name`, `scan_int`: what each piece of a written value gives.
- `scan_string`, `scan_string_eq_none`: a quoted text gives a string token with its characters when each of them has an escape
  that strings know (`ReadsBack`), and otherwise lexing fails.
-/
import GraphGen.Proofs.Syntax.Lexing
import GraphGen.Proofs.Text.Quoting

namespace GraphGen.Token

/-- the tokens of the rest of a text, with some brackets open -/
def scan (opened : Nat) (cs : List Char) : Option (List Token) :=
  (lexFrom .between ⟨1, 1⟩ opened cs).map tokensOf

/-- the text ends a word, a number or a string before it -/
def Stops (cs : List Char) : Prop :=
  ∀ c, cs.head? = some c → c ∈ [',', ':', ']', '\x7d']

theorem stops_nil : Stops [] := nofun

theorem stops_cons {c : Char} (h : c ∈ [',', ':', ']', '\x7d']) (cs : List Char) : Stops (c :: cs) := by
  rintro d ⟨⟩
  exact h

/-! ## One token -/

section Steps

variable {opened : Nat} {c : Char} {token : Token} {more : List Char}

theorem scan_nil (opened : Nat) : scan opened [] = some [] := by
  rw [scan, lexFrom]
  rfl

/-- a walk gives the same tokens from any place -/
theorem scan_from (p : Position) (opened : Nat) (cs : List Char) :
    (lexFrom .between p opened cs).map tokensOf = scan opened cs := by
  have hsame : ∀ p q lexemes, lexFrom .between p opened cs = some lexemes →
      (lexFrom .between q opened cs).map tokensOf = some (tokensOf lexemes) := by
    intro p q lexemes h
    obtain ⟨others, hothers, htokens⟩ := lexFrom_tokens h q (Nat.le_refl opened)
    rw [hothers, Option.map_some, htokens]
  unfold scan
  cases hp : lexFrom .between p opened cs with
  | some lexemes => exact (hsame _ _ _ hp).symm
  | none =>
    cases hq : lexFrom .between ⟨1, 1⟩ opened cs with
    | none => rfl
    | some lexemes => rw [← hp]; exact hsame _ _ _ hq

/-- a walk inside a token comes to its end -/
theorem lexFrom_inside (p : Position) (opened : Nat) (taken more : List Char) :
    lexFrom (if taken.length = 0 then .between else .inside taken.length) p opened (taken ++ more) =
      lexFrom .between p opened more := by
  induction taken with
  | nil => rfl
  | cons c taken ih =>
    rw [← ih, List.length_cons, if_neg (Nat.succ_ne_zero _), List.cons_append, lexFrom]

theorem scan_skip (h : Walk.between.skip? c = some .between) (opened : Nat) (more : List Char) :
    scan opened (c :: more) = scan opened more := by
  obtain ⟨move, hmove⟩ := lexFrom_skip h
  rw [scan, hmove, scan_from]

/-- **A token is taken off the front,** unless too many brackets are open. -/
theorem scan_token (taken : List Char) (hs : Walk.between.skip? c = none)
    (hr : ∃ next, readToken ⟨1, 1⟩ (c :: (taken ++ more)) = some (token, taken.length + 1, next)) (opened : Nat) :
    scan opened (c :: (taken ++ more)) =
      (countOpen? opened token).bind fun opened => (scan opened more).map (token :: ·) := by
  obtain ⟨next, hr⟩ := hr
  rw [scan, lexFrom_token hs, hr]
  cases hopen : countOpen? opened token with
  | none => simp only [hopen]; rfl
  | some count =>
    have hwalk : (if taken.length + 1 ≤ 1 then Walk.between else .inside (taken.length + 1 - 1)) =
        if taken.length = 0 then .between else .inside taken.length := by
      cases taken <;> rfl
    simp only [hopen]
    rw [hwalk, lexFrom_inside, Option.map_map, Option.bind_some, ← scan_from next count more, Option.map_map]
    rfl

theorem scan_eq_none (hs : Walk.between.skip? c = none) (hr : readToken ⟨1, 1⟩ (c :: more) = none) (opened : Nat) :
    scan opened (c :: more) = none := by
  rw [scan, lexFrom_token hs, hr]
  rfl

end Steps

/-! ## Blanks, punctuation and names -/

theorem scan_blank {c : Char} (h : c ∈ [',', ' ']) (opened : Nat) (more : List Char) :
    scan opened (c :: more) = scan opened more := by
  refine scan_skip ?_ opened more
  have hskip : ∀ c ∈ [',', ' '], Walk.between.skip? c = some .between := by
    intro c hc
    simp only [List.mem_cons, List.not_mem_nil, or_false] at hc
    rcases hc with rfl | rfl <;> rfl
  exact hskip c h

theorem scan_punct {c : Char} (h : c ∈ ['[', ']', '\x7b', '\x7d', '$', ':']) (opened : Nat) (more : List Char) :
    scan opened (c :: more) = (countOpen? opened (.punct c)).bind fun opened => (scan opened more).map (.punct c :: ·) := by
  simp only [List.mem_cons, List.not_mem_nil, or_false] at h
  rcases h with rfl | rfl | rfl | rfl | rfl | rfl
  all_goals exact scan_token [] rfl ⟨_, rfl⟩ opened

/-! ## Words -/

/-- the characters that start no name and no number: those that are skipped, dots, quotes, and punctuation -/
def delimiters : List Char :=
  ['\uFEFF', '\r', '\t', '\n', ' ', ',', '#', '.', '"'] ++ "()[]\x7b\x7d!$:=@|&".toList

section Words

variable {c : Char}

theorem skip?_eq_none (h : c ∉ delimiters) : Walk.between.skip? c = none := by
  have hne : ∀ d ∈ delimiters, c ≠ d := fun d hd he => h (he ▸ hd)
  simp [Walk.skip?, hne '\uFEFF' (by decide), hne '\r' (by decide), hne '\t' (by decide), hne '\n' (by decide),
    hne ' ' (by decide), hne ',' (by decide), hne '#' (by decide)]

/-- any other character starts a name or a number, or no token -/
theorem readToken_word (h : c ∉ delimiters) (p : Position) (rest : List Char) :
    readToken p (c :: rest) =
      if isNameStart c then
        let text := (c :: rest).takeWhile isNameRest
        some (name (String.ofList text), text.length, Position.advance p text.length)
      else if c == '-' || c.isDigit then
        let text := (c :: rest).takeWhile fun c => !endsNumber c
        (ofNumber? text).map fun token => (token, text.length, Position.advance p text.length)
      else none := by
  have hpunct : ¬ "()[]\x7b\x7d!$:=@|&".toList.contains c = true :=
    fun hm => h (List.mem_append_right _ (List.contains_iff_mem.1 hm))
  rw [readToken, if_neg hpunct]
  · rintro _ rfl
    exact absurd (by decide) h
  · rintro _ rfl
    exact absurd (by decide) h
  · rintro rfl
    exact absurd (by decide) h

theorem takeWhile_stops {p : Char → Bool} {cs more : List Char} (hcs : ∀ c ∈ cs, p c = true) (hm : Stops more)
    (hp : [',', ':', ']', '\x7d'].any p = false) : (cs ++ more).takeWhile p = cs := by
  rw [List.takeWhile_append_of_pos hcs]
  cases more with
  | nil => simp
  | cons c more => rw [List.takeWhile_cons, if_neg (List.any_eq_false.1 hp c (hm c rfl)), List.append_nil]

theorem not_mem_delimiters {p : Char → Bool} (hp : delimiters.any p = false) (hc : p c = true) : c ∉ delimiters :=
  fun hm => List.any_eq_false.1 hp c hm hc

end Words

/-- **A name is taken off the front.** -/
theorem scan_name {text : String} (h : isName text = true) {more : List Char} (hm : Stops more) (opened : Nat) :
    scan opened (text.toList ++ more) = (scan opened more).map (.name text :: ·) := by
  unfold isName at h
  cases htext : text.toList with
  | nil =>
    rw [htext] at h
    cases h
  | cons c rest =>
    rw [htext] at h
    obtain ⟨hstart, hrest⟩ := Bool.and_eq_true_iff.1 h
    have hall : ∀ d ∈ c :: rest, isNameRest d = true :=
      List.forall_mem_cons.2 ⟨by rw [isNameRest, hstart]; rfl, List.all_eq_true.1 hrest⟩
    have hc : c ∉ delimiters := not_mem_delimiters (by decide) hstart
    have hread : readToken ⟨1, 1⟩ (c :: (rest ++ more)) =
        some (.name text, rest.length + 1, Position.advance ⟨1, 1⟩ (rest.length + 1)) := by
      rw [readToken_word hc, if_pos hstart, ← List.cons_append, takeWhile_stops hall hm (by decide)]
      dsimp only
      rw [← htext, String.ofList_toList, htext]
      rfl
    rw [List.cons_append, scan_token _ (skip?_eq_none hc) ⟨_, hread⟩]
    rfl

/-! ## Numbers -/

/-- digits, after a sign if the number is negative -/
def signedDigits (negative : Bool) (n : Nat) : List Char :=
  (if negative then ['-'] else []) ++ Nat.toDigits 10 n

theorem decimalValue_toDigits (n : Nat) : Text.decimalValue (Nat.toDigits 10 n) = n :=
  Nat.ofDigitChars_ten_toDigits

theorem isDigit_of_mem_toDigits {n : Nat} {c : Char} (h : c ∈ Nat.toDigits 10 n) : c.isDigit = true :=
  Nat.isDigit_of_mem_toDigits (by decide) (by decide) h

theorem head_toDigits {n : Nat} (h : 0 < n) : (Nat.toDigits 10 n).head? ≠ some '0' := by
  induction n using Nat.strongRecOn with
  | ind n ih =>
    rw [Nat.toDigits_eq_if (by decide)]
    split
    · rw [List.head?_cons]
      intro hzero
      rw [Option.some_inj, Nat.digitChar_eq_zero] at hzero
      omega
    · rw [List.head?_append_of_ne_nil _ Nat.toDigits_ne_nil]
      exact ih (n / 10) (by omega) (by omega)

/-- digits begin with no sign, and with no zero unless they are one -/
theorem toDigits_cases (n : Nat) : ∃ c rest, Nat.toDigits 10 n = c :: rest ∧ c ≠ '-' ∧ (n = 0 ∨ c ≠ '0') := by
  obtain ⟨c, rest, hdigits⟩ := List.exists_cons_of_ne_nil (Nat.toDigits_ne_nil (n := n) (b := 10))
  refine ⟨c, rest, hdigits, ?_, ?_⟩
  · rintro rfl
    exact absurd (isDigit_of_mem_toDigits (n := n) (c := '-') (by simp [hdigits])) (by decide)
  · rcases Nat.eq_zero_or_pos n with hn | hn
    · exact .inl hn
    · refine .inr ?_
      rintro rfl
      exact head_toDigits hn (by rw [hdigits]; rfl)

theorem isWhole_signedDigits (negative : Bool) (n : Nat) : isWhole (signedDigits negative n) = true := by
  rcases Nat.eq_zero_or_pos n with rfl | hn
  · cases negative <;> decide
  · obtain ⟨c, rest, hdigits, hminus, hzero⟩ := toDigits_cases n
    have hall : ∀ d ∈ c :: rest, d.isDigit = true := fun d hd => isDigit_of_mem_toDigits (hdigits ▸ hd)
    obtain ⟨hc, hrest⟩ := List.forall_mem_cons.1 hall
    have hfirst : c ≠ '0' := hzero.resolve_left (by omega)
    rw [signedDigits, hdigits]
    cases negative
    · simpa [isWhole, hminus, hfirst, hc] using hrest
    · simpa [isWhole, hfirst, hc] using hrest

theorem signAndDigits_signedDigits (negative : Bool) (n : Nat) :
    signAndDigits (signedDigits negative n) = (negative, Nat.toDigits 10 n) := by
  obtain ⟨c, rest, hdigits, hminus, -⟩ := toDigits_cases n
  rw [signedDigits, hdigits]
  cases negative
  · simp [signAndDigits, hminus]
  · rfl

/-- a written integer is its digits, after a sign if it is negative -/
theorem exists_signedDigits (n : Int) : ∃ (negative : Bool) (m : Nat), (toString n).toList = signedDigits negative m ∧
    (if negative then -(m : Int) else m) = n := by
  rw [Int.toString_eq_repr, Int.repr_eq_if]
  split
  · exact ⟨false, n.toNat, by rw [Nat.toList_repr]; rfl, by rw [if_neg Bool.false_ne_true]; omega⟩
  · exact ⟨true, (-n).toNat, by rw [String.toList_append, Nat.toList_repr]; rfl, by rw [if_pos rfl]; omega⟩

theorem digit_or_minus {n : Int} {c : Char} (h : c ∈ (toString n).toList) : (c == '-' || c.isDigit) = true := by
  obtain ⟨negative, m, hchars, -⟩ := exists_signedDigits n
  rw [hchars] at h
  rcases List.mem_append.1 h with h | h
  · cases negative
    · cases h
    · rw [List.mem_singleton.1 h]
      rfl
  · rw [isDigit_of_mem_toDigits h, Bool.or_true]

/-- no name starts with a character of a number -/
theorem isNameStart_of_digit {c : Char} (h : (c == '-' || c.isDigit) = true) : isNameStart c = false := by
  rcases Bool.or_eq_true_iff.1 h with h | h
  · rw [beq_iff_eq.1 h]
    decide
  · have hupper : c.isUpper = decide (c.val ≥ 'A'.val ∧ c.val ≤ 'Z'.val) := rfl
    have hlower : c.isLower = (decide (c.val ≥ 'a'.val) && decide (c.val ≤ 'z'.val)) := rfl
    have halpha : c.isAlpha = (c.isUpper || c.isLower) := rfl
    simp only [Char.isDigit, isNameStart, halpha, hupper, hlower] at h ⊢
    have hne : (c == '_') = false := by
      rw [beq_eq_false_iff_ne]
      rintro rfl
      cases h
    rw [hne]
    simp [UInt32.le_iff_toNat_le] at h ⊢
    omega

theorem not_endsNumber {c : Char} (h : (c == '-' || c.isDigit) = true) : (!endsNumber c) = true := by
  have hnone : (" \n\r\t,#!$:=@|&()[]\x7b\x7d".toList.any fun d => d == '-' || d.isDigit) = false := by decide
  rw [Bool.not_eq_true', Bool.eq_false_iff]
  exact fun hc => List.any_eq_false.1 hnone c (List.contains_iff_mem.1 hc) h

theorem ofNumber?_toString (n : Int64) : ofNumber? (toString n.toInt).toList = some (.int n) := by
  have hmarks : ((toString n.toInt).toList.any fun c => c == '.' || (c == 'e' || c == 'E')) = false := by
    rw [List.any_eq_false]
    intro c hc hmark
    have hnone : (['.', 'e', 'E'].any fun d => d == '-' || d.isDigit) = false := by decide
    exact List.any_eq_false.1 hnone c (by simpa using hmark) (digit_or_minus hc)
  obtain ⟨negative, m, hchars, hvalue⟩ := exists_signedDigits n.toInt
  have hlow : -(pow2 63 : Int) ≤ n.toInt := n.le_toInt
  have hhigh : n.toInt < (pow2 63 : Int) := n.toInt_lt
  unfold ofNumber?
  dsimp only
  rw [hmarks, if_neg Bool.false_ne_true, hchars, isWhole_signedDigits, if_pos rfl, signAndDigits_signedDigits]
  dsimp only
  rw [decimalValue_toDigits, hvalue]
  simp [hlow, hhigh]

/-- **An integer is taken off the front.** -/
theorem scan_int (n : Int64) {more : List Char} (hm : Stops more) (opened : Nat) :
    scan opened ((toString n.toInt).toList ++ more) = (scan opened more).map (.int n :: ·) := by
  have hnumber := ofNumber?_toString n
  have hchars : ∀ c ∈ (toString n.toInt).toList, (c == '-' || c.isDigit) = true := fun c => digit_or_minus
  cases htext : (toString n.toInt).toList with
  | nil =>
    rw [htext] at hnumber
    cases hnumber
  | cons c rest =>
    rw [htext] at hnumber hchars
    have hfirst := hchars c List.mem_cons_self
    have hc : c ∉ delimiters := not_mem_delimiters (p := fun c => c == '-' || c.isDigit) (by decide) hfirst
    have hname : isNameStart c = false := isNameStart_of_digit hfirst
    have hread : readToken ⟨1, 1⟩ (c :: (rest ++ more)) =
        some (.int n, rest.length + 1, Position.advance ⟨1, 1⟩ (rest.length + 1)) := by
      rw [readToken_word hc, hname, if_neg Bool.false_ne_true, if_pos hfirst, ← List.cons_append,
        takeWhile_stops (p := fun c => !endsNumber c) ?_ hm (by decide)]
      · dsimp only
        rw [hnumber]
        rfl
      · exact fun d hd => not_endsNumber (hchars d hd)
    rw [List.cons_append, scan_token _ (skip?_eq_none hc) ⟨_, hread⟩]
    rfl

/-! ## Strings -/

/-- the character is written in a way that strings know: it is printable, or has a short escape that is theirs -/
def ReadsBack (c : Char) : Prop :=
  Text.isPrintable c = true ∨ c ∈ ['\n', '\r', '\t']

instance (c : Char) : Decidable (ReadsBack c) :=
  inferInstanceAs (Decidable (_ ∨ _))

section Strings

variable {c : Char}

theorem stringBody_short {mark : Char} (h : mark ≠ 'u') (cs : List Char) :
    stringBody ('\\' :: mark :: cs) =
      (shortEscape? mark).bind fun c => (stringBody cs).map fun read => (c :: read.1, read.2 + 2) := by
  rw [stringBody]
  · cases shortEscape? mark with
    | none => rfl
    | some c => cases stringBody cs <;> rfl
  · exact fun _ _ _ _ _ hu => absurd hu h

theorem stringBody_plain (hq : c ≠ '"') (hb : c ≠ '\\') (hn : c ≠ '\n') (cs : List Char) :
    stringBody (c :: cs) = (stringBody cs).map fun read => (c :: read.1, read.2 + 1) := by
  rw [stringBody, if_neg (by simp [hb, hn])]
  · cases stringBody cs <;> rfl
  · exact hq
  · exact fun _ _ _ _ _ h => absurd h hb
  · exact fun _ _ h => absurd h hb

/-- the escapes that strings know: all short ones but that of the null character -/
theorem shortEscape?_mark : ∀ entry ∈ Text.shortEscapes, entry.2 ≠ 'u' ∧
    (ReadsBack entry.1 ∧ shortEscape? entry.2 = some entry.1 ∨ ¬ ReadsBack entry.1 ∧ shortEscape? entry.2 = none) := by
  decide

/-- what is written by its code point is no escape that strings know -/
theorem not_readsBack_of_hidden (hp : Text.isPrintable c = false) (hother : c ∉ Text.shortEscapes.map Prod.fst) :
    ¬ ReadsBack c := by
  rintro (h | h)
  · rw [hp] at h
    cases h
  · have hknown : ['\n', '\r', '\t'] ⊆ Text.shortEscapes.map Prod.fst := by decide
    exact hother (hknown h)

theorem stringBody_escape (h : ReadsBack c) (cs : List Char) :
    stringBody (Text.escape c ++ cs) =
      (stringBody cs).map fun read => (c :: read.1, read.2 + (Text.escape c).length) := by
  rcases Text.written c with ⟨mark, hknown, hw⟩ | ⟨hp, hq, hb, hw⟩ | ⟨hp, hother, -⟩
  · obtain ⟨hu, ⟨-, hmark⟩ | ⟨hnot, -⟩⟩ := shortEscape?_mark _ hknown
    · rw [hw]
      exact (stringBody_short hu cs).trans (by rw [hmark]; rfl)
    · exact absurd h hnot
  · rw [hw]
    refine stringBody_plain hq hb ?_ cs
    rintro rfl
    cases hp
  · exact absurd h (not_readsBack_of_hidden hp hother)

/-- any other character cannot be read back -/
theorem stringBody_escape_eq_none (h : ¬ ReadsBack c) {rest : List Char} (hr : rest ≠ []) :
    stringBody (Text.escape c ++ rest) = none := by
  rcases Text.written c with ⟨mark, hknown, hw⟩ | ⟨hp, -, -, -⟩ | ⟨-, -, hw⟩
  · obtain ⟨hu, ⟨hreads, -⟩ | ⟨-, hmark⟩⟩ := shortEscape?_mark _ hknown
    · exact absurd hreads h
    · rw [hw]
      exact (stringBody_short hu rest).trans (by rw [hmark]; rfl)
  · exact absurd (.inl hp) h
  · -- four characters are there to be read, and the first of them is a brace
    obtain ⟨digit, digits, hdigits⟩ := List.exists_cons_of_ne_nil (Nat.toDigits_ne_nil (n := c.toNat) (b := 16))
    obtain ⟨x, y, more, hmore⟩ : ∃ x y more, digits ++ '\x7d' :: rest = x :: y :: more := by
      obtain ⟨r, rest, rfl⟩ := List.exists_cons_of_ne_nil hr
      match digits with
      | [] => exact ⟨_, _, _, rfl⟩
      | [d] => exact ⟨_, _, _, rfl⟩
      | d :: e :: more => exact ⟨_, _, _, rfl⟩
    have hcs : Text.escape c ++ rest = '\\' :: 'u' :: '\x7b' :: digit :: x :: y :: more := by
      rw [hw, Text.hexDigits, hdigits, ← hmore]
      simp
    rw [hcs]
    rfl

/-- **The body of a quoted text,** up to its closing quote -/
theorem stringBody_flatMap_escape {cs : List Char} (h : ∀ c ∈ cs, ReadsBack c) (more : List Char) :
    stringBody (cs.flatMap Text.escape ++ '"' :: more) = some (cs, (cs.flatMap Text.escape).length + 1) := by
  induction cs with
  | nil => rfl
  | cons c cs ih =>
    obtain ⟨hc, hcs⟩ := List.forall_mem_cons.1 h
    rw [List.flatMap_cons, List.append_assoc, stringBody_escape hc, ih hcs, Option.map_some, List.length_append]
    simp only [Option.some.injEq, Prod.mk.injEq, true_and]
    omega

theorem stringBody_flatMap_escape_eq_none {cs : List Char} (h : ¬ ∀ c ∈ cs, ReadsBack c) (more : List Char) :
    stringBody (cs.flatMap Text.escape ++ '"' :: more) = none := by
  induction cs with
  | nil => exact absurd (by simp) h
  | cons c cs ih =>
    rw [List.flatMap_cons, List.append_assoc]
    by_cases hc : ReadsBack c
    · rw [stringBody_escape hc, ih fun hcs => h (List.forall_mem_cons.2 ⟨hc, hcs⟩)]
      rfl
    · exact stringBody_escape_eq_none hc (by simp)

/-- the token of a quoted text is that of its body -/
theorem readToken_quoted (s : String) {more : List Char} (hm : Stops more) (p : Position) :
    readToken p ('"' :: (s.toList.flatMap Text.escape ++ '"' :: more)) =
      (stringBody (s.toList.flatMap Text.escape ++ '"' :: more)).map fun read =>
        (string (String.ofList read.1), read.2 + 1, Position.advance p (read.2 + 1)) := by
  rw [readToken]
  · cases stringBody (s.toList.flatMap Text.escape ++ '"' :: more) <;> rfl
  · -- this is not the start of a block string, not even for an empty text
    intro tail htail
    cases hs : s.toList.flatMap Text.escape with
    | nil =>
      rw [hs, List.nil_append, List.cons.injEq] at htail
      have hquote := hm '"' (by rw [htail.2]; rfl)
      exact absurd hquote (by decide)
    | cons c cs =>
      rw [hs, List.cons_append, List.cons.injEq] at htail
      exact Text.head?_flatMap_escape s.toList (by rw [hs, htail.1]; rfl)

end Strings

section Strings

variable {s : String} {more : List Char}

theorem toList_quoted (s : String) : (Text.quoted s).toList = '"' :: (s.toList.flatMap Text.escape ++ ['"']) := by
  simp [Text.quoted]

/-- **A quoted text is taken off the front** when its characters read back. -/
theorem scan_string (h : ∀ c ∈ s.toList, ReadsBack c) (hm : Stops more) (opened : Nat) :
    scan opened ((Text.quoted s).toList ++ more) = (scan opened more).map (.string s :: ·) := by
  have hread : readToken ⟨1, 1⟩ ('"' :: (s.toList.flatMap Text.escape ++ ['"'] ++ more)) =
      some (.string s, (s.toList.flatMap Text.escape ++ ['"']).length + 1,
        Position.advance ⟨1, 1⟩ ((s.toList.flatMap Text.escape).length + 1 + 1)) := by
    rw [List.append_assoc, List.singleton_append, readToken_quoted s hm, stringBody_flatMap_escape h, Option.map_some,
      String.ofList_toList, List.length_append, List.length_singleton]
  rw [toList_quoted, List.cons_append, scan_token _ rfl ⟨_, hread⟩]
  rfl

theorem scan_string_eq_none (h : ¬ ∀ c ∈ s.toList, ReadsBack c) (hm : Stops more) (opened : Nat) :
    scan opened ((Text.quoted s).toList ++ more) = none := by
  rw [toList_quoted, List.cons_append, List.append_assoc, List.singleton_append]
  refine scan_eq_none rfl ?_ opened
  rw [readToken_quoted s hm, stringBody_flatMap_escape_eq_none h]
  rfl

end Strings

end GraphGen.Token
