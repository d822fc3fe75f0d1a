/-
Template literals.

A template literal is text between backticks, with the values of variables put in at its substitutions. `TemplateLiteral.read?`
takes it apart as a reader of the language does: escapes give the code units that they stand for, a carriage return counts as a
line feed, and a dollar sign before an opening brace begins a substitution. Texts are lists of UTF-16 code units there.

`ink` counts what is not blank. No piece of a literal has more ink than the characters that it is read from, and an escape has
less, since its backslash is gone (`piece?_ink`). So a literal that keeps all ink of its characters has no escape (`read?_ink`).

Main results:
- `read?_append`: text without backslashes, backticks and openings of substitutions (`Plain`) is read as it stands.
- `parse?_iff`: a text with substitutions behind it is read as this text and these substitutions exactly when it is plain.
-/
import GraphGen.Syntax.Token
import Mathlib.Algebra.GroupWithZero.Nat
import Mathlib.Algebra.Order.BigOperators.Group.List
import Mathlib.Algebra.Order.Group.Nat
import Mathlib.Data.List.Infix
import Mathlib.Data.List.TakeDrop

namespace GraphGen

/-! ## Code units -/

/-- the code units of a code point -/
def codeUnits (n : Nat) : List Nat :=
  if n < 0x10000 then [n] else [0xd800 + (n - 0x10000) / 0x400, 0xdc00 + (n - 0x10000) % 0x400]

/-- the code units of characters -/
def utf16 (cs : List Char) : List Nat :=
  cs.flatMap fun c => codeUnits c.toNat

/-- a template literal: the text before its first substitution, and every variable with the text behind it -/
structure TemplateLiteral where
  head : List Nat
  spans : List (String × List Nat)
  deriving DecidableEq, Inhabited

/-- what a template literal is read from, one after the other -/
inductive TemplatePiece where
  | text (units : List Nat)
  | substitution (name : String)
  | close
  deriving DecidableEq, Inhabited

namespace TemplateLiteral

/-! ## Escapes -/

/-- the letters that stand for control characters behind a backslash -/
def controlEscapes : List (Char × List Nat) :=
  [('b', [8]), ('t', [9]), ('n', [10]), ('v', [11]), ('f', [12]), ('r', [13])]

/-- characters without a line feed at their beginning -/
def dropLineFeed (cs : List Char) : List Char :=
  if cs.head? = some '\n' then cs.tail else cs

/-- a code unit written in that many hexadecimal digits -/
def hexUnit? (count : Nat) (cs : List Char) : Option (List Nat × List Char) :=
  if cs.length < count then none else (Text.hexNumber? (cs.take count)).map fun n => ([n], cs.drop count)

/-- a code point written in hexadecimal digits up to a closing brace -/
def bracedPoint? (cs : List Char) : Option (List Nat × List Char) :=
  match cs.dropWhile (· ≠ '\x7d') with
  | [] => none
  | _ :: after =>
    match Text.hexNumber? (cs.takeWhile (· ≠ '\x7d')) with
    | some n => if cs.head? ≠ some '\x7d' ∧ n < 0x110000 then some (codeUnits n, after) else none
    | none => none

/-- what stands behind a backslash, and the characters after it: a line end that is left out, a code in hexadecimal digits, a
letter for a control character, or a character that stands for itself. Digits have no value but for a single zero. -/
def escape? : List Char → Option (List Nat × List Char)
  | [] => none
  | c :: rest =>
    if c = '\r' then some ([], dropLineFeed rest)
    else if c = '\n' ∨ c = '\u2028' ∨ c = '\u2029' then some ([], rest)
    else if c = 'x' then hexUnit? 2 rest
    else if c = 'u' then if rest.head? = some '\x7b' then bracedPoint? rest.tail else hexUnit? 4 rest
    else if c.isDigit then if c = '0' ∧ ¬ rest.head?.any Char.isDigit then some ([0], rest) else none
    else some ((controlEscapes.lookup c).getD (codeUnits c.toNat), rest)

/-! ## Reading -/

/-- whether the name of a variable may have the character; which characters beyond ASCII these are is not looked at -/
def isVariableChar (c : Char) : Bool :=
  c == '$' || Token.isNameRest c || 0x80 ≤ c.toNat

/-- whether the characters are the name of a variable -/
def isVariableName : List Char → Bool
  | [] => false
  | c :: rest => !c.isDigit && (c :: rest).all isVariableChar

/-- the name of a variable up to a closing brace -/
def substitution? (cs : List Char) : Option (TemplatePiece × List Char) :=
  let name := cs.takeWhile isVariableChar
  let after := cs.dropWhile isVariableChar
  if isVariableName name ∧ after.head? = some '\x7d' then some (.substitution (String.ofList name), after.tail) else none

/-- the first piece of a template literal, and the characters behind it -/
def piece? : List Char → Option (TemplatePiece × List Char)
  | [] => none
  | c :: rest =>
    if c = '\x60' then some (.close, rest)
    else if c = '\\' then (escape? rest).map fun (units, after) => (.text units, after)
    else if c = '$' ∧ rest.head? = some '\x7b' then substitution? rest.tail
    else if c = '\r' then some (.text [10], dropLineFeed rest)
    else some (.text (codeUnits c.toNat), rest)

/-- what is not blank -/
def ink (units : List Nat) : Nat :=
  units.countP fun n => !Text.isBlank (Char.ofNat n)

end TemplateLiteral

/-- what is not blank in a piece as it is written -/
def TemplatePiece.ink : TemplatePiece → Nat
  | text units => TemplateLiteral.ink units
  | substitution name => 3 + TemplateLiteral.ink (utf16 name.toList)
  | close => 1

namespace TemplateLiteral

theorem utf16_append (first second : List Char) : utf16 (first ++ second) = utf16 first ++ utf16 second :=
  List.flatMap_append

theorem utf16_cons (c : Char) (cs : List Char) : utf16 (c :: cs) = codeUnits c.toNat ++ utf16 cs := rfl

theorem ink_append (first second : List Nat) : ink (first ++ second) = ink first + ink second :=
  List.countP_append

theorem ink_le_length (units : List Nat) : ink units ≤ units.length :=
  List.countP_le_length

theorem length_codeUnits_le (n : Nat) : (codeUnits n).length ≤ 2 := by
  unfold codeUnits
  split <;> simp

/-- blank characters come early -/
theorem toNat_of_isBlank {c : Char} (h : Text.isBlank c = true) : 0 < c.toNat ∧ c.toNat ≤ 0x3000 := by
  simp only [Text.isBlank, Bool.or_eq_true, Bool.and_eq_true, decide_eq_true_eq, beq_iff_eq] at h
  omega

/-- a code unit behind them is not blank, also where it is half of a pair -/
theorem isBlank_ofNat {n : Nat} (h : 0x3000 < n) : Text.isBlank (Char.ofNat n) = false := by
  refine Bool.eq_false_iff.2 fun hblank => ?_
  obtain ⟨hpos, hle⟩ := toNat_of_isBlank hblank
  by_cases hvalid : n.isValidChar
  · have hsame : (Char.ofNat n).toNat = n := by
      rw [Char.ofNat, dif_pos hvalid]
      rfl
    omega
  · rw [Char.ofNat, dif_neg hvalid] at hpos
    exact absurd hpos (by decide)

/-- the code unit of a character that is not blank, or the first of its two, has ink -/
theorem one_le_ink {c : Char} (hc : Text.isBlank c = false) (cs : List Char) : 1 ≤ ink (utf16 (c :: cs)) := by
  have hunit : ∃ n more, codeUnits c.toNat = n :: more ∧ Text.isBlank (Char.ofNat n) = false := by
    unfold codeUnits
    split
    · exact ⟨_, _, rfl, by rwa [Char.ofNat_toNat]⟩
    · exact ⟨_, _, rfl, isBlank_ofNat (by omega)⟩
  obtain ⟨n, more, hcode, hn⟩ := hunit
  rw [utf16_cons, hcode, List.cons_append, ink, List.countP_cons, hn]
  simp

/-- blank text has no ink -/
theorem ink_of_isBlank {cs : List Char} (h : ∀ c ∈ cs, Text.isBlank c = true) : ink (utf16 cs) = 0 := by
  induction cs with
  | nil => rfl
  | cons c cs ih =>
    obtain ⟨hc, hcs⟩ := List.forall_mem_cons.1 h
    rw [utf16_cons, ink_append, ih hcs, codeUnits,
      if_pos (lt_of_le_of_lt (toNat_of_isBlank hc).2 (by decide)), ink, List.countP_cons, Char.ofNat_toNat, hc]
    rfl

/-! ### What a piece is read from -/

theorem exists_dropLineFeed (cs : List Char) : ∃ taken, cs = taken ++ dropLineFeed cs ∧ '\\' ∉ taken := by
  unfold dropLineFeed
  split
  · rename_i h
    obtain ⟨rest, rfl⟩ := List.head?_eq_some_iff.1 h
    exact ⟨['\n'], rfl, by decide⟩
  · exact ⟨[], rfl, by simp⟩

theorem hexUnit?_taken {count : Nat} {cs after : List Char} {units : List Nat} (h : hexUnit? count cs = some (units, after)) :
    ∃ taken, cs = taken ++ after ∧ units.length = 1 := by
  unfold hexUnit? at h
  split at h
  · cases h
  · obtain ⟨n, -, hn⟩ := Option.map_eq_some_iff.1 h
    cases hn
    exact ⟨cs.take count, (List.take_append_drop count cs).symm, rfl⟩

theorem bracedPoint?_taken {cs after : List Char} {units : List Nat} (h : bracedPoint? cs = some (units, after)) :
    ∃ taken, cs = taken ++ after ∧ units.length ≤ 2 := by
  unfold bracedPoint? at h
  split at h
  · cases h
  · rename_i brace found hdrop
    split at h
    · split at h
      · cases h
        refine ⟨cs.takeWhile (· ≠ '\x7d') ++ [brace], ?_, length_codeUnits_le _⟩
        rw [List.append_assoc, List.singleton_append, ← hdrop, List.takeWhile_append_dropWhile]
      · cases h
    · cases h

/-- an escape has no more ink than it is read from, its backslash left out -/
theorem escape?_ink {cs after : List Char} {units : List Nat} (h : escape? cs = some (units, after)) :
    ∃ taken, cs = taken ++ after ∧ ink units ≤ ink (utf16 taken) := by
  cases cs with
  | nil => cases h
  | cons c rest =>
    have hcode : ∀ {taken : List Char} {units : List Nat}, Text.isBlank c = false → units.length ≤ 1 →
        ink units ≤ ink (utf16 (c :: taken)) :=
      fun hc hlength => (ink_le_length _).trans (hlength.trans (one_le_ink hc _))
    rw [escape?] at h
    split_ifs at h with hreturn hline hx hu hbrace hdigit hzero
    · cases h
      obtain ⟨taken, htaken, -⟩ := exists_dropLineFeed rest
      exact ⟨c :: taken, by rw [List.cons_append, ← htaken], Nat.zero_le _⟩
    · cases h
      exact ⟨[c], rfl, Nat.zero_le _⟩
    · obtain ⟨taken, rfl, hlength⟩ := hexUnit?_taken h
      exact ⟨c :: taken, rfl, hcode (hx ▸ rfl) hlength.le⟩
    · obtain ⟨more, rfl⟩ := List.head?_eq_some_iff.1 hbrace
      obtain ⟨taken, rfl, hlength⟩ := bracedPoint?_taken h
      refine ⟨c :: '\x7b' :: taken, rfl, (ink_le_length _).trans (hlength.trans ?_)⟩
      rw [hu, utf16_cons, ink_append]
      exact Nat.add_le_add_left (one_le_ink rfl taken) 1
    · obtain ⟨taken, rfl, hlength⟩ := hexUnit?_taken h
      exact ⟨c :: taken, rfl, hcode (hu ▸ rfl) hlength.le⟩
    · cases h
      exact ⟨[c], rfl, hcode (hzero.1 ▸ rfl) le_rfl⟩
    · cases h
      refine ⟨[c], rfl, ?_⟩
      cases hlookup : controlEscapes.lookup c with
      | none => exact le_of_eq (by rw [utf16_cons, ink_append]; rfl)
      | some units =>
        obtain ⟨before, after, hcontrol, -⟩ := List.lookup_eq_some_iff.1 hlookup
        have hall : ∀ control ∈ controlEscapes, Text.isBlank control.1 = false ∧ control.2.length ≤ 1 := by decide
        obtain ⟨hc, hlength⟩ := hall (c, units) (by simp [hcontrol])
        exact hcode hc hlength

theorem isVariableName_forall {cs : List Char} (h : isVariableName cs = true) : ∀ c ∈ cs, isVariableChar c = true := by
  cases cs with
  | nil => simp
  | cons c rest => exact List.all_eq_true.1 (Bool.and_eq_true_iff.1 h).2

theorem substitution?_taken {cs after : List Char} {piece : TemplatePiece} (h : substitution? cs = some (piece, after)) :
    ∃ name, cs = name ++ '\x7d' :: after ∧ piece = .substitution (String.ofList name) ∧ isVariableName name = true := by
  simp only [substitution?] at h
  split at h
  · rename_i hname
    obtain ⟨hname, hbrace⟩ := hname
    cases h
    obtain ⟨more, hmore⟩ := List.head?_eq_some_iff.1 hbrace
    refine ⟨_, ?_, rfl, hname⟩
    rw [hmore, List.tail_cons, ← hmore, List.takeWhile_append_dropWhile]
  · cases h

/-- the amount of ink is no more than in the characters, and less where there is a backslash -/
structure Within (amount : Nat) (taken : List Char) : Prop where
  le : amount ≤ ink (utf16 taken)
  lt : '\\' ∈ taken → amount < ink (utf16 taken)

theorem Within.append {first second : List Char} {m n : Nat} (hm : Within m first) (hn : Within n second) :
    Within (m + n) (first ++ second) := by
  have hink : ink (utf16 (first ++ second)) = ink (utf16 first) + ink (utf16 second) := by rw [utf16_append, ink_append]
  refine ⟨hink ▸ Nat.add_le_add hm.le hn.le, fun hmem => hink ▸ ?_⟩
  rcases List.mem_append.1 hmem with hmem | hmem
  · exact Nat.add_lt_add_of_lt_of_le (hm.lt hmem) hn.le
  · exact Nat.add_lt_add_of_le_of_lt hm.le (hn.lt hmem)

/-- **A piece of a literal has no more ink than it is read from**, and an escape has less. -/
theorem piece?_ink {cs after : List Char} {piece : TemplatePiece} (h : piece? cs = some (piece, after)) :
    ∃ taken, taken ≠ [] ∧ cs = taken ++ after ∧ Within piece.ink taken := by
  cases cs with
  | nil => cases h
  | cons c rest =>
    rw [piece?] at h
    split_ifs at h with hclose hescape hopen hreturn
    · cases h
      subst hclose
      exact ⟨['\x60'], by simp, rfl, by decide, by decide⟩
    · obtain ⟨⟨units, found⟩, hunits, hsame⟩ := Option.map_eq_some_iff.1 h
      cases hsame
      obtain ⟨taken, rfl, hink⟩ := escape?_ink hunits
      have hbackslash : ink (codeUnits '\\'.toNat) = 1 := by decide
      have hless : ink units < ink (utf16 (c :: taken)) := by
        rw [hescape, utf16_cons, ink_append]
        omega
      exact ⟨c :: taken, by simp, rfl, hless.le, fun _ => hless⟩
    · obtain ⟨rfl, hbrace⟩ := hopen
      obtain ⟨more, rfl⟩ := List.head?_eq_some_iff.1 hbrace
      obtain ⟨name, rfl, rfl, hname⟩ := substitution?_taken h
      have hnone : '\\' ∉ '$' :: '\x7b' :: name ++ ['\x7d'] := by
        simp only [List.cons_append, List.mem_cons, List.mem_append, List.not_mem_nil, or_false, not_or]
        exact ⟨by decide, by decide, fun hm => Bool.false_ne_true (isVariableName_forall hname _ hm), by decide⟩
      refine ⟨'$' :: '\x7b' :: name ++ ['\x7d'], by simp, by simp, ?_, fun hm => absurd hm hnone⟩
      rw [TemplatePiece.ink, String.toList_ofList, List.cons_append, List.cons_append, utf16_cons, utf16_cons, utf16_append,
        ink_append, ink_append, ink_append]
      show 3 + ink (utf16 name) ≤ 1 + (1 + (ink (utf16 name) + 1))
      omega
    · cases h
      obtain ⟨taken, htaken, hnone⟩ := exists_dropLineFeed rest
      refine ⟨c :: taken, by simp, by rw [List.cons_append, ← htaken], Nat.zero_le _, fun hm => ?_⟩
      exact absurd hm (by simp [hreturn, hnone])
    · cases h
      refine ⟨[c], by simp, rfl, ?_, fun hm => absurd hm (by simpa using Ne.symm hescape)⟩
      rw [utf16_cons, ink_append]
      exact le_rfl

theorem isVariableName_of_piece? {cs after : List Char} {name : String}
    (h : piece? cs = some (.substitution name, after)) : isVariableName name.toList = true := by
  cases cs with
  | nil => cases h
  | cons c rest =>
    rw [piece?] at h
    split_ifs at h with hclose hescape hopen hreturn
    · cases h
    · obtain ⟨_, -, hsame⟩ := Option.map_eq_some_iff.1 h
      cases hsame
    · obtain ⟨chars, -, hpiece, hname⟩ := substitution?_taken h
      cases hpiece
      rwa [String.toList_ofList]
    · cases h
    · cases h

theorem length_of_piece? {cs after : List Char} {piece : TemplatePiece} (h : piece? cs = some (piece, after)) :
    after.length < cs.length := by
  obtain ⟨taken, hne, rfl, -⟩ := piece?_ink h
  rw [List.length_append]
  exact Nat.lt_add_of_pos_left (List.length_pos_of_ne_nil hne)

/-! ## Whole literals -/

/-- a literal with further text at its beginning -/
def before (units : List Nat) (literal : TemplateLiteral) : TemplateLiteral :=
  ⟨units ++ literal.head, literal.spans⟩

/-- a literal behind a substitution -/
def behind (name : String) (literal : TemplateLiteral) : TemplateLiteral :=
  ⟨[], (name, literal.head) :: literal.spans⟩

/-- the literal whose opening backtick was read, and the characters behind it -/
def read? (cs : List Char) : Option (TemplateLiteral × List Char) :=
  match _found : piece? cs with
  | none => none
  | some (.close, after) => some (⟨[], []⟩, after)
  | some (.text units, after) => (read? after).map fun (literal, rest) => (literal.before units, rest)
  | some (.substitution name, after) => (read? after).map fun (literal, rest) => (literal.behind name, rest)
termination_by cs.length
decreasing_by all_goals exact length_of_piece? _found

/-- the literal that the characters are, from backtick to backtick -/
def parse? (cs : List Char) : Option TemplateLiteral :=
  if cs.head? = some '\x60' then
    match read? cs.tail with
    | some (literal, []) => some literal
    | _ => none
  else none

/-- the names of the variables that are put in -/
def names (literal : TemplateLiteral) : List String :=
  literal.spans.map Prod.fst

/-- what is not blank in a literal as it is written -/
def inkOf (literal : TemplateLiteral) : Nat :=
  ink literal.head + (literal.spans.map fun span => 3 + ink (utf16 span.1.toList) + ink span.2).sum + 1

/-- **A literal has no more ink than it is read from**, and less where there is a backslash. -/
theorem read?_ink {cs rest : List Char} {literal : TemplateLiteral} (h : read? cs = some (literal, rest)) :
    ∃ taken, cs = taken ++ rest ∧ Within literal.inkOf taken := by
  induction cs using read?.induct generalizing literal with
  | case1 cs hnone =>
    rw [read?, hnone] at h
    cases h
  | case2 cs after hpiece =>
    rw [read?, hpiece] at h
    cases h
    obtain ⟨taken, -, rfl, hink⟩ := piece?_ink hpiece
    exact ⟨taken, rfl, hink⟩
  | case3 cs units after hpiece ih =>
    rw [read?, hpiece] at h
    obtain ⟨⟨inner, found⟩, hinner, hsame⟩ := Option.map_eq_some_iff.1 h
    cases hsame
    obtain ⟨first, -, rfl, hfirst⟩ := piece?_ink hpiece
    obtain ⟨second, rfl, hsecond⟩ := ih hinner
    have hink : (inner.before units).inkOf = ink units + inner.inkOf := by
      simp only [inkOf, before, ink_append]
      omega
    rw [hink]
    exact ⟨first ++ second, by rw [List.append_assoc], hfirst.append hsecond⟩
  | case4 cs name after hpiece ih =>
    rw [read?, hpiece] at h
    obtain ⟨⟨inner, found⟩, hinner, hsame⟩ := Option.map_eq_some_iff.1 h
    cases hsame
    obtain ⟨first, -, rfl, hfirst⟩ := piece?_ink hpiece
    obtain ⟨second, rfl, hsecond⟩ := ih hinner
    have hink : (inner.behind name).inkOf = (TemplatePiece.substitution name).ink + inner.inkOf := by
      simp only [inkOf, behind, TemplatePiece.ink, List.map_cons, List.sum_cons, ink, List.countP_nil]
      omega
    rw [hink]
    exact ⟨first ++ second, by rw [List.append_assoc], hfirst.append hsecond⟩

/-- the variables that are read have names -/
theorem isVariableName_of_read? {cs rest : List Char} {literal : TemplateLiteral} (h : read? cs = some (literal, rest)) :
    ∀ name ∈ literal.names, isVariableName name.toList = true := by
  induction cs using read?.induct generalizing literal with
  | case1 cs hnone =>
    rw [read?, hnone] at h
    cases h
  | case2 cs after hpiece =>
    rw [read?, hpiece] at h
    cases h
    simp [names]
  | case3 cs units after hpiece ih =>
    rw [read?, hpiece] at h
    obtain ⟨⟨inner, found⟩, hinner, hsame⟩ := Option.map_eq_some_iff.1 h
    cases hsame
    exact fun name hn => ih hinner name hn
  | case4 cs name after hpiece ih =>
    rw [read?, hpiece] at h
    obtain ⟨⟨inner, found⟩, hinner, hsame⟩ := Option.map_eq_some_iff.1 h
    cases hsame
    exact List.forall_mem_cons.2 ⟨isVariableName_of_piece? hpiece, ih hinner⟩

/-! ## Plain text -/

/-- text in which nothing has a meaning of its own: no backslash, no backtick, and no opening of a substitution -/
structure Plain (cs : List Char) : Prop where
  noEscape : '\\' ∉ cs
  noClose : '\x60' ∉ cs
  noOpening : ¬ ['$', '\x7b'] <:+: cs

instance (cs : List Char) : Decidable (Plain cs) :=
  decidable_of_iff ('\\' ∉ cs ∧ '\x60' ∉ cs ∧ ¬ ['$', '\x7b'] <:+: cs)
    ⟨fun h => ⟨h.1, h.2.1, h.2.2⟩, fun h => ⟨h.noEscape, h.noClose, h.noOpening⟩⟩

/-- a character without a meaning of its own is read as it stands -/
theorem read?_cons {c : Char} {cs : List Char} (hclose : c ≠ '\x60') (hescape : c ≠ '\\') (hreturn : c ≠ '\r')
    (hopen : ¬ (c = '$' ∧ cs.head? = some '\x7b')) :
    read? (c :: cs) = (read? cs).map fun (literal, rest) => (literal.before (codeUnits c.toNat), rest) := by
  have hpiece : piece? (c :: cs) = some (.text (codeUnits c.toNat), cs) := by
    rw [piece?, if_neg hclose, if_neg hescape, if_neg hopen, if_neg hreturn]
  rw [read?, hpiece]

/-- **Plain text is read as it stands**, when no brace behind it completes an opening. -/
theorem read?_append {cs more : List Char} (h : Plain cs) (hreturn : '\r' ∉ cs)
    (hmore : cs.getLast? = some '$' → more.head? ≠ some '\x7b') :
    read? (cs ++ more) = (read? more).map fun (literal, rest) => (literal.before (utf16 cs), rest) := by
  induction cs with
  | nil =>
    cases hr : read? more <;> simp [hr, before, utf16]
  | cons c cs ih =>
    have hrest : Plain cs :=
      ⟨List.not_mem_of_not_mem_cons h.noEscape, List.not_mem_of_not_mem_cons h.noClose,
        fun hin => h.noOpening (hin.trans (List.suffix_cons c cs).isInfix)⟩
    have hopen : ¬ (c = '$' ∧ (cs ++ more).head? = some '\x7b') := by
      rintro ⟨rfl, hbrace⟩
      cases cs with
      | nil => exact hmore rfl hbrace
      | cons d cs =>
        cases Option.some.inj hbrace
        exact h.noOpening ⟨[], cs, rfl⟩
    have hlast : cs.getLast? = some '$' → more.head? ≠ some '\x7b' :=
      fun hlast => hmore (by rw [List.getLast?_cons, hlast, Option.getD_some])
    rw [List.cons_append, read?_cons (List.ne_of_not_mem_cons h.noClose).symm (List.ne_of_not_mem_cons h.noEscape).symm
      (List.ne_of_not_mem_cons hreturn).symm hopen, ih hrest (List.not_mem_of_not_mem_cons hreturn) hlast]
    cases hr : read? more <;> simp [before, utf16_cons]

/-- text that is not plain but has no backslash is plain up to a backtick or an opening -/
theorem exists_plain_front {cs : List Char} (hescape : '\\' ∉ cs) (h : ¬ Plain cs) : ∃ front tail, cs = front ++ tail ∧
    Plain front ∧ (tail.head? = some '\x60' ∨ ∃ more, tail = '$' :: '\x7b' :: more) := by
  induction cs with
  | nil => exact absurd ⟨hescape, by simp, by simp⟩ h
  | cons c cs ih =>
    have hnil : Plain [] := by decide
    by_cases hclose : c = '\x60'
    · exact ⟨[], c :: cs, rfl, hnil, Or.inl (by rw [hclose, List.head?_cons])⟩
    by_cases hopen : c = '$' ∧ cs.head? = some '\x7b'
    · obtain ⟨rfl, hbrace⟩ := hopen
      obtain ⟨more, rfl⟩ := List.head?_eq_some_iff.1 hbrace
      exact ⟨[], _, rfl, hnil, Or.inr ⟨more, rfl⟩⟩
    -- the front of the rest, with a character that begins nothing
    have hcons : ∀ front, front <+: cs → Plain front → Plain (c :: front) := by
      intro front hprefix hfront
      refine ⟨?_, ?_, fun hin => ?_⟩
      · rw [List.mem_cons, not_or]
        exact ⟨(List.ne_of_not_mem_cons hescape), hfront.noEscape⟩
      · rw [List.mem_cons, not_or]
        exact ⟨Ne.symm hclose, hfront.noClose⟩
      · rcases List.infix_cons_iff.1 hin with hin | hin
        · obtain ⟨rfl, hbrace⟩ := List.cons_prefix_cons.1 hin
          obtain ⟨more, hmore⟩ := hbrace.trans hprefix
          exact hopen ⟨rfl, by rw [← hmore, List.singleton_append, List.head?_cons]⟩
        · exact hfront.noOpening hin
    obtain ⟨front, tail, rfl, hfront, htail⟩ :=
      ih (List.not_mem_of_not_mem_cons hescape) fun hplain => h (hcons cs List.prefix_rfl hplain)
    exact ⟨c :: front, tail, rfl, hcons front (List.prefix_append front tail) hfront, htail⟩

/-! ## Text with substitutions behind it -/

/-- the substitutions of variables, each on an indented line of its own -/
def substitutionLines (used : List String) : List Char :=
  used.flatMap fun name => "\n    $\x7b".toList ++ name.toList ++ ['\x7d']

/-- the text before the first substitution is this one between blank characters -/
def Shows (literal : TemplateLiteral) (text : List Char) : Prop :=
  ∃ lead tail, (∀ c ∈ lead, Text.isBlank c = true) ∧ (∀ c ∈ tail, Text.isBlank c = true) ∧
    literal.head = utf16 (lead ++ text ++ tail)

theorem isBlank_indent : ∀ c ∈ "\n    ".toList, Text.isBlank c = true :=
  List.all_eq_true.1 (by decide)

theorem plain_indent : Plain "\n    ".toList := by decide

theorem Shows.ink_eq {literal : TemplateLiteral} {text : List Char} (h : literal.Shows text) :
    ink literal.head = ink (utf16 text) := by
  obtain ⟨lead, tail, hlead, htail, hhead⟩ := h
  rw [hhead, utf16_append, utf16_append, ink_append, ink_append, ink_of_isBlank hlead, ink_of_isBlank htail, Nat.zero_add,
    Nat.add_zero]

theorem ink_substitutionLines (used : List String) :
    ink (utf16 (substitutionLines used)) = (used.map fun name => 3 + ink (utf16 name.toList)).sum := by
  induction used with
  | nil => rfl
  | cons name rest ih =>
    have hopen : ink (utf16 "\n    $\x7b".toList) = 2 := by decide
    have hclose : ink (utf16 ['\x7d']) = 1 := by decide
    rw [List.map_cons, List.sum_cons, ← ih, substitutionLines, List.flatMap_cons, utf16_append, utf16_append, utf16_append,
      ink_append, ink_append, ink_append, hopen, hclose, substitutionLines]
    omega

/-- the ink of a literal besides that of the texts behind its substitutions -/
theorem le_inkOf (literal : TemplateLiteral) :
    ink literal.head + (literal.names.map fun name => 3 + ink (utf16 name.toList)).sum + 1 ≤ literal.inkOf := by
  rw [inkOf, names, List.map_map]
  refine Nat.add_le_add_right (Nat.add_le_add_left (List.sum_le_sum fun span _ => ?_) _) 1
  exact Nat.le_add_right _ _

theorem read?_close (cs : List Char) : read? ('\x60' :: cs) = some (⟨[], []⟩, cs) := by
  have hpiece : piece? ('\x60' :: cs) = some (.close, cs) := by rw [piece?, if_pos rfl]
  rw [read?, hpiece]

theorem piece?_opening (cs : List Char) : piece? ('$' :: '\x7b' :: cs) = substitution? cs := by
  rw [piece?, if_neg (by decide), if_neg (by decide), if_pos ⟨rfl, rfl⟩, List.tail_cons]

/-- no text is before a substitution that a literal begins with -/
theorem head_of_opening {cs rest : List Char} {literal : TemplateLiteral}
    (h : read? ('$' :: '\x7b' :: cs) = some (literal, rest)) : literal.head = [] := by
  rw [read?, piece?_opening] at h
  cases hpiece : substitution? cs with
  | none =>
    rw [hpiece] at h
    cases h
  | some found =>
    obtain ⟨piece, after⟩ := found
    obtain ⟨name, -, rfl, -⟩ := substitution?_taken hpiece
    rw [hpiece] at h
    obtain ⟨_, -, hsame⟩ := Option.map_eq_some_iff.1 h
    cases hsame
    rfl

/-- the substitution of a variable is read -/
theorem read?_substitution {name : String} (h : isVariableName name.toList = true) (cs : List Char) :
    read? ('$' :: '\x7b' :: name.toList ++ '\x7d' :: cs) =
      (read? cs).map fun (literal, rest) => (literal.behind name, rest) := by
  have hbrace : ¬ isVariableChar '\x7d' = true := by decide
  have hpiece : substitution? (name.toList ++ '\x7d' :: cs) = some (.substitution name, cs) := by
    rw [substitution?, List.takeWhile_append_of_pos (isVariableName_forall h),
      List.dropWhile_append_of_pos (isVariableName_forall h), List.takeWhile_cons_of_neg hbrace,
      List.dropWhile_cons_of_neg hbrace, List.append_nil, if_pos ⟨h, rfl⟩, String.ofList_toList, List.tail_cons]
  rw [read?, List.cons_append, List.cons_append, piece?_opening, hpiece]

/-- lines of substitutions are read as such -/
theorem read?_substitutionLines {used : List String} (h : ∀ name ∈ used, isVariableName name.toList = true) :
    ∃ literal, read? (substitutionLines used ++ ['\x60']) = some (literal, []) ∧ literal.names = used ∧ literal.Shows [] := by
  induction used with
  | nil => exact ⟨⟨[], []⟩, read?_close [], rfl, [], [], by simp, by simp, rfl⟩
  | cons name rest ih =>
    obtain ⟨hname, hrest⟩ := List.forall_mem_cons.1 h
    obtain ⟨literal, hread, hnames, -⟩ := ih hrest
    refine ⟨(literal.behind name).before (utf16 "\n    ".toList), ?_, ?_, "\n    ".toList, [], isBlank_indent, by simp, ?_⟩
    · have hsplit : substitutionLines (name :: rest) ++ ['\x60'] = "\n    ".toList ++
          ('$' :: '\x7b' :: name.toList ++ '\x7d' :: (substitutionLines rest ++ ['\x60'])) := by
        simp [substitutionLines]
      rw [hsplit, read?_append plain_indent (by decide) (fun hlast => absurd hlast (by decide)),
        read?_substitution hname, hread]
      rfl
    · rw [← hnames]
      rfl
    · simp [before, behind]

/-- a literal is parsed when all behind its opening backtick is read -/
theorem parse?_eq_some_iff {cs : List Char} {literal : TemplateLiteral} :
    parse? ('\x60' :: cs) = some literal ↔ read? cs = some (literal, []) := by
  rw [parse?, if_pos (List.head?_cons), List.tail_cons]
  cases hread : read? cs with
  | none => simp
  | some found =>
    obtain ⟨other, rest⟩ := found
    cases rest <;> simp

/-- a literal that shows a text and has the variables behind it loses no ink, so that there is no escape in it -/
theorem noEscape_of_read? {text : List Char} {literal : TemplateLiteral}
    (h : read? ("\n    ".toList ++ text ++ substitutionLines literal.names ++ ['\x60']) = some (literal, []))
    (hshows : literal.Shows text) : '\\' ∉ text := by
  intro hescape
  obtain ⟨taken, htaken, hwithin⟩ := read?_ink h
  rw [List.append_nil] at htaken
  subst htaken
  have hfewer := hwithin.lt (by simp [hescape])
  have hclose : ink (utf16 ['\x60']) = 1 := by decide
  rw [utf16_append, utf16_append, utf16_append, ink_append, ink_append, ink_append, ink_of_isBlank isBlank_indent,
    ink_substitutionLines, hclose, ← hshows.ink_eq] at hfewer
  have := le_inkOf literal
  omega

/-- **When a text is read as it stands.** A text with substitutions behind it is a literal that shows this text, up to blank
characters around it, and has these substitutions, exactly when the text is plain and the variables have names. -/
theorem parse?_iff {text : List Char} {used : List String} (hreturn : '\r' ∉ text) :
    (∃ literal, parse? ('\x60' :: ("\n    ".toList ++ text ++ substitutionLines used ++ ['\x60'])) = some literal ∧
      literal.names = used ∧ literal.Shows text) ↔
    Plain text ∧ ∀ name ∈ used, isVariableName name.toList = true := by
  simp only [parse?_eq_some_iff]
  constructor
  · rintro ⟨literal, hread, rfl, hshows⟩
    refine ⟨by_contra fun hplain => ?_, isVariableName_of_read? hread⟩
    obtain ⟨front, tail, rfl, hfront, htail⟩ := exists_plain_front (noEscape_of_read? hread hshows) hplain
    have hreturn' : '\r' ∉ front := fun hm => hreturn (List.mem_append_left _ hm)
    have hbrace : (tail ++ (substitutionLines literal.names ++ ['\x60'])).head? ≠ some '\x7b' := by
      rcases htail with htail | ⟨more, rfl⟩
      · obtain ⟨more, rfl⟩ := List.head?_eq_some_iff.1 htail
        simp
      · simp
    rw [List.append_assoc, List.append_assoc, List.append_assoc, read?_append plain_indent (by decide)
      (fun hlast => absurd hlast (by decide)), read?_append hfront hreturn' fun _ => hbrace] at hread
    obtain ⟨⟨second, _⟩, hread, hsame⟩ := Option.map_eq_some_iff.1 hread
    cases hsame
    obtain ⟨⟨first, _⟩, hread, hsame⟩ := Option.map_eq_some_iff.1 hread
    cases hsame
    rcases htail with htail | ⟨more, rfl⟩
    · -- the literal is closed too early
      obtain ⟨more, rfl⟩ := List.head?_eq_some_iff.1 htail
      rw [List.cons_append, read?_close] at hread
      simpa using congrArg Prod.snd (Option.some.inj hread)
    · -- the first substitution comes too early
      have hink := hshows.ink_eq
      have hlost := one_le_ink (show Text.isBlank '$' = false by decide) ('\x7b' :: more)
      simp only [before, head_of_opening hread, List.append_nil, ink_append, ink_of_isBlank isBlank_indent,
        utf16_append] at hink
      omega
  · rintro ⟨hplain, hnames⟩
    obtain ⟨literal, hread, hused, lead, tail, hlead, htail, hhead⟩ := read?_substitutionLines hnames
    refine ⟨(literal.before (utf16 text)).before (utf16 "\n    ".toList), ?_, hused, "\n    ".toList, lead ++ tail,
      isBlank_indent, ?_, ?_⟩
    · have hbrace : (substitutionLines used ++ ['\x60']).head? ≠ some '\x7b' := by
        cases used <;> simp [substitutionLines]
      rw [List.append_assoc, List.append_assoc, read?_append plain_indent (by decide)
        (fun hlast => absurd hlast (by decide)), read?_append hplain hreturn fun _ => hbrace, hread]
      rfl
    · exact List.forall_mem_append.2 ⟨hlead, htail⟩
    · simp only [before, hhead, List.append_nil, utf16_append, List.append_assoc]

/-- escapes are read for what they stand for, so that a text with them is not read as it stands -/
example : parse? "\x60\\u0061\\x60 $\x7bB\x7d\\n\x60".toList = some ⟨[0x61, 0x60, 0x20], [("B", [10])]⟩ := by
  decide +kernel

end TemplateLiteral

end GraphGen
