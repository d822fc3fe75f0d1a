/-
What the question mark of Flow stands in front of.

A nullable type gets a question mark, which takes in no more than what stands up to the next union or intersection. So a type
with an operator outside of its brackets needs parentheses, and a scanner that counts brackets looks for one.

- `scanDepth`, `neverClamped`: the depth at which the scanner stands behind a text, and that it meets no closing bracket at depth
  zero. `operatorAt_append` says that this is the depth that it scans with.
- `Operand`: balanced, with no operator outside of the brackets. The scanner passes over operands, and is back at the depth
  where it was.
- `LiteralUnion`: several names between quotes, with bars between them and no parentheses around. The scanner finds a bar.
- `IsWritten`: an operand or a bare union of literals. All that Flow makes of such types is an operand again, whatever its flags
  (`WritesOperands`): between brackets of its own, or with the mark in front.

Main result:
- `IsWritten.spec`: the scanner tells the two apart, and with the parentheses that it asks for, the question mark covers the type.
-/
import GraphGen.Proofs.Dialect.Wrapping
import GraphGen.Proofs.Text.Brackets

namespace GraphGen

namespace Dialect.Flow

open Text

/-! ## The scanner -/

/-- the brackets that make the scanner's depth grow -/
def opens (c : Char) : Bool :=
  c == '(' || c == '\x7b' || c == '[' || c == '<'

/-- the brackets that make it fall -/
def closes (c : Char) : Bool :=
  c == ')' || c == '\x7d' || c == ']' || c == '>'

/-- the operators of unions and intersections -/
def isOperator (c : Char) : Bool :=
  c == '|' || c == '&'

/-- whether the character is neither a bracket nor an operator -/
def isPlain (c : Char) : Bool :=
  isBare c && !isOperator c

/-- the depth behind a character; a bracket that closes nothing leaves it at zero -/
def stepDepth (depth : Nat) (c : Char) : Nat :=
  if opens c then depth + 1 else if closes c then depth - 1 else depth

/-- the depth behind a text -/
def scanDepth (depth : Nat) (text : List Char) : Nat :=
  text.foldl stepDepth depth

/-- whether a space stands in front of what follows a text -/
def endsInSpace (afterSpace : Bool) (text : List Char) : Bool :=
  text.foldl (fun _ c => c == ' ') afterSpace

/-- no closing bracket is met at depth zero -/
def neverClamped : Nat → List Char → Bool
  | _, [] => true
  | depth, c :: rest => (!closes c || depth != 0) && neverClamped (stepDepth depth c) rest

/-- brackets are no operators, and no spaces -/
theorem of_opens {c : Char} (h : opens c = true) : isOperator c = false ∧ (c == ' ') = false ∧ closes c = false := by
  simp only [opens, Bool.or_eq_true, beq_iff_eq] at h
  rcases h with ((rfl | rfl) | rfl) | rfl <;> decide

theorem of_closes {c : Char} (h : closes c = true) : isOperator c = false ∧ (c == ' ') = false ∧ opens c = false := by
  simp only [closes, Bool.or_eq_true, beq_iff_eq] at h
  rcases h with ((rfl | rfl) | rfl) | rfl <;> decide

/-- **One step of the scanner:** an operator is found here, or behind the character at the depth there. -/
theorem operatorAt_cons (depth : Nat) (afterSpace : Bool) (c : Char) (rest : List Char) :
    operatorAt depth afterSpace (c :: rest) =
      ((isOperator c && depth == 0 && afterSpace) || operatorAt (stepDepth depth c) (c == ' ') rest) := by
  have hscan : operatorAt depth afterSpace (c :: rest) =
      if opens c then operatorAt (depth + 1) false rest
      else if closes c then operatorAt (depth - 1) false rest
      else if isOperator c && depth == 0 && afterSpace then true else operatorAt depth (c == ' ') rest := rfl
  rw [hscan, stepDepth]
  by_cases ho : opens c = true
  · obtain ⟨hoperator, hspace, -⟩ := of_opens ho
    simp only [ho, if_true, hoperator, hspace, Bool.false_and, Bool.false_or]
  · by_cases hc : closes c = true
    · obtain ⟨hoperator, hspace, -⟩ := of_closes hc
      simp only [ho, hc, if_true, hoperator, hspace, Bool.false_and, Bool.false_or]
      rfl
    · simp only [ho, hc]
      cases isOperator c && depth == 0 && afterSpace <;> rfl

theorem operatorAt_append (depth : Nat) (afterSpace : Bool) (left right : List Char) :
    operatorAt depth afterSpace (left ++ right) =
      (operatorAt depth afterSpace left || operatorAt (scanDepth depth left) (endsInSpace afterSpace left) right) := by
  induction left generalizing depth afterSpace with
  | nil => rfl
  | cons c rest ih => rw [List.cons_append, operatorAt_cons, operatorAt_cons, ih, Bool.or_assoc]; rfl

theorem neverClamped_append (depth : Nat) (left right : List Char) :
    neverClamped depth (left ++ right) = (neverClamped depth left && neverClamped (scanDepth depth left) right) := by
  induction left generalizing depth with
  | nil => rfl
  | cons c rest ih => rw [List.cons_append, neverClamped, neverClamped, ih, Bool.and_assoc]; rfl

/-! ## Bracketed texts -/

theorem of_closing? {opening closing : Char} (h : closing? opening = some closing) :
    opens opening = true ∧ closes closing = true := by
  unfold closing? at h
  split at h <;> cases h <;> decide

theorem of_not_mem_brackets {c : Char} (h : c ∉ brackets) : opens c = false ∧ closes c = false := by
  simp only [brackets, List.mem_cons, not_or] at h
  simp [opens, closes, h]

theorem stepDepth_of_not_mem {c : Char} (h : c ∉ brackets) (depth : Nat) : stepDepth depth c = depth := by
  obtain ⟨ho, hc⟩ := of_not_mem_brackets h
  simp [stepDepth, ho, hc]

theorem stepDepth_opening {opening closing : Char} (h : closing? opening = some closing) (depth : Nat) :
    stepDepth depth opening = depth + 1 := by
  simp [stepDepth, (of_closing? h).1]

theorem stepDepth_closing {opening closing : Char} (h : closing? opening = some closing) (depth : Nat) :
    stepDepth (depth + 1) closing = depth := by
  obtain ⟨-, hc⟩ := of_closing? h
  simp [stepDepth, hc, (of_closes hc).2.2]

section

variable {allowed : Char → Prop} {text : List Char}

/-- **Behind a bracketed text** the scanner is at the depth where it was. -/
theorem scanDepth_of_bracketed (h : Bracketed allowed text) (depth : Nat) : scanDepth depth text = depth := by
  induction h generalizing depth with
  | nil => rfl
  | bare hc _ _ ih =>
    rw [scanDepth, List.foldl_cons, stepDepth_of_not_mem hc]
    exact ih depth
  | @enclosed _ opening closing inner rest hc _ _ ihi ihr =>
    calc scanDepth depth (opening :: (inner ++ closing :: rest))
        = scanDepth (stepDepth (scanDepth (stepDepth depth opening) inner) closing) rest := by
          simp only [scanDepth, List.foldl_cons, List.foldl_append]
      _ = scanDepth depth rest := by rw [stepDepth_opening hc, ihi, stepDepth_closing hc]
      _ = depth := ihr depth

/-- and it closed no bracket that it had not met -/
theorem neverClamped_of_bracketed (h : Bracketed allowed text) (depth : Nat) : neverClamped depth text = true := by
  induction h generalizing depth with
  | nil => rfl
  | bare hc _ _ ih =>
    rw [neverClamped, stepDepth_of_not_mem hc, (of_not_mem_brackets hc).2]
    exact ih depth
  | enclosed hc hi _ ihi ihr =>
    obtain ⟨ho, -⟩ := of_closing? hc
    rw [neverClamped, (of_opens ho).2.2, stepDepth_opening hc, neverClamped_append, scanDepth_of_bracketed hi, neverClamped,
      stepDepth_closing hc, ihi, ihr]
    simp

/-- It finds no operator where it is inside of brackets, or where none stands outside of them. -/
theorem operatorAt_of_bracketed (h : Bracketed allowed text) {depth : Nat}
    (hd : 0 < depth ∨ ∀ c, allowed c → isOperator c = false) (afterSpace : Bool) :
    operatorAt depth afterSpace text = false := by
  induction h generalizing depth afterSpace with
  | nil => rfl
  | @bare _ c rest hc ha _ ih =>
    have hhere : (isOperator c && depth == 0) = false := by
      rcases hd with hpos | hnone
      · simp [Nat.ne_of_gt hpos]
      · simp [hnone _ ha]
    rw [operatorAt_cons, hhere, stepDepth_of_not_mem hc, ih hd]
    rfl
  | enclosed hc hi _ ihi ihr =>
    obtain ⟨ho, hcloses⟩ := of_closing? hc
    -- inside, the depth is positive
    rw [operatorAt_cons, (of_opens ho).1, stepDepth_opening hc, operatorAt_append, ihi (.inl (Nat.succ_pos _)),
      scanDepth_of_bracketed hi, operatorAt_cons, (of_closes hcloses).1, stepDepth_closing hc, ihr hd]
    rfl

end

/-! ## Types as they are written -/

/-- a balanced text with no operator outside of its brackets -/
def Operand (text : String) : Prop :=
  Bracketed (fun c => isOperator c = false) text.toList

/-- several names between quotes, with bars between them and nothing around -/
def LiteralUnion (text : String) : Prop :=
  ∃ names : List String, 2 ≤ names.length ∧ (∀ name ∈ names, Token.isName name = true) ∧
    text = String.intercalate " | " (names.map singleQuoted)

/-- an operand or a bare union of literals -/
def IsWritten (text : String) : Prop :=
  Operand text ∨ LiteralUnion text

namespace Operand

theorem balanced {text : String} (h : Operand text) : Balanced text :=
  Bracketed.mono h fun _ _ => trivial

theorem append {left right : String} (hl : Operand left) (hr : Operand right) : Operand (left ++ right) := by
  rw [Operand, String.toList_append]
  exact Bracketed.append hl hr

/-- a text without brackets and operators -/
theorem of_plain {text : String} (h : text.toList.all isPlain = true) : Operand text := by
  refine Bracketed.of_forall fun c hc => ?_
  simpa [isPlain, isBare] using List.all_eq_true.1 h c hc

/-- whatever is balanced may stand between brackets -/
theorem enclosed (front : String) (opening : Char) {closing : Char} {inner text : String} (hf : Operand front)
    (hc : closing? opening = some closing) (hi : Balanced inner)
    (ht : text.toList = front.toList ++ opening :: (inner.toList ++ [closing])) : Operand text := by
  rw [Operand, ht]
  exact Bracketed.append hf (.enclosed hc hi .nil)

/-- names have neither brackets nor operators -/
theorem of_isName {name : String} (h : Token.isName name = true) : Operand name := by
  refine of_plain (List.all_eq_true.2 fun c hc => ?_)
  have hrest := isNameRest_of_mem h hc
  have hnone : (('|' :: '&' :: brackets).all fun c => !Token.isNameRest c) = true := by decide
  have hother : c ∉ '|' :: '&' :: brackets := by
    intro hmem
    have hnot := List.all_eq_true.1 hnone c hmem
    rw [hrest] at hnot
    cases hnot
  simp only [List.mem_cons, not_or] at hother
  simp [isPlain, isBare, isOperator, hother]

theorem needsParentheses_eq {text : String} (h : Operand text) : needsParentheses text = false :=
  operatorAt_of_bracketed h (.inr fun _ hc => hc) false

end Operand

/-! ## Unions of literals -/

theorem operand_singleQuoted {name : String} (h : Token.isName name = true) : Operand (singleQuoted name) :=
  ((Operand.of_plain rfl).append (.of_isName h)).append (.of_plain rfl)

theorem balanced_bar : Balanced " | " :=
  .of_bare rfl

namespace LiteralUnion

variable {text : String}

theorem balanced (h : LiteralUnion text) : Balanced text := by
  obtain ⟨names, -, hnames, rfl⟩ := h
  refine balanced_bar.intercalate fun piece hp => ?_
  obtain ⟨name, hn, rfl⟩ := List.mem_map.1 hp
  exact (operand_singleQuoted (hnames name hn)).balanced

/-- the scanner finds the bar behind the first literal -/
theorem needsParentheses_eq (h : LiteralUnion text) : needsParentheses text = true := by
  obtain ⟨names, hseveral, hnames, rfl⟩ := h
  match names, hseveral with
  | first :: second :: rest, _ =>
    have hfirst := operand_singleQuoted (hnames first List.mem_cons_self)
    rw [List.map_cons, List.map_cons, String.intercalate_cons_cons, needsParentheses, String.toList_append,
      String.toList_append, List.append_assoc, operatorAt_append, scanDepth_of_bracketed hfirst]
    exact Bool.or_eq_true_iff.2 (.inr rfl)

end LiteralUnion

/-- literals are operands or a union -/
theorem isWritten_literals {names : List String} (h : ∀ name ∈ names, Token.isName name = true) :
    IsWritten (String.intercalate " | " (names.map singleQuoted)) := by
  match names, h with
  | [], _ => exact .inl .nil
  | [name], h =>
    rw [List.map_singleton, String.intercalate_singleton]
    exact .inl (operand_singleQuoted (h name List.mem_cons_self))
  | first :: second :: rest, h => exact .inr ⟨_, by simp, h, rfl⟩

/-! ## What the dialect makes of types -/

section

variable {exact readOnly : Bool}

theorem IsWritten.balanced {text : String} (h : IsWritten text) : Balanced text :=
  h.elim Operand.balanced LiteralUnion.balanced

theorem operand_list {item : String} (h : Balanced item) : Operand (list readOnly item) := by
  cases readOnly
  · exact .enclosed "Array" '<' (.of_plain rfl) rfl h (by simp [Flow.list])
  · exact .enclosed "$ReadOnlyArray" '<' (.of_plain rfl) rfl h (by simp [Flow.list])

theorem Operand.nullable_eq {type : String} (h : Operand type) : nullable type = "?" ++ type := by
  rw [Flow.nullable, h.needsParentheses_eq]
  rfl

theorem LiteralUnion.nullable_eq {type : String} (h : LiteralUnion type) : nullable type = "?(" ++ type ++ ")" := by
  rw [Flow.nullable, h.needsParentheses_eq]
  rfl

/-- the question mark stands in front of an operand -/
theorem IsWritten.exists_nullable_eq {type : String} (h : IsWritten type) :
    ∃ operand, nullable type = "?" ++ operand ∧ Operand operand := by
  rcases h with h | h
  · exact ⟨type, h.nullable_eq, h⟩
  · refine ⟨"(" ++ type ++ ")", ?_, .enclosed "" '(' .nil rfl h.balanced (by simp)⟩
    rw [h.nullable_eq, ← String.append_assoc, ← String.append_assoc]
    rfl

/-- and makes an operand of it -/
theorem operand_nullable {type : String} (h : IsWritten type) : Operand (nullable type) := by
  obtain ⟨operand, hmark, ho⟩ := h.exists_nullable_eq
  rw [hmark]
  exact .append (.of_plain rfl) ho

/-- parts between the braces of an object type -/
theorem operand_braced {parts : List String} (h : ∀ part ∈ parts, Balanced part) : Operand (braced exact parts) := by
  have hparts : Balanced (" " ++ String.intercalate ", " parts ++ " ") := by
    have hspace : Balanced " " := .of_bare rfl
    exact (hspace.append (.intercalate (.of_bare rfl) h)).append hspace
  cases exact
  · exact .enclosed "" '\x7b' .nil rfl hparts (by simp [braced])
  · have hbar : Balanced "|" := .of_bare rfl
    exact .enclosed "" '\x7b' .nil rfl ((hbar.append hparts).append hbar) (by simp [braced])

theorem operand_emptyObject : Operand (emptyObject exact) := by
  cases exact
  · exact .enclosed "" '\x7b' .nil rfl (show Balanced "" from .nil) rfl
  · exact .enclosed "" '\x7b' .nil rfl (show Balanced "||" from .of_bare rfl) rfl

/-- an object type whose keys are names -/
theorem operand_object {members : List ObjectMember}
    (h : ∀ member ∈ members, Token.isName member.key = true ∧ Balanced member.type) :
    Operand (object exact readOnly members) := by
  unfold object
  split
  · exact operand_emptyObject
  · refine operand_braced fun part hp => ?_
    obtain ⟨member, hm, rfl⟩ := List.mem_map.1 hp
    obtain ⟨hkey, htype⟩ := h member hm
    have hvariance : Balanced (if readOnly then "+" else "") := by cases readOnly <;> exact .of_bare rfl
    have hoptional : Balanced (if member.optional then "?" else "") := by
      cases member.optional <;> exact .of_bare rfl
    have hmarked := (hvariance.append (Operand.of_isName hkey).balanced).append hoptional
    exact (hmarked.append (.of_bare rfl)).append htype

theorem operand_pick {type : String} {names : List String} (ht : Operand type)
    (hn : ∀ name ∈ names, Token.isName name = true) : Operand ((flow exact readOnly).pick type names) := by
  have hnames : ∀ part ∈ names.map (· ++ ": *"), Balanced part := by
    intro part hp
    obtain ⟨name, hm, rfl⟩ := List.mem_map.1 hp
    exact (Operand.of_isName (hn name hm)).balanced.append (.of_bare rfl)
  have hbraced : Operand (braced exact (names.map (· ++ ": *"))) := operand_braced hnames
  have hinner : Balanced (type ++ ", " ++ braced exact (names.map (· ++ ": *"))) :=
    (ht.balanced.append (.of_bare rfl)).append hbraced.balanced
  exact .enclosed "$Pick" '<' (.of_plain rfl) rfl hinner (by simp [flow])

theorem operand_propertyType {type name : String} (ht : Operand type) (hn : Token.isName name = true) :
    Operand ((flow exact readOnly).propertyType type name) := by
  have hinner : Balanced (type ++ ", " ++ singleQuoted name) :=
    (ht.balanced.append (.of_bare rfl)).append (operand_singleQuoted hn).balanced
  exact .enclosed "$ElementType" '<' (.of_plain rfl) rfl hinner (by simp [flow, singleQuoted])

/-- parts that are spread into one object type -/
theorem operand_intersection {parts : List String} (h : ∀ part ∈ parts, Operand part) :
    Operand (intersection exact parts) := by
  match parts, h with
  | [], _ => exact operand_emptyObject
  | [part], h => exact h part List.mem_cons_self
  | first :: second :: rest, h =>
    refine operand_braced fun part hp => ?_
    obtain ⟨whole, hm, rfl⟩ := List.mem_map.1 hp
    exact .append (.of_bare rfl) (h whole hm).balanced

/-- several alternatives stand between parentheses -/
theorem operand_union {members : List String} (h : ∀ member ∈ members, Operand member) :
    Operand ((flow exact readOnly).union members) := by
  match members, h with
  | [], _ => exact operand_emptyObject
  | [member], h => exact h member List.mem_cons_self
  | first :: second :: rest, h =>
    exact .enclosed "" '(' .nil rfl (balanced_bar.intercalate fun member hm => (h member hm).balanced)
      (by simp [flow, parenthesized])

end

/-- the types of the dialect are operands when what they are made of is written, and its literals stay written -/
structure WritesOperands (dialect : Dialect) : Prop where
  list : ∀ {item : String}, IsWritten item → Operand (dialect.encoder.list item)
  nullable : ∀ {type : String}, IsWritten type → Operand (dialect.encoder.nullable type)
  required : ∀ {type : String}, IsWritten type → IsWritten (dialect.encoder.required type)
  stringLiteral : ∀ {name : String}, Token.isName name = true → Operand (dialect.stringLiteral name)
  literals : ∀ {names : List String}, (∀ name ∈ names, Token.isName name = true) →
    IsWritten (String.intercalate " | " (names.map dialect.stringLiteral))
  object : ∀ {members : List ObjectMember}, (∀ member ∈ members, Token.isName member.key = true ∧ IsWritten member.type) →
    Operand (dialect.object members)
  pick : ∀ {type : String} {names : List String}, Operand type → (∀ name ∈ names, Token.isName name = true) →
    Operand (dialect.pick type names)
  propertyType : ∀ {type name : String}, Operand type → Token.isName name = true → Operand (dialect.propertyType type name)
  intersection : ∀ {parts : List String}, (∀ part ∈ parts, Operand part) → Operand (dialect.intersection parts)
  union : ∀ {members : List String}, (∀ member ∈ members, Operand member) → Operand (dialect.union members)

/-- **Flow writes operands,** whatever its flags. -/
theorem writesOperands (exact readOnly : Bool) : WritesOperands (flow exact readOnly) where
  list h := operand_list h.balanced
  nullable := operand_nullable
  required := id
  stringLiteral := operand_singleQuoted
  literals := isWritten_literals
  object h := operand_object fun member hm => ⟨(h member hm).1, (h member hm).2.balanced⟩
  pick := operand_pick
  propertyType := operand_propertyType
  intersection := operand_intersection
  union := operand_union

/-! ## What the question mark covers -/

/-- **The scanner tells operands from bare unions.** The brackets of a written type are balanced, and the scanner never meets one
that it has not opened. It finds an operator exactly in unions of literals, and these get parentheses. In any case the question
mark stands in front of an operand. -/
theorem IsWritten.spec {text : String} (h : IsWritten text) :
    Balanced text ∧ neverClamped 0 text.toList = true ∧ (needsParentheses text = true ↔ LiteralUnion text) ∧
      (LiteralUnion text → nullable text = "?(" ++ text ++ ")") ∧
      (¬ LiteralUnion text → nullable text = "?" ++ text) ∧
      ∃ operand, nullable text = "?" ++ operand ∧ Operand operand := by
  refine ⟨h.balanced, neverClamped_of_bracketed h.balanced 0, ?_, LiteralUnion.nullable_eq, fun hnot => ?_,
    h.exists_nullable_eq⟩
  · refine ⟨fun hfound => h.resolve_left fun ho => ?_, LiteralUnion.needsParentheses_eq⟩
    exact Bool.false_ne_true (ho.needsParentheses_eq.symm.trans hfound)
  · exact (h.resolve_right hnot).nullable_eq

end Dialect.Flow

end GraphGen
