/-
Reading on when more follows.

A reader takes what it reads off the front of the lexemes and looks one token ahead. When it has read some lexemes and more
are put behind them, it reads the same, provided that the first of the new ones is not what it would have gone on with: here
they begin with a word that starts a definition.

- `Reader.Plain`: a reader does not look at the places of lexemes, and leaves no more lexemes than it was given.
- `Reader.Local`: a plain reader that reads the same when lexemes that begin with the word are put behind. A reader may be
  allowed to fail instead where it had read everything; what follows then reads nothing more.
- `Reader.Eats`: a reader that takes one lexeme at least, so that it can be repeated.

Both properties go over from the parts of a reader to the whole (`Local.bind`, `Local.peek`). Repetition and nesting are
bounded by the number of lexemes, which is greater when more follow; the bound is never met (`repeatUpTo_ahead`, by induction
on it), and a reader that nests deeper reads what one that nests less deep does (`Extends`).

Main results, for the forms that documents and schemas share:
- `local_value`, `local_typeExpr`, `local_directives`, `local_optionalBlock`, `local_separatedNames`.
-/
import Mathlib.Data.List.Basic
import GraphGen.Syntax.Reader

namespace GraphGen

/-- a lexeme without its place -/
def Lexeme.bare (lexeme : Lexeme) : Lexeme := ⟨lexeme.token, default⟩

/-- the first lexeme is a word -/
def BeginsWith (word : String) (lexemes : List Lexeme) : Prop :=
  ∃ position rest, lexemes = ⟨.name word, position⟩ :: rest

namespace Reader

variable {α β : Type} {word : String} {mayFail : Prop}

/-! ## Readers and their parts -/

/-- the reader does not look at places, and leaves no more lexemes than it was given -/
structure Plain (r : Reader α) : Prop where
  shrinks : ∀ {l x rest}, r l = some (x, rest) → rest.length ≤ l.length
  blind : ∀ l, r (l.map Lexeme.bare) = (r l).map (Prod.map id (List.map Lexeme.bare))

/-- the reader reads the same when lexemes that begin with the word are put behind; or it may fail, where it had read all -/
structure Local (word : String) (mayFail : Prop) (r : Reader α) : Prop extends Plain r where
  ahead : ∀ {l x rest more}, BeginsWith word more → r l = some (x, rest) →
    r (l ++ more) = some (x, rest ++ more) ∨ (mayFail ∧ rest = [] ∧ r (l ++ more) = none)

/-- the reader takes one lexeme at least -/
structure Eats (r : Reader α) : Prop where
  takes : ∀ {l x rest}, r l = some (x, rest) → rest.length < l.length

/-- the other reader reads whatever this one reads -/
structure Extends (r other : Reader α) : Prop where
  reads : ∀ {l p}, r l = some p → other l = some p

theorem bind_apply (r : Reader α) (f : α → Reader β) (l : List Lexeme) :
    (r >>= f) l = (r l).bind fun p => f p.1 p.2 := rfl

theorem bind_eq_some_iff {r : Reader α} {f : α → Reader β} {l rest : List Lexeme} {y : β} :
    (r >>= f) l = some (y, rest) ↔ ∃ x between, r l = some (x, between) ∧ f x between = some (y, rest) := by
  rw [bind_apply, Option.bind_eq_some_iff]
  exact ⟨fun ⟨⟨x, between⟩, h⟩ => ⟨x, between, h⟩, fun ⟨x, between, h⟩ => ⟨(x, between), h⟩⟩

theorem peek_bind_apply (f : Option Token → Reader α) (l : List Lexeme) :
    (peek >>= f) l = f (l.head?.map Lexeme.token) l := rfl

theorem head?_bare (l : List Lexeme) : (l.map Lexeme.bare).head?.map Lexeme.token = l.head?.map Lexeme.token := by
  cases l <;> rfl

/-! ### Plain readers -/

theorem plain_pure (x : α) : Plain (pure x : Reader α) where
  shrinks h := by
    cases h
    exact Nat.le_refl _
  blind _ := rfl

theorem plain_failure : Plain (failure : Reader α) where
  shrinks h := nomatch h
  blind _ := rfl

theorem Plain.bind {r : Reader α} {f : α → Reader β} (hr : Plain r) (hf : ∀ x, Plain (f x)) : Plain (r >>= f) where
  shrinks h := by
    obtain ⟨x, between, hx, hrest⟩ := bind_eq_some_iff.1 h
    exact Nat.le_trans ((hf x).shrinks hrest) (hr.shrinks hx)
  blind l := by
    rw [bind_apply, bind_apply, hr.blind]
    cases r l with
    | none => rfl
    | some p => exact (hf p.1).blind p.2

theorem Plain.peek {f : Option Token → Reader α} (hf : ∀ token, Plain (f token)) : Plain (Reader.peek >>= f) where
  shrinks h := (hf _).shrinks h
  blind l := by
    rw [peek_bind_apply, peek_bind_apply, head?_bare]
    exact (hf _).blind l

/-- a reader that takes a lexeme must not look at its place -/
theorem Plain.next {f : Lexeme → Reader α} (hf : ∀ lexeme, Plain (f lexeme))
    (htoken : ∀ lexeme, f lexeme.bare = f lexeme) : Plain (Reader.next >>= f) where
  shrinks {l _ _} h := by
    cases l with
    | nil => cases h
    | cons lexeme l => exact Nat.le_succ_of_le ((hf lexeme).shrinks h)
  blind l := by
    cases l with
    | nil => rfl
    | cons lexeme l =>
      show f lexeme.bare (l.map Lexeme.bare) = (f lexeme l).map _
      rw [htoken]
      exact (hf lexeme).blind l

/-! ### Local readers -/

theorem local_pure (x : α) : Local word mayFail (pure x : Reader α) where
  toPlain := plain_pure x
  ahead _ h := by
    cases h
    exact Or.inl rfl

theorem local_failure : Local word mayFail (failure : Reader α) where
  toPlain := plain_failure
  ahead _ h := nomatch h

theorem Local.strict {r : Reader α} (h : Local word False r) {l rest more : List Lexeme} {x : α}
    (hm : BeginsWith word more) (hr : r l = some (x, rest)) : r (l ++ more) = some (x, rest ++ more) :=
  (h.ahead hm hr).resolve_right fun hfail => hfail.1

theorem Local.bind {r : Reader α} {f : α → Reader β} (hr : Local word mayFail r) (hf : ∀ x, Local word mayFail (f x)) :
    Local word mayFail (r >>= f) where
  toPlain := hr.toPlain.bind fun x => (hf x).toPlain
  ahead hm h := by
    obtain ⟨x, between, hx, hrest⟩ := bind_eq_some_iff.1 h
    rw [bind_apply]
    rcases hr.ahead hm hx with hmore | ⟨hmay, rfl, hmore⟩
    · rw [hmore]
      exact (hf x).ahead hm hrest
    · have hnil := (hf x).shrinks hrest
      rw [hmore]
      exact Or.inr ⟨hmay, List.eq_nil_of_length_eq_zero (Nat.le_zero.1 hnil), rfl⟩

theorem Local.map {r : Reader α} (hr : Local word mayFail r) (f : α → β) : Local word mayFail (f <$> r) := by
  rw [map_eq_pure_bind]
  exact hr.bind fun x => local_pure (f x)

theorem Local.next {f : Lexeme → Reader α} (hf : ∀ lexeme, Local word mayFail (f lexeme))
    (htoken : ∀ lexeme, f lexeme.bare = f lexeme) : Local word mayFail (Reader.next >>= f) where
  toPlain := .next (fun lexeme => (hf lexeme).toPlain) htoken
  ahead {l _ _ _} hm h := by
    cases l with
    | nil => cases h
    | cons lexeme l => exact (hf lexeme).ahead hm h

/-- a reader that looks at the next token must do with the word what it does at the end -/
theorem Local.peek {f : Option Token → Reader α} (hf : ∀ token, Local word mayFail (f token))
    (hend : ∀ {x rest more}, BeginsWith word more → f none [] = some (x, rest) →
      f (some (.name word)) more = some (x, more) ∨ (mayFail ∧ f (some (.name word)) more = none)) :
    Local word mayFail (Reader.peek >>= f) where
  toPlain := .peek fun token => (hf token).toPlain
  ahead {l _ rest more} hm h := by
    cases l with
    | nil =>
      have hnil : rest = [] := List.eq_nil_of_length_eq_zero (Nat.le_zero.1 ((hf none).shrinks h))
      obtain ⟨position, later, rfl⟩ := hm
      rw [hnil]
      rcases hend ⟨position, later, rfl⟩ h with hmore | ⟨hmay, hmore⟩
      · exact Or.inl hmore
      · exact Or.inr ⟨hmay, rfl, hmore⟩
    | cons lexeme l => exact (hf (some lexeme.token)).ahead hm h

/-! ### Readers that take something -/

theorem Eats.next {f : Lexeme → Reader α} (hf : ∀ lexeme, Plain (f lexeme)) : Eats (Reader.next >>= f) where
  takes {l _ _} h := by
    cases l with
    | nil => cases h
    | cons lexeme l => exact Nat.lt_succ_of_le ((hf lexeme).shrinks h)

/-- both at once, for readers that start with a lexeme -/
theorem local_eats_next {f : Lexeme → Reader α} (hf : ∀ lexeme, Local word mayFail (f lexeme))
    (htoken : ∀ lexeme, f lexeme.bare = f lexeme) :
    Local word mayFail (Reader.next >>= f) ∧ Eats (Reader.next >>= f) :=
  ⟨.next hf htoken, .next fun lexeme => (hf lexeme).toPlain⟩

theorem Eats.bind {r : Reader α} {f : α → Reader β} (hr : Eats r) (hf : ∀ x, Plain (f x)) : Eats (r >>= f) where
  takes h := by
    obtain ⟨x, between, hx, hrest⟩ := bind_eq_some_iff.1 h
    exact Nat.lt_of_le_of_lt ((hf x).shrinks hrest) (hr.takes hx)

/-- what comes first may take nothing -/
theorem Eats.after {r : Reader α} {f : α → Reader β} (hr : Plain r) (hf : ∀ x, Eats (f x)) : Eats (r >>= f) where
  takes h := by
    obtain ⟨x, between, hx, hrest⟩ := bind_eq_some_iff.1 h
    exact Nat.lt_of_lt_of_le ((hf x).takes hrest) (hr.shrinks hx)

theorem Eats.map {r : Reader α} (hr : Eats r) (f : α → β) : Eats (f <$> r) := by
  rw [map_eq_pure_bind]
  exact hr.bind fun x => plain_pure (f x)

/-! ## Single tokens -/

theorem local_accept {token : Token} (h : token ≠ .name word) : Local word mayFail (accept token) := by
  refine .peek (fun found => ?_) fun {x rest more} hm hend => ?_
  · split
    · exact .next (fun _ => local_pure true) fun _ => rfl
    · exact local_pure false
  · rw [if_neg nofun] at hend
    cases hend
    rw [if_neg fun he => h (Option.some.inj he).symm]
    exact Or.inl rfl

theorem local_expect {token : Token} (h : token ≠ .name word) : Local word mayFail (expect token) := by
  refine (local_accept h).bind fun found => ?_
  split
  · exact local_failure
  · exact local_pure ()

theorem local_expectPunct (c : Char) : Local word mayFail (expectPunct c) :=
  local_expect nofun

theorem plain_expectPunct (c : Char) : Plain (expectPunct c) :=
  (@local_expectPunct "" True c).toPlain

/-- a token that was expected stood in front -/
theorem expect_ok {token : Token} {l rest : List Lexeme} {x : Unit} (h : expect token l = some (x, rest)) :
    ∃ position, l = ⟨token, position⟩ :: rest := by
  obtain ⟨found, between, hfound, hrest⟩ := bind_eq_some_iff.1 h
  unfold accept at hfound
  rw [peek_bind_apply] at hfound
  split at hfound
  · rename_i hhead
    cases l with
    | nil => cases hhead
    | cons lexeme l =>
      cases hfound
      cases hrest
      exact ⟨lexeme.position, by rw [← Option.some.inj hhead]⟩
  · cases hfound
    cases hrest

theorem eats_expectPunct (c : Char) : Eats (expectPunct c) where
  takes h := by
    obtain ⟨position, rfl⟩ := expect_ok h
    exact Nat.lt_succ_self _

theorem local_anyName : Local word mayFail anyName := by
  refine .next (fun lexeme => ?_) fun _ => rfl
  split
  · exact local_pure _
  · exact local_failure

theorem plain_anyName : Plain anyName :=
  (@local_anyName "" True).toPlain

theorem eats_anyName : Eats anyName := by
  refine Eats.next fun lexeme => ?_
  split
  · exact plain_pure _
  · exact plain_failure

theorem local_optionalString : Local word mayFail optionalString := by
  refine .peek (fun found => ?_) fun {x rest more} hm hend => ?_
  · split
    · exact .next (fun _ => local_pure _) fun _ => rfl
    · exact local_pure none
  · cases hend
    exact Or.inl rfl

/-! ## Repetition -/

section Repetition

variable {asks : Token → Bool} {item : Reader α}

theorem repeatUpTo_nil (asks : Token → Bool) (item : Reader α) (n : Nat) : repeatUpTo asks item n [] = some ([], []) := by
  cases n <;> rfl

theorem repeatUpTo_cons (asks : Token → Bool) (item : Reader α) (n : Nat) (lexeme : Lexeme) (l : List Lexeme) :
    repeatUpTo asks item (n + 1) (lexeme :: l) =
      if asks lexeme.token then
        (do
          let found ← item
          let more ← repeatUpTo asks item n
          pure (found :: more) : Reader (List α)) (lexeme :: l)
      else some ([], lexeme :: l) := by
  rw [repeatUpTo, peek_bind_apply]
  show (if asks lexeme.token then _ else _ : Reader (List α)) _ = _
  split <;> rfl

theorem plain_repeatUpTo (asks : Token → Bool) (hi : Plain item) (n : Nat) : Plain (repeatUpTo asks item n) := by
  induction n with
  | zero => exact plain_pure []
  | succ n ih =>
    refine .peek fun token => ?_
    split
    · split
      · exact hi.bind fun _ => ih.bind fun _ => plain_pure _
      · exact plain_pure []
    · exact plain_pure []

/-- a repetition that the word does not ask to go on stops before it -/
theorem repeatUpTo_stop {more : List Lexeme} (item : Reader α) (hm : BeginsWith word more)
    (hw : asks (.name word) = false) (n : Nat) : repeatUpTo asks item n more = some ([], more) := by
  obtain ⟨position, later, rfl⟩ := hm
  cases n with
  | zero => rfl
  | succ n => rw [repeatUpTo_cons, if_neg (by rw [hw]; nofun)]

/-- **Items are read the same when more follows.** The repetition must stop before the word, or before the end. -/
theorem repeatUpTo_ahead (hi : Local word mayFail item) (he : Eats item) {n n' : Nat} {l rest more : List Lexeme}
    {items : List α} (hn : l.length ≤ n) (hn' : (l ++ more).length ≤ n') (hm : BeginsWith word more)
    (h : repeatUpTo asks item n l = some (items, rest)) (hstop : asks (.name word) = false ∨ rest ≠ []) :
    repeatUpTo asks item n' (l ++ more) = some (items, rest ++ more) ∨
      (mayFail ∧ rest = [] ∧ repeatUpTo asks item n' (l ++ more) = none) := by
  induction n generalizing n' l items with
  | zero =>
    obtain rfl : l = [] := List.eq_nil_of_length_eq_zero (Nat.le_zero.1 hn)
    rw [repeatUpTo_nil] at h
    cases h
    exact Or.inl (repeatUpTo_stop item hm (hstop.resolve_right fun hne => hne rfl) n')
  | succ n ih =>
    cases l with
    | nil =>
      rw [repeatUpTo_nil] at h
      cases h
      exact Or.inl (repeatUpTo_stop item hm (hstop.resolve_right fun hne => hne rfl) n')
    | cons lexeme l =>
      rw [List.cons_append, List.length_cons] at hn'
      obtain ⟨n', rfl⟩ : ∃ k, n' = k + 1 := ⟨n' - 1, by omega⟩
      rw [List.cons_append, repeatUpTo_cons]
      rw [repeatUpTo_cons] at h
      split at h
      · rename_i hasks
        rw [if_pos hasks, ← List.cons_append, bind_apply]
        obtain ⟨x, between, hx, hrest⟩ := bind_eq_some_iff.1 h
        obtain ⟨others, last, hothers, hlast⟩ := bind_eq_some_iff.1 hrest
        cases hlast
        rcases hi.ahead hm hx with hmore | ⟨hmay, rfl, hmore⟩
        · have hlen := he.takes hx
          simp only [List.length_cons, List.length_append] at hlen hn hn'
          rw [hmore]
          have hbound : (between ++ more).length ≤ n' := by
            rw [List.length_append]
            omega
          rcases ih (by omega) hbound hothers with hgo | ⟨hmay, hnil, hgo⟩
          · exact Or.inl (by rw [Option.bind_some, bind_apply, hgo]; rfl)
          · exact Or.inr ⟨hmay, hnil, by rw [Option.bind_some, bind_apply, hgo]; rfl⟩
        · rw [repeatUpTo_nil] at hothers
          cases hothers
          exact Or.inr ⟨hmay, rfl, by rw [hmore]; rfl⟩
      · rename_i hasks
        cases h
        exact Or.inl (if_neg hasks)

theorem repeatWhile_apply (asks : Token → Bool) (item : Reader α) (l : List Lexeme) :
    repeatWhile asks item l = repeatUpTo asks item l.length l := rfl

theorem plain_repeatWhile (asks : Token → Bool) (hi : Plain item) : Plain (repeatWhile asks item) where
  shrinks h := (plain_repeatUpTo asks hi _).shrinks h
  blind l := by
    rw [repeatWhile_apply, repeatWhile_apply, List.length_map]
    exact (plain_repeatUpTo asks hi _).blind l

theorem local_repeatWhile (hi : Local word mayFail item) (he : Eats item) (hw : asks (.name word) = false) :
    Local word mayFail (repeatWhile asks item) where
  toPlain := plain_repeatWhile asks hi.toPlain
  ahead hm h := repeatUpTo_ahead hi he (Nat.le_refl _) (Nat.le_refl _) hm h (Or.inl hw)

theorem local_itemsUntil (closing : Char) (hi : Local word mayFail item) (he : Eats item) :
    Local word mayFail (itemsUntil closing item) where
  toPlain := (plain_repeatWhile _ hi.toPlain).bind fun _ => (plain_expectPunct closing).bind fun _ => plain_pure _
  ahead {l _ rest more} hm h := by
    obtain ⟨items, between, hitems, hrest⟩ := bind_eq_some_iff.1 h
    obtain ⟨x, last, hclose, hlast⟩ := bind_eq_some_iff.1 hrest
    cases hlast
    obtain ⟨position, rfl⟩ := expect_ok hclose
    -- the closing bracket is left, so that the items did not come to the end
    rcases repeatUpTo_ahead hi he (Nat.le_refl _) (Nat.le_refl _) hm hitems (Or.inr (List.cons_ne_nil _ _)) with
      hmore | ⟨-, hnil, -⟩
    · refine Or.inl ?_
      rw [itemsUntil, bind_apply, repeatWhile_apply, hmore, Option.bind_some, bind_apply,
        (local_expectPunct closing).strict hm hclose]
      rfl
    · cases hnil

theorem local_block (opening closing : Char) (hi : Local word mayFail item) (he : Eats item) :
    Local word mayFail (block opening closing item) := by
  refine (local_expectPunct opening).bind fun _ => (local_itemsUntil closing hi he).bind fun items => ?_
  split
  · exact local_failure
  · exact local_pure items

theorem local_optionalBlock (opening closing : Char) (hi : Local word mayFail item) (he : Eats item) :
    Local word mayFail (optionalBlock opening closing item) := by
  refine .peek (fun found => ?_) fun {x rest more} hm hend => ?_
  · split
    · exact local_block opening closing hi he
    · exact local_pure []
  · rw [if_neg nofun] at hend
    cases hend
    rw [if_neg nofun]
    exact Or.inl rfl

theorem local_separatedNames (separator : Char) : Local word mayFail (separatedNames separator) := by
  refine (local_accept (by simp)).bind fun _ => local_anyName.bind fun first => ?_
  refine (local_repeatWhile ?_ ?_ (by simp)).bind fun more => local_pure _
  · exact (local_expectPunct separator).bind fun _ => local_anyName
  · exact (eats_expectPunct separator).bind fun _ => plain_anyName

end Repetition

/-! ## Deeper nesting -/

theorem Extends.refl (r : Reader α) : Extends r r := ⟨id⟩

theorem Extends.trans {r other third : Reader α} (h : Extends r other) (h' : Extends other third) : Extends r third :=
  ⟨fun hr => h'.reads (h.reads hr)⟩

theorem Extends.bind {r other : Reader α} {f g : α → Reader β} (hr : Extends r other) (hf : ∀ x, Extends (f x) (g x)) :
    Extends (r >>= f) (other >>= g) where
  reads h := by
    obtain ⟨x, between, hx, hrest⟩ := bind_eq_some_iff.1 h
    exact bind_eq_some_iff.2 ⟨x, between, hr.reads hx, (hf x).reads hrest⟩

theorem Extends.map {r other : Reader α} (hr : Extends r other) (f : α → β) : Extends (f <$> r) (f <$> other) := by
  rw [map_eq_pure_bind, map_eq_pure_bind]
  exact hr.bind fun x => .refl (pure (f x))

theorem Extends.repeatUpTo {item other : Reader α} (hi : Extends item other) (asks : Token → Bool) (n : Nat) :
    Extends (repeatUpTo asks item n) (repeatUpTo asks other n) := by
  induction n with
  | zero => exact .refl _
  | succ n ih =>
    refine .bind (.refl peek) fun found => ?_
    split
    · split
      · exact hi.bind fun _ => ih.bind fun _ => .refl _
      · exact .refl _
    · exact .refl _

theorem Extends.itemsUntil {item other : Reader α} (hi : Extends item other) (closing : Char) :
    Extends (itemsUntil closing item) (itemsUntil closing other) := by
  refine .bind ?_ fun _ => .refl _
  exact .bind (.refl left) fun n => hi.repeatUpTo _ n

/-! ## Values and types -/

section Shared

theorem local_valueUpTo (constant : Bool) (depth : Nat) :
    Local word mayFail (valueUpTo constant depth) ∧ Eats (valueUpTo constant depth) := by
  induction depth with
  | zero => exact ⟨local_failure, ⟨nofun⟩⟩
  | succ depth ih =>
    have hfield : Local word mayFail (do
        let name ← anyName
        expectPunct ':'
        let value ← valueUpTo constant depth
        pure (name, value)) :=
      local_anyName.bind fun _ => (local_expectPunct _).bind fun _ => ih.1.bind fun _ => local_pure _
    refine local_eats_next (fun lexeme => ?_) fun _ => rfl
    cases lexeme.token with
    | name text => exact local_pure _
    | int n => exact local_pure _
    | float d => exact local_pure _
    | string text => exact local_pure _
    | ellipsis => exact local_failure
    | punct opening =>
      dsimp only
      split
      · split
        · exact local_failure
        · exact local_anyName.map _
      · split
        · exact (local_itemsUntil _ ih.1 ih.2).map _
        · split
          · refine (local_itemsUntil _ hfield ?_).map _
            exact eats_anyName.bind fun _ => (plain_expectPunct _).bind fun _ => ih.1.toPlain.bind fun _ => plain_pure _
          · exact local_failure

theorem valueUpTo_extends (constant : Bool) (depth : Nat) :
    Extends (valueUpTo constant depth) (valueUpTo constant (depth + 1)) := by
  induction depth with
  | zero => exact ⟨nofun⟩
  | succ depth ih =>
    rw [valueUpTo, valueUpTo]
    refine .bind (.refl next) fun lexeme => ?_
    cases lexeme.token with
    | name text => exact .refl _
    | int n => exact .refl _
    | float d => exact .refl _
    | string text => exact .refl _
    | ellipsis => exact .refl _
    | punct opening =>
      dsimp only
      split
      · exact .refl _
      · split
        · exact (ih.itemsUntil _).map _
        · split
          · refine .map (.itemsUntil ?_ _) _
            exact .bind (.refl _) fun _ => .bind (.refl _) fun _ => ih.bind fun _ => .refl _
          · exact .refl _

/-- **A bound on the depth that covers all lexemes makes no difference,** whether or not more follow. -/
theorem local_bounded {r : Nat → Reader α} (hr : ∀ depth, Local word False (r depth))
    (hdeep : ∀ depth, Extends (r depth) (r (depth + 1))) : Local word mayFail (do r ((← left) + 1)) where
  shrinks {l _ _} h := (hr (l.length + 1)).shrinks h
  blind l := by
    show r ((l.map Lexeme.bare).length + 1) _ = _
    rw [List.length_map]
    exact (hr (l.length + 1)).blind l
  ahead {l _ _ more} hm h := by
    have hmono : ∀ depth more, Extends (r depth) (r (depth + more)) := by
      intro depth more
      induction more with
      | zero => exact .refl _
      | succ more ih => exact ih.trans (hdeep _)
    have hmore := (hmono (l.length + 1) more.length).reads ((hr (l.length + 1)).strict hm h)
    refine Or.inl ?_
    show r ((l ++ more).length + 1) _ = _
    rw [List.length_append, Nat.add_right_comm]
    exact hmore

theorem local_value (constant : Bool) : Local word mayFail (value constant) :=
  local_bounded (fun depth => (local_valueUpTo constant depth).1) (valueUpTo_extends constant)

theorem local_typeUpTo (depth : Nat) : Local word mayFail (typeUpTo depth) ∧ Eats (typeUpTo depth) := by
  induction depth with
  | zero => exact ⟨local_failure, ⟨nofun⟩⟩
  | succ depth ih =>
    have hmark : ∀ inner, Local word mayFail (do
        if ← accept (.punct '!') then pure (TypeExpr.nonNull inner) else pure inner) := by
      refine fun inner => (local_accept (by simp)).bind fun found => ?_
      split
      · exact local_pure _
      · exact local_pure inner
    refine local_eats_next (fun lexeme => ?_) fun _ => rfl
    dsimp only
    split
    · exact (local_pure _).bind hmark
    · exact ih.1.bind fun _ => (local_expectPunct _).bind fun _ => (local_pure _).bind hmark
    · exact local_failure.bind hmark

theorem typeUpTo_extends (depth : Nat) : Extends (typeUpTo depth) (typeUpTo (depth + 1)) := by
  induction depth with
  | zero => exact ⟨nofun⟩
  | succ depth ih =>
    rw [typeUpTo, typeUpTo]
    refine .bind (.refl next) fun lexeme => ?_
    dsimp only
    split
    · exact .refl _
    · exact ih.bind fun _ => .refl _
    · exact .refl _

theorem local_typeExpr : Local word mayFail typeExpr :=
  local_bounded (fun depth => (local_typeUpTo depth).1) typeUpTo_extends

theorem local_optionalDefault : Local word mayFail optionalDefault := by
  refine (local_accept (by simp)).bind fun found => ?_
  split
  · exact (local_value true).map _
  · exact local_pure none

theorem local_arguments : Local word mayFail arguments := by
  refine local_optionalBlock _ _ ?_ ?_
  · exact local_anyName.bind fun _ => (local_expectPunct _).bind fun _ => (local_value _).bind fun _ => local_pure _
  · exact eats_anyName.bind fun _ => (plain_expectPunct _).bind fun _ =>
      (@local_value "" True _).toPlain.bind fun _ => plain_pure _

theorem local_directives : Local word mayFail directives := by
  refine local_repeatWhile ?_ ?_ (by simp)
  · exact (local_expectPunct _).bind fun _ => local_anyName.bind fun _ => local_arguments.bind fun _ => local_pure _
  · exact (eats_expectPunct _).bind fun _ => plain_anyName.bind fun _ =>
      (@local_arguments "" True).toPlain.bind fun _ => plain_pure _

end Shared

end Reader

end GraphGen
