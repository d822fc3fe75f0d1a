/-
Lexing a text that goes on.

Lexing looks ahead to the end of a token and no further, and a line feed ends every token. So the lexemes of a text stay
what they are when another text follows on a new line, and those of the other text come after them:
- `stringBody_append`, `blockBody_append`: a string that was closed stays so.
- `readToken_append`: a token stays the same.
- `Walk.skip?`: where a walk goes on from a character that starts no token. A step of `lexFrom` is such a skip
  (`lexFrom_skip`) or takes a token (`lexFrom_token`); what follows is by induction on the text, with these two cases.

The lexemes of the other text have its tokens, at places further down. Where a walk starts has no effect on the tokens,
and fewer open brackets do not make it fail (`lexFrom_tokens`).

Main result:
- `lex_append`: the tokens of two texts, the second on a new line.
-/
import Mathlib.Data.List.TakeWhile
import GraphGen.Syntax.Token

namespace GraphGen

/-- the tokens of lexemes, without their places -/
def tokensOf (lexemes : List Lexeme) : List Token :=
  lexemes.map Lexeme.token

namespace Token

/-! ## Strings -/

/-- a string that was closed is read the same when the text goes on -/
theorem stringBody_append {cs : List Char} {body : List Char} {count : Nat} (more : List Char)
    (h : stringBody cs = some (body, count)) : stringBody (cs ++ more) = some (body, count) ∧ count ≤ cs.length := by
  induction cs using stringBody.induct generalizing body count with
  | case1 rest =>
    rw [stringBody] at h
    cases h
    exact ⟨rfl, by simp⟩
  | case2 a b c d rest ih =>
    simp only [stringBody, Option.bind_eq_bind, Option.bind_eq_some_iff] at h
    obtain ⟨code, hcode, ch, hch, ⟨inner, n⟩, hinner, h⟩ := h
    cases h
    obtain ⟨hmore, hn⟩ := ih hinner
    refine ⟨?_, by simpa using hn⟩
    simp only [List.cons_append, stringBody, hcode, hch, hmore, Option.bind_eq_bind, Option.bind_some]
    rfl
  | case3 e rest hu ih =>
    simp only [stringBody, Option.bind_eq_bind, Option.bind_eq_some_iff] at h
    obtain ⟨ch, hch, ⟨inner, n⟩, hinner, h⟩ := h
    cases h
    obtain ⟨hmore, hn⟩ := ih hinner
    have he : e ≠ 'u' := by
      rintro rfl
      cases hch
    refine ⟨?_, by simpa using hn⟩
    rw [List.cons_append, List.cons_append, stringBody, hch, hmore]
    · rfl
    · exact fun _ _ _ _ _ hu => absurd hu he
  | case4 c rest hq hu he hbad =>
    simp only [stringBody, hbad, if_true] at h
    cases h
  | case5 c rest hq hu he hgood ih =>
    have hc : c ≠ '\\' := by
      rintro rfl
      simp at hgood
    rw [Bool.not_eq_true] at hgood
    simp only [stringBody, hgood, Option.bind_eq_bind, Option.bind_eq_some_iff, Bool.false_eq_true, if_false] at h
    obtain ⟨⟨inner, n⟩, hinner, h⟩ := h
    cases h
    obtain ⟨hmore, hn⟩ := ih hinner
    refine ⟨?_, by simpa using hn⟩
    rw [List.cons_append, stringBody, hgood, hmore]
    · rfl
    · exact hq
    · exact fun _ _ _ _ _ h => absurd h hc
    · exact fun _ _ h => absurd h hc
  | case6 => cases h

theorem length_of_blockBody {cs raw : List Char} (h : blockBody cs = some raw) : raw.length + 3 ≤ cs.length := by
  induction cs using blockBody.induct generalizing raw with
  | case1 rest =>
    cases h
    simp
  | case2 rest ih =>
    simp only [blockBody, Option.map_eq_some_iff] at h
    obtain ⟨inner, hinner, rfl⟩ := h
    have := ih hinner
    simp only [List.length_cons]
    omega
  | case3 c rest hq hb ih =>
    simp only [blockBody, Option.map_eq_some_iff] at h
    obtain ⟨inner, hinner, rfl⟩ := h
    have := ih hinner
    simp only [List.length_cons]
    omega
  | case4 => cases h

/-- a block string that was closed is read the same when the text goes on -/
theorem blockBody_append {cs raw : List Char} (more : List Char) (h : blockBody cs = some raw) :
    blockBody (cs ++ more) = some raw := by
  induction cs using blockBody.induct generalizing raw with
  | case1 rest =>
    cases h
    rfl
  | case2 rest ih =>
    simp only [blockBody, Option.map_eq_some_iff] at h
    obtain ⟨inner, hinner, rfl⟩ := h
    simp only [List.cons_append, blockBody, ih hinner, Option.map_some]
  | case3 c rest hq hb ih =>
    simp only [blockBody, Option.map_eq_some_iff] at h
    obtain ⟨inner, hinner, rfl⟩ := h
    -- three characters are left at least, so that no quotes come together that were apart
    have hlen := length_of_blockBody hinner
    obtain ⟨x, y, z, rest, rfl⟩ : ∃ x y z tail, rest = x :: y :: z :: tail := by
      match rest, hlen with
      | x :: y :: z :: tail, _ => exact ⟨x, y, z, tail, rfl⟩
    have hmore := ih hinner
    simp only [List.cons_append] at hmore ⊢
    rw [blockBody, hmore]
    · rfl
    · rintro tail rfl h
      cases h
      exact hq _ rfl rfl
    · rintro tail rfl h
      cases h
      exact hb _ rfl rfl
  | case4 => cases h

/-! ## Tokens -/

theorem takeWhile_append_lineFeed {p : Char → Bool} (hp : p '\n' = false) (cs more : List Char) :
    (cs ++ '\n' :: more).takeWhile p = cs.takeWhile p := by
  induction cs with
  | nil => simp [hp]
  | cons c cs ih => simp only [List.cons_append, List.takeWhile_cons, ih]

/-- a token is the same when a line feed follows the text, and it is not longer than the text -/
theorem readToken_append {p : Position} {cs : List Char} {token : Token} {size : Nat} {next : Position}
    (more : List Char) (h : readToken p cs = some (token, size, next)) :
    readToken p (cs ++ '\n' :: more) = some (token, size, next) ∧ size ≤ cs.length := by
  unfold readToken at h
  split at h
  · cases h
    exact ⟨rfl, by simp⟩
  · rename_i rest
    simp only [Option.bind_eq_bind, Option.bind_eq_some_iff] at h
    obtain ⟨raw, hraw, h⟩ := h
    cases h
    refine ⟨?_, by simpa using length_of_blockBody hraw⟩
    simp only [List.cons_append, readToken, blockBody_append _ hraw, Option.bind_eq_bind, Option.bind_some]
    rfl
  · rename_i rest hrest
    simp only [Option.bind_eq_bind, Option.bind_eq_some_iff] at h
    obtain ⟨⟨body, count⟩, hbody, h⟩ := h
    cases h
    obtain ⟨hmore, hcount⟩ := stringBody_append ('\n' :: more) hbody
    refine ⟨?_, by simpa using hcount⟩
    rw [List.cons_append, readToken]
    · simp only [hmore, Option.bind_eq_bind, Option.bind_some]
      rfl
    · intro tail htail
      match rest, htail with
      | [], htail => simp at htail
      | [_], htail => simp at htail
      | _ :: _ :: rest, htail =>
        simp only [List.cons_append, List.cons.injEq] at htail
        obtain ⟨rfl, rfl, -⟩ := htail
        exact hrest rest rfl
  · rename_i c rest hdots hblock hquote
    have hname : (c :: rest ++ '\n' :: more).takeWhile isNameRest = (c :: rest).takeWhile isNameRest :=
      takeWhile_append_lineFeed (by decide) (c :: rest) more
    have hnumber : (c :: rest ++ '\n' :: more).takeWhile (fun c => !endsNumber c) =
        (c :: rest).takeWhile fun c => !endsNumber c :=
      @takeWhile_append_lineFeed (fun c => !endsNumber c) (by decide) (c :: rest) more
    have hdot : c ≠ '.' := by
      rintro rfl
      cases h
    rw [List.cons_append] at hname hnumber ⊢
    rw [readToken, hname, hnumber]
    · refine ⟨h, ?_⟩
      dsimp only at h
      split at h
      · cases h
        simp
      · split at h
        · cases h
          exact (List.takeWhile_sublist _).length_le
        · split at h
          · obtain ⟨token, -, h⟩ := Option.map_eq_some_iff.1 h
            cases h
            exact (List.takeWhile_sublist _).length_le
          · cases h
    · exact fun _ hc => absurd hc hdot
    · exact fun _ hc => absurd hc hquote
    · exact fun hc => absurd hc hquote
  · cases h

/-- the token that is read does not depend on the place -/
theorem readToken_place {p : Position} {cs : List Char} {token : Token} {size : Nat} {next : Position}
    (h : readToken p cs = some (token, size, next)) (q : Position) :
    ∃ after, readToken q cs = some (token, size, after) := by
  unfold readToken at h ⊢
  split at h
  · cases h
    exact ⟨_, rfl⟩
  · simp only [Option.bind_eq_bind, Option.bind_eq_some_iff] at h
    obtain ⟨raw, hraw, h⟩ := h
    cases h
    exact ⟨_, by rw [hraw]; rfl⟩
  · simp only [Option.bind_eq_bind, Option.bind_eq_some_iff] at h
    obtain ⟨read, hread, h⟩ := h
    cases h
    exact ⟨_, by rw [hread]; rfl⟩
  · dsimp only at h ⊢
    split at h
    · rename_i hc
      cases h
      exact ⟨_, by rw [if_pos hc]⟩
    · rename_i hc
      rw [if_neg hc]
      split at h
      · rename_i hc
        cases h
        exact ⟨_, by rw [if_pos hc]⟩
      · rename_i hc
        rw [if_neg hc]
        split at h
        · rename_i hc
          obtain ⟨token, htoken, h⟩ := Option.map_eq_some_iff.1 h
          cases h
          exact ⟨_, by rw [if_pos hc, htoken]; rfl⟩
        · cases h
  · cases h

/-! ## Walks -/

/-- where a walk goes on from a character that starts no token -/
def Walk.skip? (walk : Walk) (c : Char) : Option Walk :=
  match walk with
  | .inside (n + 1) => some (if n = 0 then .between else .inside n)
  | .comment => some (if c == '\n' || c == '\r' then .between else .comment)
  | _ =>
    if c == '\uFEFF' || c == '\r' then some .between
    else if c == '\t' then some .between
    else if c == '\n' then some .between
    else if c == ' ' || c == ',' then some .between
    else if c == '#' then some .comment
    else none

/-- a walk inside a token has no more to skip than is left of the text -/
def Walk.Fits (walk : Walk) (cs : List Char) : Prop :=
  ∀ n, walk = .inside n → n ≤ cs.length

theorem Walk.fits_between (cs : List Char) : Walk.between.Fits cs := by
  intro n hn
  cases hn

theorem Walk.Fits.skip {walk next : Walk} {c : Char} {rest : List Char} (h : walk.Fits (c :: rest))
    (hs : walk.skip? c = some next) : next.Fits rest := by
  unfold skip? at hs
  split at hs
  · rename_i n
    have hn := h (n + 1) rfl
    cases hs
    intro m hm
    split at hm
    · cases hm
    · cases hm
      simpa using hn
  · cases hs
    intro m hm
    split at hm <;> cases hm
  · repeat' split at hs
    all_goals cases hs
    all_goals exact fun _ hm => nomatch hm

/-- a character that starts no token only moves the walk -/
theorem lexFrom_skip {walk next : Walk} {c : Char} (h : walk.skip? c = some next) :
    ∃ move : Position → Position, ∀ p opened rest,
      lexFrom walk p opened (c :: rest) = lexFrom next (move p) opened rest := by
  unfold Walk.skip? at h
  split at h
  · cases h
    exact ⟨id, fun _ _ _ => by rw [lexFrom]; rfl⟩
  · cases h
    by_cases hc : (c == '\n' || c == '\r') = true
    · exact ⟨fun p => ⟨p.line + 1, 1⟩, fun _ _ _ => by rw [lexFrom, if_pos hc, if_pos hc]⟩
    · exact ⟨fun p => Position.advance p 1, fun _ _ _ => by rw [lexFrom, if_neg hc, if_neg hc]⟩
  · rename_i hinside hcomment
    simp only [lexFrom]
    by_cases hmark : (c == '\uFEFF' || c == '\r') = true
    · rw [if_pos hmark] at h
      cases h
      exact ⟨id, fun _ _ _ => if_pos hmark⟩
    simp only [if_neg hmark] at h ⊢
    by_cases htab : (c == '\t') = true
    · rw [if_pos htab] at h
      cases h
      exact ⟨fun p => Position.advance p 8, fun _ _ _ => if_pos htab⟩
    simp only [if_neg htab] at h ⊢
    by_cases hline : (c == '\n') = true
    · rw [if_pos hline] at h
      cases h
      exact ⟨fun p => ⟨p.line + 1, 1⟩, fun _ _ _ => if_pos hline⟩
    simp only [if_neg hline] at h ⊢
    by_cases hblank : (c == ' ' || c == ',') = true
    · rw [if_pos hblank] at h
      cases h
      exact ⟨fun p => Position.advance p 1, fun _ _ _ => if_pos hblank⟩
    simp only [if_neg hblank] at h ⊢
    by_cases hcomment : (c == '#') = true
    · rw [if_pos hcomment] at h
      cases h
      exact ⟨fun p => Position.advance p 1, fun _ _ _ => if_pos hcomment⟩
    rw [if_neg hcomment] at h
    cases h

/-- any other character starts a token -/
theorem lexFrom_token {walk : Walk} {c : Char} (h : walk.skip? c = none) (p : Position) (opened : Nat)
    (rest : List Char) :
    lexFrom walk p opened (c :: rest) =
      match readToken p (c :: rest) with
      | none => none
      | some (token, size, next) =>
        match countOpen? opened token with
        | none => none
        | some opened =>
          (lexFrom (if size ≤ 1 then .between else .inside (size - 1)) next opened rest).map (⟨token, p⟩ :: ·) := by
  unfold Walk.skip? at h
  split at h
  · cases h
  · cases h
  · rename_i hinside hcomment
    simp only [lexFrom]
    -- each blank character, and the number sign, goes on somewhere
    split at h
    · cases h
    split at h
    · cases h
    split at h
    · cases h
    split at h
    · cases h
    split at h
    · cases h
    rename_i hmark htab hline hblank hsign
    exact (if_neg hmark).trans <| (if_neg htab).trans <| (if_neg hline).trans <| (if_neg hblank).trans (if_neg hsign)

/-! ## Texts that go on -/

/-- where the walk stands behind a token fits the text -/
theorem fits_after {size : Nat} {c : Char} {rest : List Char} (h : size ≤ (c :: rest).length) :
    (if size ≤ 1 then Walk.between else .inside (size - 1)).Fits rest := by
  intro n hn
  split at hn
  · cases hn
  · cases hn
    rw [List.length_cons] at h
    omega

/-- **The lexemes of a text stay what they are** when another text follows on a new line: the walk comes to the other text
between tokens. -/
theorem lexFrom_append {walk : Walk} {p : Position} {opened : Nat} {cs : List Char} {lexemes : List Lexeme}
    (more : List Char) (hw : walk.Fits cs) (h : lexFrom walk p opened cs = some lexemes) :
    ∃ q still, lexFrom walk p opened (cs ++ '\n' :: more) = (lexFrom .between q still more).map (lexemes ++ ·) := by
  induction cs generalizing walk p opened lexemes with
  | nil =>
    cases h
    have hskip : walk.skip? '\n' = some .between := by
      cases walk with
      | between => rfl
      | comment => rfl
      | inside n =>
        cases n with
        | zero => rfl
        | succ n => exact absurd (hw _ rfl) (by simp)
    obtain ⟨move, hmove⟩ := lexFrom_skip hskip
    exact ⟨move p, opened, by rw [List.nil_append, hmove]; simp⟩
  | cons c rest ih =>
    rw [List.cons_append]
    cases hs : walk.skip? c with
    | some next =>
      obtain ⟨move, hmove⟩ := lexFrom_skip hs
      rw [hmove] at h ⊢
      exact ih (hw.skip hs) h
    | none =>
      rw [lexFrom_token hs] at h
      cases hread : readToken p (c :: rest) with
      | none =>
        rw [hread] at h
        cases h
      | some read =>
        obtain ⟨token, size, next⟩ := read
        obtain ⟨hmore, hsize⟩ := readToken_append more hread
        rw [hread] at h
        cases hopen : countOpen? opened token with
        | none =>
          simp only [hopen] at h
          cases h
        | some count =>
          simp only [hopen, Option.map_eq_some_iff] at h
          obtain ⟨later, hlater, rfl⟩ := h
          obtain ⟨q, still, hrest⟩ := ih (fits_after hsize) hlater
          refine ⟨q, still, ?_⟩
          rw [lexFrom_token hs, ← List.cons_append, hmore]
          simp only [hopen, hrest, Option.map_map]
          rfl

theorem countOpen?_le {opened fewer count : Nat} {token : Token} (h : countOpen? opened token = some count)
    (hle : fewer ≤ opened) : ∃ less ≤ count, countOpen? fewer token = some less := by
  unfold countOpen? at h ⊢
  split at h
  · split at h
    · split at h
      · rename_i hopen hmax
        cases h
        exact ⟨fewer + 1, by omega, by rw [if_pos hopen, if_pos (by omega)]⟩
      · cases h
    · rename_i hopen
      rw [if_neg hopen]
      split at h
      · rename_i hclose
        cases h
        exact ⟨fewer - 1, by omega, by rw [if_pos hclose]⟩
      · rename_i hclose
        cases h
        exact ⟨fewer, hle, by rw [if_neg hclose]⟩
  · cases h
    exact ⟨fewer, hle, rfl⟩

/-- **A walk gives the same tokens from any place,** with no more brackets open. -/
theorem lexFrom_tokens {walk : Walk} {p : Position} {opened fewer : Nat} {cs : List Char} {lexemes : List Lexeme}
    (h : lexFrom walk p opened cs = some lexemes) (q : Position) (hle : fewer ≤ opened) :
    ∃ others, lexFrom walk q fewer cs = some others ∧ tokensOf others = tokensOf lexemes := by
  induction cs generalizing walk p opened fewer lexemes q with
  | nil =>
    cases h
    exact ⟨[], by rw [lexFrom], rfl⟩
  | cons c rest ih =>
    cases hs : walk.skip? c with
    | some next =>
      obtain ⟨move, hmove⟩ := lexFrom_skip hs
      rw [hmove] at h ⊢
      exact ih h _ hle
    | none =>
      rw [lexFrom_token hs] at h ⊢
      cases hread : readToken p (c :: rest) with
      | none =>
        rw [hread] at h
        cases h
      | some read =>
        obtain ⟨token, size, next⟩ := read
        obtain ⟨after, hplace⟩ := readToken_place hread q
        rw [hread] at h
        rw [hplace]
        cases hopen : countOpen? opened token with
        | none =>
          simp only [hopen] at h
          cases h
        | some count =>
          simp only [hopen, Option.map_eq_some_iff] at h
          obtain ⟨later, hlater, rfl⟩ := h
          obtain ⟨less, hless, hfewer⟩ := countOpen?_le hopen hle
          obtain ⟨others, hothers, htokens⟩ := ih hlater after hless
          refine ⟨⟨token, q⟩ :: others, by simp only [hfewer, hothers, Option.map_some], ?_⟩
          rw [tokensOf, List.map_cons, ← tokensOf, htokens]
          rfl

/-- **The lexemes of two texts,** the second on a new line: those of the first, and lexemes with the tokens of the second. -/
theorem lex_append {text more : String} {lexemes all : List Lexeme} (h : lex text = some lexemes)
    (hall : lex (text ++ "\n" ++ more) = some all) :
    ∃ later others, all = lexemes ++ later ∧ lex more = some others ∧ tokensOf later = tokensOf others := by
  have htext : (text ++ "\n" ++ more).toList = text.toList ++ '\n' :: more.toList := by simp
  unfold lex at h hall ⊢
  rw [htext] at hall
  obtain ⟨q, still, happend⟩ := lexFrom_append more.toList (Walk.fits_between _) h
  rw [happend, Option.map_eq_some_iff] at hall
  obtain ⟨later, hlater, rfl⟩ := hall
  obtain ⟨others, hothers, htokens⟩ := lexFrom_tokens hlater ⟨1, 1⟩ (Nat.zero_le still)
  exact ⟨later, others, rfl, hothers, htokens.symm⟩

end Token

end GraphGen
