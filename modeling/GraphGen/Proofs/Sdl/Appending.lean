/-
Schema documents that go on.

A schema document with definitions put behind it, on a new line, has its own definitions and then those; here they begin with
the definition of a scalar. The word `scalar` is not what any definition would have gone on with, with one exception: the
places of a directive may be missing at the end of a document, and a word that follows is then read as a place. Such a
document cannot be read when more follows.

- `local_schemaDefinition`: one definition, from the readers of its parts.
- `repeatUpTo_append`: definitions up to the end, by induction on how many are read.
- `SchemaDocument.parse?_append`: the document of a text with another text behind it.

Main result:
- `parse?_intercalate`: the document of a text with others behind it.
-/
import GraphGen.Proofs.Syntax.Lexing
import GraphGen.Proofs.Syntax.Reading
import GraphGen.Sdl.Reader

namespace GraphGen

namespace Reader

variable {α : Type} {mayFail : Prop}

/-! ## The parts of definitions -/

theorem local_inputValue : Local "scalar" mayFail inputValue :=
  local_optionalString.bind fun _ => local_anyName.bind fun _ => (local_expectPunct _).bind fun _ =>
    local_typeExpr.bind fun _ => local_optionalDefault.bind fun _ => local_directives.bind fun _ => local_pure _

theorem eats_inputValue : Eats inputValue :=
  .after (@local_optionalString "" True).toPlain fun _ => eats_anyName.bind fun _ => (plain_expectPunct _).bind fun _ =>
    (@local_typeExpr "" True).toPlain.bind fun _ => (@local_optionalDefault "" True).toPlain.bind fun _ =>
      (@local_directives "" True).toPlain.bind fun _ => plain_pure _

theorem local_inputValues (opening closing : Char) : Local "scalar" mayFail (optionalBlock opening closing inputValue) :=
  local_optionalBlock opening closing local_inputValue eats_inputValue

theorem local_fieldDeclaration : Local "scalar" mayFail fieldDeclaration :=
  local_optionalString.bind fun _ => local_anyName.bind fun _ => (local_inputValues _ _).bind fun _ =>
    (local_expectPunct _).bind fun _ => local_typeExpr.bind fun _ => local_directives.bind fun _ => local_pure _

theorem eats_fieldDeclaration : Eats fieldDeclaration :=
  .after (@local_optionalString "" True).toPlain fun _ => eats_anyName.bind fun _ =>
    (@local_inputValues True _ _).toPlain.bind fun _ => (plain_expectPunct _).bind fun _ =>
      (@local_typeExpr "" True).toPlain.bind fun _ => (@local_directives "" True).toPlain.bind fun _ => plain_pure _

theorem local_fields (opening closing : Char) : Local "scalar" mayFail (optionalBlock opening closing fieldDeclaration) :=
  local_optionalBlock opening closing local_fieldDeclaration eats_fieldDeclaration

theorem local_enumValue : Local "scalar" mayFail enumValue :=
  local_optionalString.bind fun _ => local_anyName.bind fun _ => local_directives.bind fun _ => local_pure _

theorem eats_enumValue : Eats enumValue :=
  .after (@local_optionalString "" True).toPlain fun _ => eats_anyName.bind fun _ =>
    (@local_directives "" True).toPlain.bind fun _ => plain_pure _

theorem local_interfaces : Local "scalar" mayFail interfaces := by
  refine (local_accept (by decide)).bind fun found => ?_
  split
  · exact local_separatedNames _
  · exact local_pure []

theorem local_unionMembers : Local "scalar" mayFail unionMembers := by
  refine (local_accept (by decide)).bind fun found => ?_
  split
  · exact local_separatedNames _
  · exact local_pure []

theorem local_typeAfter (description : Option String) (keyword : String) :
    Local "scalar" mayFail (typeAfter description keyword) := by
  refine local_anyName.bind fun name => ?_
  split
  · exact local_directives.bind fun _ => local_pure _
  · exact local_interfaces.bind fun _ => local_directives.bind fun _ => (local_fields _ _).bind fun _ => local_pure _
  · exact local_interfaces.bind fun _ => local_directives.bind fun _ => (local_fields _ _).bind fun _ => local_pure _
  · exact local_directives.bind fun _ => local_unionMembers.bind fun _ => local_pure _
  · refine local_directives.bind fun _ => Local.bind ?_ fun _ => local_pure _
    exact local_optionalBlock _ _ local_enumValue eats_enumValue
  · exact local_directives.bind fun _ => (local_inputValues _ _).bind fun _ => local_pure _
  · exact local_failure

theorem local_rootEntry : Local "scalar" mayFail rootEntry :=
  local_anyName.bind fun _ => (local_expectPunct _).bind fun _ => local_anyName.bind fun _ => local_pure _

theorem eats_rootEntry : Eats rootEntry :=
  eats_anyName.bind fun _ => (plain_expectPunct _).bind fun _ => plain_anyName.bind fun _ => plain_pure _

theorem local_rootsAfter : Local "scalar" mayFail rootsAfter := by
  refine local_directives.bind fun _ => (local_expectPunct _).bind fun _ => ?_
  refine (local_itemsUntil _ local_rootEntry eats_rootEntry).bind fun entries => ?_
  split
  · exact local_pure _
  · exact local_failure

theorem local_directiveLocation : Local "scalar" mayFail directiveLocation := by
  refine local_anyName.bind fun name => ?_
  split
  · exact local_pure _
  · exact local_failure

theorem plain_directiveLocation : Plain directiveLocation :=
  (@local_directiveLocation True).toPlain

/-- the places of a directive: where they are missing at the end, the word would be one, and there is no such place -/
theorem local_directiveLocations : Local "scalar" True directiveLocations := by
  refine (local_accept (by decide)).bind fun barred => .peek (fun found => ?_) fun {x rest more} hm hend => ?_
  · split
    · refine local_directiveLocation.bind fun _ => (local_repeatWhile ?_ ?_ (by simp)).bind fun _ => local_pure _
      · exact (local_expectPunct _).bind fun _ => local_directiveLocation
      · exact (eats_expectPunct _).bind fun _ => plain_directiveLocation
    · exact local_failure
    · exact local_pure []
  · obtain ⟨position, later, rfl⟩ := hm
    exact Or.inr ⟨trivial, rfl⟩

theorem local_directiveAfter (description : Option String) : Local "scalar" True (directiveAfter description) :=
  (local_expectPunct _).bind fun _ => local_anyName.bind fun _ => (local_inputValues _ _).bind fun _ =>
    (local_accept (by decide)).bind fun _ => (local_expect (by decide)).bind fun _ =>
      local_directiveLocations.bind fun _ => local_pure _

/-! ## Definitions -/

/-- what follows the first word of a definition -/
theorem local_schemaDefinition : Local "scalar" True schemaDefinition := by
  refine local_optionalString.bind fun description => local_anyName.bind fun keyword => ?_
  split
  · exact local_rootsAfter.map _
  · refine local_anyName.bind fun _ => (local_typeAfter _ _).bind fun extension => ?_
    split
    · exact local_pure _
    · exact local_failure
  · exact (local_directiveAfter _).map _
  · exact (local_typeAfter _ _).map _

theorem eats_schemaDefinition : Eats schemaDefinition := by
  refine .after (@local_optionalString "" True).toPlain fun description => eats_anyName.bind fun keyword => ?_
  split
  · exact ((@local_rootsAfter True).map _).toPlain
  · refine plain_anyName.bind fun _ => (@local_typeAfter True _ _).toPlain.bind fun extension => ?_
    split
    · exact plain_pure _
    · exact plain_failure
  · exact ((local_directiveAfter _).map _).toPlain
  · exact ((@local_typeAfter True _ _).map _).toPlain

/-! ## Documents -/

/-- a bound that covers all lexemes makes no difference -/
theorem repeatUpTo_enough {item : Reader α} (asks : Token → Bool) (he : Eats item) {n n' : Nat} {l : List Lexeme}
    (hn : l.length ≤ n) (hn' : l.length ≤ n') : repeatUpTo asks item n l = repeatUpTo asks item n' l := by
  induction n generalizing n' l with
  | zero =>
    obtain rfl : l = [] := List.eq_nil_of_length_eq_zero (Nat.le_zero.1 hn)
    rw [repeatUpTo_nil, repeatUpTo_nil]
  | succ n ih =>
    cases l with
    | nil => rw [repeatUpTo_nil, repeatUpTo_nil]
    | cons lexeme l =>
      rw [List.length_cons] at hn hn'
      obtain ⟨n', rfl⟩ : ∃ k, n' = k + 1 := ⟨n' - 1, by omega⟩
      rw [repeatUpTo_cons, repeatUpTo_cons, bind_apply, bind_apply]
      cases hx : item (lexeme :: l) with
      | none => rfl
      | some p =>
        have hlen := he.takes hx
        rw [List.length_cons] at hlen
        have hsame : repeatUpTo asks item n p.2 = repeatUpTo asks item n' p.2 := ih (by omega) (by omega)
        rw [Option.bind_some, Option.bind_some, bind_apply, bind_apply, hsame]

/-- **Items up to the end, and more items behind them:** the repetition reads these, and goes on with those. -/
theorem repeatUpTo_append {word : String} {item : Reader α} (hi : Local word mayFail item) (he : Eats item)
    {n n' : Nat} {l rest more : List Lexeme} {items all : List α} (hn : l.length ≤ n) (hn' : (l ++ more).length ≤ n')
    (hm : BeginsWith word more) (h : repeatUpTo (fun _ => true) item n l = some (items, []))
    (hall : repeatUpTo (fun _ => true) item n' (l ++ more) = some (all, rest)) :
    ∃ others, all = items ++ others ∧ repeatWhile (fun _ => true) item more = some (others, rest) := by
  induction n generalizing n' l items all with
  | zero =>
    obtain rfl : l = [] := List.eq_nil_of_length_eq_zero (Nat.le_zero.1 hn)
    rw [repeatUpTo_nil] at h
    cases h
    refine ⟨all, rfl, ?_⟩
    rw [repeatWhile_apply, ← hall]
    exact repeatUpTo_enough _ he (Nat.le_refl _) hn'
  | succ n ih =>
    cases l with
    | nil =>
      rw [repeatUpTo_nil] at h
      cases h
      refine ⟨all, rfl, ?_⟩
      rw [repeatWhile_apply, ← hall]
      exact repeatUpTo_enough _ he (Nat.le_refl _) hn'
    | cons lexeme l =>
      rw [List.cons_append, List.length_cons] at hn'
      obtain ⟨n', rfl⟩ : ∃ k, n' = k + 1 := ⟨n' - 1, by omega⟩
      rw [List.cons_append, repeatUpTo_cons, if_pos rfl, ← List.cons_append] at hall
      rw [repeatUpTo_cons, if_pos rfl] at h
      obtain ⟨x, between, hx, h⟩ := bind_eq_some_iff.1 h
      obtain ⟨later, last, hlater, hlast⟩ := bind_eq_some_iff.1 h
      cases hlast
      obtain ⟨y, between', hy, hall⟩ := bind_eq_some_iff.1 hall
      obtain ⟨later', last', hlater', hlast'⟩ := bind_eq_some_iff.1 hall
      cases hlast'
      rcases hi.ahead hm hx with hmore | ⟨-, -, hmore⟩
      · rw [hmore] at hy
        cases hy
        have hlen := he.takes hx
        simp only [List.length_cons, List.length_append] at hlen hn hn'
        have hbound : (between ++ more).length ≤ n' := by
          rw [List.length_append]
          omega
        obtain ⟨others, rfl, hothers⟩ := ih (by omega) hbound hlater hlater'
        exact ⟨others, rfl, hothers⟩
      · rw [hmore] at hy
        cases hy

/-- a plain reader that reads all lexemes reads all lexemes with these tokens -/
theorem Plain.of_tokens {r : Reader α} (h : Plain r) {l l' : List Lexeme} (ht : tokensOf l = tokensOf l') {x : α}
    (hr : r l = some (x, [])) : r l' = some (x, []) := by
  have hbare : ∀ l : List Lexeme, l.map Lexeme.bare = (tokensOf l).map fun token => ⟨token, default⟩ := by
    intro l
    rw [tokensOf, List.map_map]
    rfl
  have hl := h.blind l
  have hl' := h.blind l'
  rw [hbare, ← ht, ← hbare, hl, hr] at hl'
  cases hx : r l' with
  | none =>
    rw [hx] at hl'
    cases hl'
  | some p =>
    obtain ⟨y, rest⟩ := p
    rw [hx] at hl'
    simp only [Option.map_some, Prod.map, Option.some.injEq, Prod.mk.injEq, id, List.map_nil] at hl'
    obtain ⟨rfl, hrest⟩ := hl'
    rw [List.map_eq_nil_iff.1 hrest.symm]

/-- what a reader makes of a whole text -/
theorem ofText?_eq_some_iff {r : Reader α} {text : String} {x : α} :
    ofText? r text = some x ↔ ∃ lexemes, Token.lex text = some lexemes ∧ r lexemes = some (x, []) := by
  unfold ofText?
  simp only [Option.bind_eq_bind, Option.bind_eq_some_iff]
  constructor
  · rintro ⟨lexemes, hlex, ⟨found, rest⟩, hread, h⟩
    dsimp only at h
    split at h
    · rename_i hrest
      cases h
      exact ⟨lexemes, hlex, by rw [hread, List.isEmpty_iff.1 hrest]⟩
    · cases h
  · rintro ⟨lexemes, hlex, hread⟩
    exact ⟨lexemes, hlex, (x, []), hread, rfl⟩

/-- a list of items up to the end -/
theorem all_eq_some_iff {item : Reader α} {l rest : List Lexeme} {items : List α} :
    all item l = some (items, rest) ↔ repeatWhile (fun _ => true) item l = some (items, rest) ∧ items ≠ [] := by
  rw [all, bind_eq_some_iff]
  constructor
  · rintro ⟨found, between, hfound, h⟩
    cases found with
    | nil => cases h
    | cons x found =>
      cases h
      exact ⟨hfound, nofun⟩
  · rintro ⟨hfound, hne⟩
    refine ⟨items, rest, hfound, ?_⟩
    cases items with
    | nil => exact absurd rfl hne
    | cons x items => rfl

theorem plain_all {item : Reader α} (hi : Plain item) : Plain (all item) := by
  refine (plain_repeatWhile _ hi).bind fun items => ?_
  split
  · exact plain_failure
  · exact plain_pure items

/-- a repetition that takes all there is takes something -/
theorem repeatWhile_ne_nil {word : String} {item : Reader α} {l rest : List Lexeme} {items : List α}
    (hl : BeginsWith word l) (h : repeatWhile (fun _ => true) item l = some (items, rest)) : items ≠ [] := by
  obtain ⟨position, later, rfl⟩ := hl
  rw [repeatWhile_apply, List.length_cons, repeatUpTo_cons, if_pos rfl] at h
  obtain ⟨x, between, -, h⟩ := bind_eq_some_iff.1 h
  obtain ⟨others, last, -, h⟩ := bind_eq_some_iff.1 h
  cases h
  exact List.cons_ne_nil x others

end Reader

/-- the text begins with a word -/
def TextBeginsWith (word text : String) : Prop :=
  ∃ lexemes, Token.lex text = some lexemes ∧ BeginsWith word lexemes

theorem BeginsWith.of_tokens {word : String} {l l' : List Lexeme} (h : BeginsWith word l) (ht : tokensOf l = tokensOf l') :
    BeginsWith word l' := by
  obtain ⟨position, rest, rfl⟩ := h
  cases l' with
  | nil => cases ht
  | cons lexeme l' =>
    rw [tokensOf, tokensOf, List.map_cons, List.map_cons, List.cons.injEq] at ht
    exact ⟨lexeme.position, l', by rw [show Token.name word = lexeme.token from ht.1]⟩

/-- a text that goes on begins as before -/
theorem TextBeginsWith.append {word text more : String} (h : TextBeginsWith word text) {lexemes : List Lexeme}
    (hall : Token.lex (text ++ "\n" ++ more) = some lexemes) : TextBeginsWith word (text ++ "\n" ++ more) := by
  obtain ⟨front, hfront, position, rest, rfl⟩ := h
  obtain ⟨later, -, rfl, -, -⟩ := Token.lex_append hfront hall
  exact ⟨_, hall, position, rest ++ later, rfl⟩

namespace SchemaDocument

open Reader

/-- **A schema document that goes on** has its own definitions, and then those of the text behind it. -/
theorem parse?_append {text more : String} {document whole : SchemaDocument} (h : parse? text = some document)
    (hwhole : parse? (text ++ "\n" ++ more) = some whole) (hmore : TextBeginsWith "scalar" more) :
    ∃ others, parse? more = some others ∧ whole = document ++ others := by
  obtain ⟨lexemes, hlex, hread⟩ := ofText?_eq_some_iff.1 h
  obtain ⟨all, hlexall, hreadall⟩ := ofText?_eq_some_iff.1 hwhole
  obtain ⟨front, hfront, hbegins⟩ := hmore
  obtain ⟨later, others, rfl, hothers, htokens⟩ := Token.lex_append hlex hlexall
  rw [hfront] at hothers
  cases hothers
  have hlater := hbegins.of_tokens htokens.symm
  obtain ⟨hitems, -⟩ := all_eq_some_iff.1 hread
  obtain ⟨hitemsall, -⟩ := all_eq_some_iff.1 hreadall
  obtain ⟨definitions, rfl, hdefinitions⟩ := repeatUpTo_append local_schemaDefinition eats_schemaDefinition
    (Nat.le_refl _) (Nat.le_refl _) hlater hitems hitemsall
  have hlast := all_eq_some_iff.2 ⟨hdefinitions, repeatWhile_ne_nil hlater hdefinitions⟩
  have hsame := (plain_all local_schemaDefinition.toPlain).of_tokens htokens hlast
  exact ⟨definitions, ofText?_eq_some_iff.2 ⟨front, hfront, hsame⟩, rfl⟩

/-- a text that is put behind others: a schema document that begins with a scalar -/
def Continues (text : String) (document : SchemaDocument) : Prop :=
  parse? text = some document ∧ TextBeginsWith "scalar" text

/-- **The document of a text with others behind it,** each on a new line. -/
theorem parse?_intercalate {text : String} {texts : List String} {document whole : SchemaDocument}
    {documents : List SchemaDocument} (h : parse? text = some document)
    (htexts : List.Forall₂ Continues texts documents)
    (hwhole : parse? (String.intercalate "\n" (text :: texts)) = some whole) : whole = document ++ documents.flatten := by
  induction htexts generalizing text document whole with
  | nil =>
    rw [String.intercalate_singleton, h] at hwhole
    cases hwhole
    rw [List.flatten_nil, List.append_nil]
  | @cons next own texts documents hnext _ ih =>
    rw [String.intercalate_cons_cons] at hwhole
    obtain ⟨lexemes, hlex, -⟩ := ofText?_eq_some_iff.1 h
    obtain ⟨all, hlexall, -⟩ := ofText?_eq_some_iff.1 hwhole
    obtain ⟨-, others, -, hothers, -⟩ := Token.lex_append hlex hlexall
    have hbegins : TextBeginsWith "scalar" (String.intercalate "\n" (next :: texts)) := by
      cases texts with
      | nil =>
        rw [String.intercalate_singleton]
        exact hnext.2
      | cons after texts =>
        rw [String.intercalate_cons_cons] at hothers ⊢
        exact hnext.2.append hothers
    obtain ⟨rest, hrest, rfl⟩ := parse?_append h hwhole hbegins
    rw [ih hnext.1 hrest, List.flatten_cons]

end SchemaDocument

end GraphGen
