/-
Values that are read back from what is written.

A value without doubles is written as tokens (`Value.tokens`), which are read back as it (`reads_tokens`, by induction on the
value). What can go wrong lies between the two: lexing the written text gives these tokens as long as the lexer knows the escapes
of all strings and does not have too many brackets open at once (`Value.ReadsBack`), and otherwise it fails (`scans_render`).

- `Reader.Reads`: a reader reads something off any lexemes with some tokens, whatever follows.
- `Scans`: lexing gives some tokens for a piece of text, or fails, depending on how many brackets are open.

Main result:
- `values_read_back_iff`: which values are read back from their written form, and with them which default values.

A null character is written in a way that cannot be read (`null_character_lost`).
-/
import GraphGen.Proofs.Schema.Declared
import GraphGen.Proofs.Syntax.Reading
import GraphGen.Proofs.Syntax.Scanning
import GraphGen.Targets.Introspection
import Mathlib.Data.List.Induction

namespace GraphGen

/-! ## Reading tokens -/

namespace Reader

variable {α β : Type}

/-- the reader reads it off any lexemes with these tokens, and leaves what follows -/
def Reads (r : Reader α) (x : α) (tokens : List Token) : Prop :=
  ∀ l rest, tokensOf l = tokens → r (l ++ rest) = some (x, rest)

section Reads

variable {r : Reader α} {x : α} {y : β} {tokens more : List Token} {token : Token}

theorem reads_pure (x : α) : Reads (pure x) x [] := by
  intro l rest hl
  rw [List.map_eq_nil_iff.1 hl]
  rfl

theorem Reads.bind {f : α → Reader β} (hr : Reads r x tokens) (hf : Reads (f x) y more) :
    Reads (r >>= f) y (tokens ++ more) := by
  intro l rest hl
  obtain ⟨first, second, rfl, hfirst, hsecond⟩ := List.map_eq_append_iff.1 hl
  rw [List.append_assoc, bind_apply, hr first _ hfirst]
  exact hf second rest hsecond

theorem Reads.map (hr : Reads r x tokens) (f : α → β) : Reads (f <$> r) (f x) tokens := by
  rw [map_eq_pure_bind, ← List.append_nil tokens]
  exact hr.bind (reads_pure (f x))

theorem reads_next {f : Lexeme → Reader α} (hf : ∀ position, Reads (f ⟨token, position⟩) x tokens) :
    Reads (next >>= f) x (token :: tokens) := by
  intro l rest hl
  obtain ⟨⟨_, position⟩, later, rfl, rfl, hlater⟩ := List.map_eq_cons_iff.1 hl
  exact hf position later rest hlater

theorem reads_anyName (text : String) : Reads anyName text [.name text] :=
  reads_next fun _ => reads_pure text

theorem reads_expectPunct (c : Char) : Reads (expectPunct c) () [.punct c] := by
  intro l rest hl
  obtain ⟨⟨_, position⟩, later, rfl, rfl, hlater⟩ := List.map_eq_cons_iff.1 hl
  rw [List.map_eq_nil_iff.1 hlater]
  show (accept (.punct c) >>= _) _ = _
  rw [bind_apply, accept, List.singleton_append, peek_bind_apply, List.head?_cons, if_pos (Option.map_some ..)]
  rfl

/-- it is read off these tokens, and they do not begin with the closing bracket -/
structure ReadsInside (closing : Char) (item : Reader α) (x : α) (tokens : List Token) : Prop where
  reads : Reads item x tokens
  begins : ∃ first rest, tokens = first :: rest ∧ first ≠ .punct closing

/-- items are read until the closing bracket comes: there are no more of them than lexemes -/
theorem repeatUpTo_items {item : Reader α} {closing : Char} {xs : List α} {written : α → List Token}
    (h : ∀ x ∈ xs, ReadsInside closing item x (written x)) (position : Position) (rest : List Lexeme) {bound : Nat}
    {l : List Lexeme} (hbound : l.length ≤ bound) (hl : tokensOf l = xs.flatMap written) :
    repeatUpTo (· != .punct closing) item bound (l ++ ⟨.punct closing, position⟩ :: rest) =
      some (xs, ⟨.punct closing, position⟩ :: rest) := by
  induction xs generalizing bound l with
  | nil =>
    rw [List.map_eq_nil_iff.1 hl, List.nil_append]
    cases bound with
    | zero => rfl
    | succ bound => rw [repeatUpTo_cons, if_neg (by simp)]
  | cons x xs ih =>
    obtain ⟨⟨hread, first, others, hwritten, hfirst⟩, hxs⟩ := List.forall_mem_cons.1 h
    obtain ⟨front, later, rfl, hfront, hlater⟩ := List.map_eq_append_iff.1 hl
    rw [hwritten] at hfront
    obtain ⟨⟨_, place⟩, front, rfl, rfl, hothers⟩ := List.map_eq_cons_iff.1 hfront
    rw [List.length_append, List.length_cons] at hbound
    obtain ⟨bound, rfl⟩ : ∃ n, bound = n + 1 := ⟨bound - 1, by omega⟩
    rw [← hwritten] at hfront
    have hitem := hread (⟨_, place⟩ :: front) (later ++ ⟨.punct closing, position⟩ :: rest) hfront
    have hbound : later.length ≤ bound := by omega
    rw [List.append_assoc, List.cons_append, repeatUpTo_cons, if_pos (by simpa using hfirst), ← List.cons_append,
      bind_apply, hitem, Option.bind_some, bind_apply, ih hxs hbound hlater]
    rfl

/-- **Items are read up to the closing bracket** when none of them begins with it. -/
theorem Reads.itemsUntil {item : Reader α} {closing : Char} {xs : List α} {written : α → List Token}
    (h : ∀ x ∈ xs, ReadsInside closing item x (written x)) :
    Reads (itemsUntil closing item) xs (xs.flatMap written ++ [.punct closing]) := by
  intro l rest hl
  obtain ⟨front, last, rfl, hfront, hlast⟩ := List.map_eq_append_iff.1 hl
  obtain ⟨⟨_, position⟩, nothing, rfl, rfl, hnothing⟩ := List.map_eq_cons_iff.1 hlast
  rw [List.map_eq_nil_iff.1 hnothing]
  rw [Reader.itemsUntil, bind_apply, repeatWhile_apply, List.append_assoc, List.singleton_append,
    repeatUpTo_items h position rest (by simp) hfront]
  exact Reads.bind (f := fun _ => pure xs) (reads_expectPunct closing) (reads_pure xs) [⟨.punct closing, position⟩] rest rfl

end Reads

end Reader

/-! ## Values as tokens -/

namespace Value

/-- values that can be written: names are names, words of enums are no other values, the fields of objects stand in the order of
their names, each once, and there are no doubles; a constant has no variables -/
inductive Proper (constant : Bool) : Value → Prop where
  | var {name : String} (allowed : constant = false) (named : Token.isName name = true) : Proper constant (.var name)
  | int (n : Int64) : Proper constant (.int n)
  | string (s : String) : Proper constant (.string s)
  | boolean (b : Bool) : Proper constant (.boolean b)
  | null : Proper constant .null
  | enum {name : String} (named : Token.isName name = true) (word : name ∉ ["true", "false", "null"]) :
      Proper constant (.enum name)
  | list {items : List Value} (proper : ∀ item ∈ items, Proper constant item) : Proper constant (.list items)
  | object {fields : List (String × Value)} (sorted : fields.Pairwise fun first second => first.1 < second.1)
      (named : ∀ field ∈ fields, Token.isName field.1 = true) (proper : ∀ field ∈ fields, Proper constant field.2) :
      Proper constant (.object fields)

mutual

/-- the tokens of a written value -/
def tokens : Value → List Token
  | var name => [.punct '$', .name name]
  | int n => [.int n]
  | float d => [.float d]
  | string s => [.string s]
  | boolean b => [.name (if b then "true" else "false")]
  | null => [.name "null"]
  | enum name => [.name name]
  | list items => .punct '[' :: (itemTokens items ++ [.punct ']'])
  | object fields => .punct '\x7b' :: (fieldTokens fields ++ [.punct '\x7d'])

/-- the tokens of the items of a list -/
def itemTokens : List Value → List Token
  | [] => []
  | item :: rest => tokens item ++ itemTokens rest

/-- the tokens of the fields of an object -/
def fieldTokens : List (String × Value) → List Token
  | [] => []
  | (name, value) :: rest => .name name :: .punct ':' :: tokens value ++ fieldTokens rest

end

theorem itemTokens_eq (items : List Value) : itemTokens items = items.flatMap tokens := by
  induction items with
  | nil => rfl
  | cons item rest ih => rw [itemTokens, ih, List.flatMap_cons]

theorem fieldTokens_eq (fields : List (String × Value)) :
    fieldTokens fields = fields.flatMap fun field => .name field.1 :: .punct ':' :: field.2.tokens := by
  induction fields with
  | nil => rfl
  | cons field rest ih => rw [fieldTokens, ih, List.flatMap_cons]

/-- no value begins with a closing bracket -/
theorem exists_first_token (v : Value) : ∃ first rest, v.tokens = first :: rest ∧
    first ≠ .punct ']' ∧ first ≠ .punct '\x7d' := by
  cases v <;> exact ⟨_, _, rfl, by simp, by simp⟩

theorem insertField_last {name : String} {value : Value} {fields : List (String × Value)}
    (h : ∀ field ∈ fields, field.1 < name) : insertField name value fields = fields ++ [(name, value)] := by
  induction fields with
  | nil => rfl
  | cons field rest ih =>
    obtain ⟨hfield, hrest⟩ := List.forall_mem_cons.1 h
    rw [insertField, if_neg fun he => String.lt_irrefl _ (he ▸ hfield), if_neg (String.lt_asymm hfield), ih hrest,
      List.cons_append]

/-- fields that stand in order are kept as they are -/
theorem ofFields_sorted {fields : List (String × Value)} (h : fields.Pairwise fun first second => first.1 < second.1) :
    ofFields fields = .object fields := by
  unfold ofFields
  refine congrArg object ?_
  induction fields using List.reverseRecOn with
  | nil => rfl
  | append_singleton fields field ih =>
    obtain ⟨hfields, -, hlast⟩ := List.pairwise_append.1 h
    rw [List.foldl_append, ih hfields]
    exact insertField_last fun other ho => hlast other ho field (by simp)

end Value

namespace Reader

open Value

theorem length_le_flatMap_of_mem {α β : Type} {f : α → List β} {l : List α} {x : α} (h : x ∈ l) :
    (f x).length ≤ (l.flatMap f).length := by
  rw [List.flatMap_def]
  exact (List.sublist_flatten_of_mem (List.mem_map_of_mem h)).length_le

/-- **A value is read off its tokens,** when the bound on its depth covers all of them. -/
theorem reads_tokens {constant : Bool} {v : Value} (h : v.Proper constant) :
    ∀ depth, v.tokens.length ≤ depth + 1 → Reads (valueUpTo constant (depth + 1)) v v.tokens := by
  induction h with
  | @var name allowed _ =>
    refine fun depth _ => reads_next fun _ => ?_
    simp only [allowed]
    exact (reads_anyName name).map Value.var
  | int n => exact fun depth _ => reads_next fun _ => reads_pure _
  | string s => exact fun depth _ => reads_next fun _ => reads_pure _
  | boolean b =>
    refine fun depth _ => reads_next fun _ => ?_
    cases b <;> exact reads_pure _
  | null => exact fun depth _ => reads_next fun _ => reads_pure _
  | @enum name _ word =>
    have hword : wordValue name = .enum name := by
      simp only [List.mem_cons, List.not_mem_nil, or_false, not_or] at word
      simp [wordValue, word]
    refine fun depth _ => reads_next fun _ => ?_
    dsimp only
    rw [hword]
    exact reads_pure _
  | @list items _ ih =>
    intro depth hd
    rw [tokens, itemTokens_eq, List.length_cons, List.length_append, List.length_singleton] at hd
    obtain ⟨depth, rfl⟩ : ∃ n, depth = n + 1 := ⟨depth - 1, by omega⟩
    rw [tokens, itemTokens_eq]
    refine reads_next fun _ => (Reads.itemsUntil fun item hm => ⟨ih item hm depth ?_, ?_⟩).map Value.list
    · have hitem := length_le_flatMap_of_mem (f := tokens) hm
      omega
    · obtain ⟨first, rest, htokens, hfirst, -⟩ := item.exists_first_token
      exact ⟨first, rest, htokens, hfirst⟩
  | @object fields sorted _ _ ih =>
    intro depth hd
    rw [tokens, fieldTokens_eq, List.length_cons, List.length_append, List.length_singleton] at hd
    obtain ⟨depth, rfl⟩ : ∃ n, depth = n + 1 := ⟨depth - 1, by omega⟩
    rw [tokens, fieldTokens_eq, ← ofFields_sorted sorted]
    refine reads_next fun _ => (Reads.itemsUntil fun field hm => ⟨?_, _, _, rfl, by simp⟩).map Value.ofFields
    have hfield := length_le_flatMap_of_mem (f := fun field => .name field.1 :: .punct ':' :: field.2.tokens) hm
    simp only [List.length_cons] at hfield
    refine (reads_anyName field.1).bind ((reads_expectPunct ':').bind ?_)
    rw [← List.append_nil field.2.tokens]
    exact (ih field hm depth (by omega)).bind (reads_pure _)

end Reader

/-! ## Lexing written values -/

/-- lexing gives these tokens for the text where enough brackets may still be opened for it, and otherwise fails -/
structure Scans (text : String) (tokens : List Token) (fits : Nat → Prop) : Prop where
  taken : ∀ {opened more}, Token.Stops more → fits opened →
    Token.scan opened (text.toList ++ more) = (Token.scan opened more).map (tokens ++ ·)
  refused : ∀ {opened more}, Token.Stops more → ¬ fits opened → Token.scan opened (text.toList ++ more) = none

namespace Scans

open Token

variable {text : String} {tokens : List Token} {fits : Nat → Prop}

/-- a text for which no bracket is opened -/
theorem of_token {token : Token} (h : ∀ {opened more}, Stops more →
    scan opened (text.toList ++ more) = (scan opened more).map (token :: ·)) : Scans text [token] fun _ => True where
  taken hm _ := h hm
  refused _ hnot := absurd trivial hnot

theorem of_name (h : isName text = true) : Scans text [.name text] fun _ => True :=
  .of_token fun hm => scan_name h hm _

/-- the brackets of lists and objects -/
def bracketPairs : List (Char × Char) :=
  [('[', ']'), ('\x7b', '\x7d')]

theorem countOpen?_brackets {left right : Char} (h : (left, right) ∈ bracketPairs) (opened : Nat) :
    countOpen? opened (.punct left) = (if opened < maxOpen then some (opened + 1) else none) ∧
      countOpen? (opened + 1) (.punct right) = some opened := by
  simp only [bracketPairs, List.mem_cons, Prod.mk.injEq, List.not_mem_nil, or_false] at h
  rcases h with ⟨rfl, rfl⟩ | ⟨rfl, rfl⟩ <;> exact ⟨rfl, rfl⟩

/-- a text in brackets, of which one more is open for it -/
theorem brackets {opening closing : String} {left right : Char} (ho : opening.toList = [left])
    (hc : closing.toList = [right]) (hpair : (left, right) ∈ bracketPairs) (h : Scans text tokens fits) :
    Scans (opening ++ text ++ closing) (.punct left :: (tokens ++ [.punct right]))
      fun opened => opened < maxOpen ∧ fits (opened + 1) := by
  have hmarks : ∀ pair ∈ bracketPairs, pair.1 ∈ ['[', ']', '\x7b', '\x7d', '$', ':'] ∧
      pair.2 ∈ ['[', ']', '\x7b', '\x7d', '$', ':'] ∧ pair.2 ∈ [',', ':', ']', '\x7d'] := by decide
  obtain ⟨hleft, hright, hstop⟩ := hmarks _ hpair
  have hchars : ∀ more, (opening ++ text ++ closing).toList ++ more = left :: (text.toList ++ right :: more) := by
    intro more
    simp [ho, hc]
  constructor
  · rintro opened more - ⟨hroom, hfits⟩
    obtain ⟨hopen, hclose⟩ := countOpen?_brackets hpair opened
    rw [hchars, scan_punct hleft, hopen, if_pos hroom, Option.bind_some, h.taken (stops_cons hstop more) hfits,
      scan_punct hright, hclose, Option.bind_some, Option.map_map, Option.map_map]
    congr 1
    funext rest
    simp
  · rintro opened more - hnot
    obtain ⟨hopen, -⟩ := countOpen?_brackets hpair opened
    rw [hchars, scan_punct hleft, hopen]
    by_cases hroom : opened < maxOpen
    · rw [if_pos hroom, Option.bind_some, h.refused (stops_cons hstop more) fun hfits => hnot ⟨hroom, hfits⟩]
      rfl
    · rw [if_neg hroom]
      rfl

/-- one text behind another, with a separator between them -/
theorem append {first second separator : String} {between more : List Token} {fits' : Nat → Prop}
    (hs : ∀ opened cs, scan opened (separator.toList ++ cs) = (scan opened cs).map (between ++ ·))
    (hstop : ∀ cs, Stops (separator.toList ++ cs)) (hf : Scans first tokens fits) (h : Scans second more fits') :
    Scans (first ++ separator ++ second) (tokens ++ (between ++ more)) fun opened => fits opened ∧ fits' opened := by
  constructor
  · rintro opened cs hm ⟨hfirst, hsecond⟩
    simp only [String.toList_append, List.append_assoc]
    rw [hf.taken (hstop _) hfirst, hs, h.taken hm hsecond, Option.map_map, Option.map_map]
    simp only [Function.comp_def]
  · intro opened cs hm hnot
    simp only [String.toList_append, List.append_assoc]
    by_cases hfirst : fits opened
    · rw [hf.taken (hstop _) hfirst, hs, h.refused hm fun hsecond => hnot ⟨hfirst, hsecond⟩]
      rfl
    · exact hf.refused (hstop _) hfirst

theorem congr {fits' : Nat → Prop} (h : Scans text tokens fits) (hfits : ∀ opened, fits opened ↔ fits' opened) :
    Scans text tokens fits' := by
  have hsame : fits = fits' := funext fun opened => propext (hfits opened)
  exact hsame ▸ h

/-- texts with commas between them -/
theorem separated {α : Type} {l : List α} {written : α → String} {tokens : α → List Token} {fits : α → Nat → Prop}
    (h : ∀ x ∈ l, Scans (written x) (tokens x) (fits x)) :
    Scans (String.intercalate ", " (l.map written)) (l.flatMap tokens) fun opened => ∀ x ∈ l, fits x opened := by
  have hcomma : ∀ opened cs, scan opened (", ".toList ++ cs) = (scan opened cs).map ([] ++ ·) := by
    intro opened cs
    have hcomma := scan_blank (c := ',') (by decide) opened (' ' :: cs)
    have hspace := scan_blank (c := ' ') (by decide) opened cs
    exact (hcomma.trans hspace).trans Option.map_id'.symm
  induction l with
  | nil => exact ⟨fun _ _ => by simp, fun _ hnot => absurd (by simp) hnot⟩
  | cons x l ih =>
    obtain ⟨hx, hl⟩ := List.forall_mem_cons.1 h
    rw [List.map_cons, List.flatMap_cons]
    cases l with
    | nil => simpa using hx
    | cons y l =>
      rw [List.map_cons, String.intercalate_cons_cons]
      refine (append hcomma (stops_cons (by decide)) hx (ih hl)).congr fun opened => ?_
      exact (List.forall_mem_cons (p := fun z => fits z opened)).symm

/-- a named text -/
theorem named {name : String} (hn : isName name = true) (h : Scans text tokens fits) :
    Scans (name ++ ": " ++ text) (.name name :: .punct ':' :: tokens) fits := by
  have hcolon : ∀ opened cs, scan opened (": ".toList ++ cs) = (scan opened cs).map ([.punct ':'] ++ ·) := by
    intro opened cs
    have hmark : scan opened (':' :: ' ' :: cs) = (scan opened (' ' :: cs)).map (.punct ':' :: ·) :=
      scan_punct (by decide) opened (' ' :: cs)
    rw [scan_blank (c := ' ') (by decide)] at hmark
    exact hmark
  exact (append hcolon (stops_cons (by decide)) (of_name hn) h).congr fun _ => by rw [true_and]

end Scans

namespace Value

/-- the lexer knows the escapes of all strings in the value, and opens no more brackets for it than there is room for -/
inductive ReadsBack : Nat → Value → Prop where
  | var {room : Nat} (name : String) : ReadsBack room (.var name)
  | int {room : Nat} (n : Int64) : ReadsBack room (.int n)
  | string {room : Nat} {s : String} (chars : ∀ c ∈ s.toList, Token.ReadsBack c) : ReadsBack room (.string s)
  | boolean {room : Nat} (b : Bool) : ReadsBack room (.boolean b)
  | null {room : Nat} : ReadsBack room .null
  | enum {room : Nat} (name : String) : ReadsBack room (.enum name)
  | list {room : Nat} {items : List Value} (inner : ∀ item ∈ items, ReadsBack room item) :
      ReadsBack (room + 1) (.list items)
  | object {room : Nat} {fields : List (String × Value)} (inner : ∀ field ∈ fields, ReadsBack room field.2) :
      ReadsBack (room + 1) (.object fields)

theorem readsBack_string_iff {room : Nat} {s : String} :
    ReadsBack room (.string s) ↔ ∀ c ∈ s.toList, Token.ReadsBack c :=
  ⟨fun h => by cases h; assumption, .string⟩

/-- a bracket needs room, and leaves less for what is in it -/
theorem exists_room_iff {opened : Nat} {inner : Nat → Prop} :
    (∃ room, Token.maxOpen - opened = room + 1 ∧ inner room) ↔
      opened < Token.maxOpen ∧ inner (Token.maxOpen - (opened + 1)) := by
  constructor
  · rintro ⟨room, hroom, hinner⟩
    exact ⟨by omega, by rwa [show Token.maxOpen - (opened + 1) = room by omega]⟩
  · rintro ⟨hroom, hinner⟩
    exact ⟨_, by omega, hinner⟩

theorem readsBack_list_iff {room : Nat} {items : List Value} :
    ReadsBack room (.list items) ↔ ∃ less, room = less + 1 ∧ ∀ item ∈ items, ReadsBack less item := by
  constructor
  · intro h
    cases h with
    | list inner => exact ⟨_, rfl, inner⟩
  · rintro ⟨less, rfl, inner⟩
    exact .list inner

theorem readsBack_object_iff {room : Nat} {fields : List (String × Value)} :
    ReadsBack room (.object fields) ↔ ∃ less, room = less + 1 ∧ ∀ field ∈ fields, ReadsBack less field.2 := by
  constructor
  · intro h
    cases h with
    | object inner => exact ⟨_, rfl, inner⟩
  · rintro ⟨less, rfl, inner⟩
    exact .object inner

theorem renderItems_eq (items : List Value) : renderItems items = items.map render := by
  induction items with
  | nil => rfl
  | cons item rest ih => rw [renderItems, ih, List.map_cons]

theorem renderFields_eq (fields : List (String × Value)) :
    renderFields fields = fields.map fun field => field.1 ++ ": " ++ field.2.render := by
  induction fields with
  | nil => rfl
  | cons field rest ih => rw [renderFields, ih, List.map_cons]

/-- **Lexing a written value** gives its tokens, or fails. -/
theorem scans_render {constant : Bool} {v : Value} (h : v.Proper constant) :
    Scans v.render v.tokens fun opened => v.ReadsBack (Token.maxOpen - opened) := by
  induction h with
  | @var name _ named =>
    have hchars : ∀ more, (render (.var name)).toList ++ more = '$' :: (name.toList ++ more) := by simp [render]
    refine ⟨fun {opened more} hm _ => ?_, fun _ hnot => absurd (.var name) hnot⟩
    rw [hchars, Token.scan_punct (by decide)]
    show (some opened).bind _ = _
    rw [Option.bind_some, Token.scan_name named hm, Option.map_map]
    rfl
  | int n => exact (Scans.of_token fun hm => Token.scan_int n hm _).congr fun _ => iff_of_true trivial (.int n)
  | string s =>
    constructor
    · intro opened more hm hs
      exact Token.scan_string (readsBack_string_iff.1 hs) hm opened
    · intro opened more hm hs
      exact Token.scan_string_eq_none (fun hchars => hs (.string hchars)) hm opened
  | boolean b =>
    refine (Scans.of_name ?_).congr fun _ => iff_of_true trivial (.boolean b)
    cases b <;> decide
  | null => exact (Scans.of_name (by decide)).congr fun _ => iff_of_true trivial .null
  | enum named _ => exact (Scans.of_name named).congr fun _ => iff_of_true trivial (.enum _)
  | @list items _ ih =>
    rw [render, tokens, renderItems_eq, itemTokens_eq]
    refine (Scans.brackets rfl rfl (by decide) (.separated ih)).congr fun opened => ?_
    rw [readsBack_list_iff, exists_room_iff]
  | @object fields _ named _ ih =>
    rw [render, tokens, renderFields_eq, fieldTokens_eq]
    have hfields := Scans.separated fun field hm => (ih field hm).named (named field hm)
    refine (Scans.brackets rfl rfl (by decide) hfields).congr fun opened => ?_
    rw [readsBack_object_iff, exists_room_iff]

end Value

/-! ## Reading values back -/

namespace Reader

theorem ofText?_render {constant : Bool} {v : Value} (h : v.Proper constant) (hb : v.ReadsBack Token.maxOpen) :
    ofText? (value constant) v.render = some v := by
  have hscan := @(Value.scans_render h).taken 0 [] Token.stops_nil hb
  rw [List.append_nil, Token.scan_nil, Option.map_some, List.append_nil] at hscan
  obtain ⟨lexemes, hlex, htokens⟩ := Option.map_eq_some_iff.1 hscan
  have hlength : v.tokens.length = lexemes.length := by rw [← htokens, tokensOf, List.length_map]
  have hread := reads_tokens h lexemes.length (by omega) lexemes [] htokens
  rw [List.append_nil] at hread
  have hvalue : value constant lexemes = some (v, []) := hread
  rw [ofText?, show Token.lex v.render = some lexemes from hlex, Option.bind_eq_bind, Option.bind_some, hvalue]
  rfl

theorem ofText?_render_eq_none {α : Type} {constant : Bool} {v : Value} (h : v.Proper constant)
    (hb : ¬ v.ReadsBack Token.maxOpen) (reader : Reader α) : ofText? reader v.render = none := by
  have hscan := @(Value.scans_render h).refused 0 [] Token.stops_nil hb
  rw [List.append_nil] at hscan
  rw [ofText?, show Token.lex v.render = none from Option.map_eq_none_iff.1 hscan]
  rfl

end Reader

/-- the default value of a declaration is indexed in its written form, which the introspection result shows -/
structure DefaultWritten (schema : Schema) (d : InputValueDeclaration) (value : InputValue) : Prop where
  indexed : value.default = d.default.map Value.render
  listed : ∀ descriptions, (Introspection.inputValueNode schema descriptions value).get? "defaultValue" =
    some (.optional (d.default.map Value.render))

theorem defaultWritten (schema : Schema) (d : InputValueDeclaration) : DefaultWritten schema d (.ofDeclaration d) :=
  ⟨rfl, fun _ => rfl⟩

theorem defaultsWritten (schema : Schema) (declared : List InputValueDeclaration) :
    List.Forall₂ (DefaultWritten schema) declared (declared.map .ofDeclaration) :=
  List.forall₂_map_right_iff.2 (List.forall₂_same.2 fun d _ => defaultWritten schema d)

/-- **Values are read back from what is written** exactly when the characters of all their strings are printable, line feeds,
carriage returns or tabs, and no more brackets are open at once than the lexer allows; other values without doubles are written
as texts that nothing can be read from. And the default values of all input fields and arguments in an accepted schema are
indexed, and shown by introspection results, as the values of their declarations are written. -/
theorem values_read_back_iff {constant : Bool} {v : Value} (h : v.Proper constant) :
    (Reader.ofText? (Reader.value constant) v.render = some v ↔ v.ReadsBack Token.maxOpen) ∧
    (¬ v.ReadsBack Token.maxOpen → Reader.ofText? (Reader.value constant) v.render = none) ∧
    ∀ document schema, Schema.ofDocument document = .ok schema →
      (∀ name type, schema.type? name = some type →
        (∀ key value, type.inputFields.get? key = some value →
          ∃ d ∈ TypePart.inputFields.among document.typeDeclarations name, d.name = key ∧ DefaultWritten schema d value) ∧
        ∀ key field, type.fields.get? key = some field →
          ∃ d ∈ TypePart.fields.among document.typeDeclarations name, d.name = key ∧
            List.Forall₂ (DefaultWritten schema) d.arguments field.arguments) ∧
      ∀ key directive, schema.directives.get? key = some directive →
        ∃ d, SchemaDefinition.directive d ∈ document ∧ d.name = key ∧
          List.Forall₂ (DefaultWritten schema) d.arguments directive.arguments := by
  refine ⟨⟨fun hread => ?_, Reader.ofText?_render h⟩, fun hb => Reader.ofText?_render_eq_none h hb _,
    fun document schema hs => ⟨fun name type ht => ⟨fun key value hv => ?_, fun key field hf => ?_⟩,
      fun key directive hd => ?_⟩⟩
  · by_contra hb
    rw [Reader.ofText?_render_eq_none h hb] at hread
    cases hread
  · obtain ⟨d, hd, hname, rfl⟩ := Schema.inputField_declared hs ht hv
    exact ⟨d, hd, hname, defaultWritten schema d⟩
  · obtain ⟨d, hd, hname, rfl⟩ := Schema.field_declared hs ht hf
    exact ⟨d, hd, hname, defaultsWritten schema d.arguments⟩
  · obtain ⟨types, -, -, rfl⟩ := Schema.ofDocument_eq_ok_iff.1 hs
    obtain ⟨definition, hm, hentry⟩ := List.mem_filterMap.1 (Table.mem_of_get?_ofList hd)
    split at hentry <;> cases hentry
    exact ⟨_, hm, rfl, defaultsWritten _ _⟩

/-- a value with a value of every other shape in it -/
def sampleValue : Value :=
  .object [("ids", .list [.int 7, .int (-12), .null]), ("kind", .enum "ADMIN"), ("name", .string "a \"b\"\n"),
    ("on", .boolean true), ("when", .var "time")]

theorem proper_sampleValue : sampleValue.Proper false := by
  refine .object (by decide +kernel) (by decide +kernel) ?_
  simp only [List.forall_mem_cons, List.not_mem_nil, false_implies, implies_true, and_true]
  refine ⟨.list ?_, .enum (by decide) (by decide), .string _, .boolean _, .var rfl (by decide)⟩
  simp only [List.forall_mem_cons, List.not_mem_nil, false_implies, implies_true, and_true]
  exact ⟨.int _, .int _, .null⟩

theorem readsBack_sampleValue : sampleValue.ReadsBack Token.maxOpen := by
  show sampleValue.ReadsBack 50
  refine .object ?_
  simp only [List.forall_mem_cons, List.not_mem_nil, false_implies, implies_true, and_true]
  refine ⟨.list ?_, .enum _, .string (List.forall_iff_forall_mem.1 (by decide +kernel)), .boolean _, .var _⟩
  simp only [List.forall_mem_cons, List.not_mem_nil, false_implies, implies_true, and_true]
  exact ⟨.int _, .int _, .null⟩

/-- a search with an argument that has a null character as its default value -/
def nullSchema : SchemaDocument :=
  [.type ⟨none, "Query", [], .object []
    [⟨none, "find", [⟨none, "text", .named "String", some (.string "\x00"), []⟩], .named "String", []⟩]⟩]

theorem values_read_back_iff_sample :
    sampleValue.render = "\x7bids: [7, -12, null], kind: ADMIN, name: \"a \\\"b\\\"\\n\", on: true, when: $time\x7d" ∧
      Reader.ofText? (Reader.value false) sampleValue.render = some sampleValue ∧
      ∃ schema query field, Schema.ofDocument nullSchema = .ok schema ∧ schema.type? "Query" = some query ∧
        query.fields.get? "find" = some field ∧ ∃ d ∈ TypePart.fields.among nullSchema.typeDeclarations "Query",
          d.name = "find" ∧ List.Forall₂ (DefaultWritten schema) d.arguments field.arguments := by
  obtain ⟨hread, -, hdefaults⟩ := values_read_back_iff proper_sampleValue
  refine ⟨by decide +kernel, hread.2 readsBack_sampleValue, ?_⟩
  exact ⟨_, _, _, rfl, rfl, rfl, ((hdefaults nullSchema _ rfl).1 "Query" _ rfl).2 "find" _ rfl⟩

/-- **A null character cannot be read back:** the text that is indexed for it is no value -/
theorem null_character_lost :
    (Value.string "\x00").Proper true ∧ (Value.string "\x00").render = "\"\\0\"" ∧
      Reader.ofText? (Reader.value true) (Value.string "\x00").render = none ∧
      ∃ schema query field argument, Schema.ofDocument nullSchema = .ok schema ∧ schema.type? "Query" = some query ∧
        query.fields.get? "find" = some field ∧ field.arguments = [argument] ∧ argument.default = some "\"\\0\"" := by
  have hproper : (Value.string "\x00").Proper true := .string _
  have hrender : (Value.string "\x00").render = "\"\\0\"" := by decide +kernel
  have hlost : ¬ (Value.string "\x00").ReadsBack Token.maxOpen :=
    fun hb => absurd (Value.readsBack_string_iff.1 hb '\x00' (by decide)) (by decide +kernel)
  refine ⟨hproper, hrender, Reader.ofText?_render_eq_none hproper hlost _, ?_⟩
  exact ⟨_, _, _, _, rfl, rfl, rfl, rfl, congrArg some hrender⟩

end GraphGen
