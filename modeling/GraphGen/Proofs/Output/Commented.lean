/-
Texts with comments put between their rows.

Plugins write the description of something as a comment in front of it. What they write with descriptions and what they write
without are the same rows in the same order, with the rows of comments between them in the first (`Commented`). This is so for
steps, whose runs come to the same level (`Described.written`), for finished texts (`Described.text`), and for finished texts
that are written again line by line (`TextsAlike.lines`): a comment is cut into the rows that it was written in.

- `NoteRows`: the rows of a comment at some level, of a description without the end of a comment.
- `AddsComments`: a text is another one with comments put between its rows.
-/
import GraphGen.Proofs.Output.Comments
import Mathlib.Data.List.Forall2

namespace GraphGen

/-! ## Rows -/

/-- rows, and the same rows with comments put between them -/
inductive Commented (Comment : List String → Prop) : List String → List String → Prop where
  | nil : Commented Comment [] []
  | row (row : String) {plain rows : List String} (h : Commented Comment plain rows) :
    Commented Comment (row :: plain) (row :: rows)
  | comment {comment plain rows : List String} (hcomment : Comment comment) (h : Commented Comment plain rows) :
    Commented Comment plain (comment ++ rows)

namespace Commented

variable {Comment Other : List String → Prop} {plain rows more moreRows : List String}

theorem refl (rows : List String) : Commented Comment rows rows := by
  induction rows with
  | nil => exact .nil
  | cons row rows ih => exact .row row ih

theorem append (h : Commented Comment plain rows) (hmore : Commented Comment more moreRows) :
    Commented Comment (plain ++ more) (rows ++ moreRows) := by
  induction h with
  | nil => exact hmore
  | row row _ ih => exact .row row ih
  | comment hcomment _ ih =>
    rw [List.append_assoc]
    exact .comment hcomment ih

theorem ne_nil (h : Commented Comment plain rows) (hne : plain ≠ []) : rows ≠ [] := by
  induction h with
  | nil => exact hne
  | row row _ _ => exact List.cons_ne_nil row _
  | comment _ _ ih => exact List.append_ne_nil_of_right_ne_nil _ (ih hne)

/-- rows may be replaced by others, each by some, if comments become comments -/
theorem flatMap (h : Commented Comment plain rows) (f : String → List String)
    (hf : ∀ comment, Comment comment → Other (comment.flatMap f)) : Commented Other (plain.flatMap f) (rows.flatMap f) := by
  induction h with
  | nil => exact .nil
  | row row _ ih =>
    rw [List.flatMap_cons, List.flatMap_cons]
    exact (refl _).append ih
  | comment hcomment _ ih =>
    rw [List.flatMap_append]
    exact .comment (hf _ hcomment) ih

theorem map (h : Commented Comment plain rows) (f : String → String)
    (hf : ∀ comment, Comment comment → Other (comment.map f)) : Commented Other (plain.map f) (rows.map f) := by
  rw [List.map_eq_flatMap, List.map_eq_flatMap]
  exact h.flatMap _ fun comment hcomment => by
    rw [← List.map_eq_flatMap]
    exact hf comment hcomment

theorem mono (h : Commented Comment plain rows) (himp : ∀ comment, Comment comment → Other comment) :
    Commented Other plain rows := by
  have hid := h.map id fun comment hcomment => by
    rw [List.map_id]
    exact himp comment hcomment
  rwa [List.map_id, List.map_id] at hid

end Commented

/-- the rows of a comment at some level, of a description without the end of a comment -/
def NoteRows (options : IndentStyle) (rows : List String) : Prop :=
  ∃ description level, terminators description = 0 ∧ rows = (Text.lines (docComment description)).map (options.row level)

theorem NoteRows.moved {options : IndentStyle} {rows : List String} (h : NoteRows options rows) (level : Nat) :
    NoteRows options (rows.map (options.row level)) := by
  obtain ⟨description, inner, hnone, hrows⟩ := h
  refine ⟨description, level + inner, hnone, ?_⟩
  rw [hrows, List.map_map]
  exact List.map_congr_left fun row _ => (options.row_add level inner row).symm

/-- the rows of a comment stay as they are when a text is cut into lines -/
theorem NoteRows.unbroken {options : IndentStyle} {rows : List String} (h : NoteRows options rows) :
    ∀ row ∈ rows, Unbroken row := by
  obtain ⟨description, level, -, hrows⟩ := h
  rw [hrows, lines_docComment, List.forall_mem_map]
  exact fun row hrow => IndentStyle.unbroken_row (unbroken_commentRows (unbroken_descriptionLines description) row hrow)

/-! ## Steps -/

/-- steps, and the same steps with descriptions in comments; texts that are written line by line may have comments of their own -/
inductive Described (options : IndentStyle) : List Step → List Step → Prop where
  | nil : Described options [] []
  | step (step : Step) {plain steps : List Step} (h : Described options plain steps) :
    Described options (step :: plain) (step :: steps)
  | comment {description : String} {plain steps : List Step} (hnone : terminators description = 0)
    (h : Described options plain steps) : Described options plain (.lines (docComment description) :: steps)
  | empty {plain steps : List Step} (h : Described options plain steps) : Described options (.lines "" :: plain) steps
  | block (opening closing : String) {body inner plain steps : List Step} (hbody : Described options body inner)
    (h : Described options plain steps) :
    Described options (.block opening closing body :: plain) (.block opening closing inner :: steps)
  | lines {text other : String} {plain steps : List Step}
    (hlines : Commented (NoteRows options) (Text.lines text) (Text.lines other)) (h : Described options plain steps) :
    Described options (.lines text :: plain) (.lines other :: steps)

/-- what a comment is written for: the same in both, or nothing, and in the second a description without the end of a comment -/
def CommentFor (plain comment : Option String) : Prop :=
  plain = comment ∨ (plain = none ∨ plain = some "") ∧ ∀ description, comment = some description → terminators description = 0

/-- none of the descriptions has the end of a comment -/
def Contained (notes : List String) : Prop :=
  ∀ note ∈ notes, terminators note = 0

theorem CommentFor.of_contained {description : Option String} (h : Contained description.toList) :
    CommentFor none description :=
  .inr ⟨.inl rfl, fun text htext => h text (by rw [htext]; exact List.mem_cons_self)⟩

theorem contained_flatMap_iff {α : Type} {l : List α} {notes : α → List String} :
    Contained (l.flatMap notes) ↔ ∀ a ∈ l, Contained (notes a) :=
  List.forall_mem_flatMap

namespace Described

variable {options : IndentStyle} {plain steps more moreSteps : List Step}

theorem refl (steps : List Step) : Described options steps steps := by
  induction steps with
  | nil => exact .nil
  | cons step steps ih => exact .step step ih

theorem append (h : Described options plain steps) (hmore : Described options more moreSteps) :
    Described options (plain ++ more) (steps ++ moreSteps) := by
  induction h with
  | nil => exact hmore
  | step step _ ih => exact .step step ih
  | comment hnone _ ih => exact .comment hnone ih
  | empty _ ih => exact .empty ih
  | block opening closing hbody _ _ ih => exact .block opening closing hbody ih
  | lines hlines _ ih => exact .lines hlines ih

theorem flatMap {α β : Type} {R : α → β → Prop} {f : α → List Step} {g : β → List Step}
    (hR : ∀ a b, R a b → Described options (f a) (g b)) {l : List α} {l' : List β} (h : List.Forall₂ R l l') :
    Described options (l.flatMap f) (l'.flatMap g) := by
  induction h with
  | nil => exact .nil
  | cons hfirst _ ih => exact (hR _ _ hfirst).append ih

theorem flatMap_map {α : Type} {f : α → α} {F G : α → List Step} {l : List α} {options : IndentStyle}
    (h : ∀ a ∈ l, Described options (F (f a)) (G a)) : Described options ((l.map f).flatMap F) (l.flatMap G) := by
  induction l with
  | nil => exact .nil
  | cons a l ih =>
    obtain ⟨hfirst, hrest⟩ := List.forall_mem_cons.1 h
    exact hfirst.append (ih hrest)

theorem commentSteps {plainComment comment : Option String} (hcomment : CommentFor plainComment comment)
    (h : Described options plain steps) :
    Described options (commentSteps plainComment ++ plain) (commentSteps comment ++ steps) := by
  rcases hcomment with rfl | ⟨hempty, hnone⟩
  · exact (refl _).append h
  · have hafter : Described options plain (GraphGen.commentSteps comment ++ steps) := by
      cases comment with
      | none => exact h
      | some description => exact .comment (hnone description rfl) h
    rcases hempty with rfl | rfl
    · exact hafter
    · exact .empty hafter

theorem block_singleton (opening closing : String) {body inner : List Step} (h : Described options body inner) :
    Described options [.block opening closing body] [.block opening closing inner] :=
  .block opening closing h .nil

end Described

/-- both fail, or both come to the same level, with comments between the rows of the second -/
def SameLevel (options : IndentStyle) : Option (List String × Nat) → Option (List String × Nat) → Prop :=
  Option.Rel fun plain written => Commented (NoteRows options) plain.1 written.1 ∧ plain.2 = written.2

section Written

variable {options : IndentStyle} {plain steps : List Step}

theorem SameLevel.refl (written : Option (List String × Nat)) : SameLevel options written written := by
  cases written with
  | none => exact .none
  | some written => exact .some ⟨.refl _, rfl⟩

theorem SameLevel.cons {first other : Step} {level : Nat}
    (hfirst : SameLevel options (first.written? options level) (other.written? options level))
    (hrest : ∀ next, SameLevel options (Step.writtenAll? options plain next) (Step.writtenAll? options steps next)) :
    SameLevel options (Step.writtenAll? options (first :: plain) level) (Step.writtenAll? options (other :: steps) level) := by
  rw [Step.writtenAll?, Step.writtenAll?]
  generalize first.written? options level = written at hfirst ⊢
  generalize other.written? options level = written' at hfirst ⊢
  cases hfirst with
  | none => exact .none
  | some h =>
    rename_i head head'
    obtain ⟨rows, next⟩ := head
    obtain ⟨rows', next'⟩ := head'
    obtain ⟨hrows, rfl⟩ : Commented (NoteRows options) rows rows' ∧ next = next' := h
    have htail := hrest next
    rw [Option.bind_some, Option.bind_some]
    dsimp only
    generalize Step.writtenAll? options plain next = more at htail ⊢
    generalize Step.writtenAll? options steps next = more' at htail ⊢
    cases htail with
    | none => exact .none
    | some h => exact .some ⟨hrows.append h.1, h.2⟩

/-- **Descriptions change nothing but the rows of their comments.** -/
theorem Described.written (h : Described options plain steps) :
    ∀ level, SameLevel options (Step.writtenAll? options plain level) (Step.writtenAll? options steps level) := by
  induction h with
  | nil => exact fun _ => .refl _
  | step step _ ih => exact fun level => .cons (.refl _) ih
  | @comment description plain steps hnone _ ih =>
    intro level
    have htail := ih level
    rw [writtenAll?_lines_cons]
    generalize Step.writtenAll? options plain level = more at htail ⊢
    generalize Step.writtenAll? options steps level = more' at htail ⊢
    cases htail with
    | none => exact .none
    | some h => exact .some ⟨.comment ⟨description, level, hnone, rfl⟩ h.1, h.2⟩
  | empty _ ih =>
    intro level
    rw [writtenAll?_lines_cons]
    exact Option.map_id'.symm ▸ ih level
  | @block opening closing body inner _ _ _ _ hbody ih =>
    refine fun level => .cons ?_ ih
    have hinner := hbody (level + 1)
    rw [Step.written?, Step.written?]
    generalize Step.writtenAll? options body (level + 1) = rows at hinner ⊢
    generalize Step.writtenAll? options inner (level + 1) = rows' at hinner ⊢
    cases hinner with
    | none => exact .none
    | some h =>
      rename_i written written'
      obtain ⟨rows, last⟩ := written
      obtain ⟨rows', last'⟩ := written'
      obtain ⟨hrows, rfl⟩ : Commented (NoteRows options) rows rows' ∧ last = last' := h
      cases last with
      | zero => exact .none
      | succ outer => exact .some ⟨.row _ (hrows.append (.refl _)), rfl⟩
  | lines hlines _ ih =>
    exact fun level => .cons (.some ⟨hlines.map _ fun _ hcomment => hcomment.moved level, rfl⟩) ih

end Written

/-! ## Finished texts -/

/-- a text is another one with comments put between its rows; a configured text may have line feeds of its own, so that a row is
not always a line -/
def AddsComments (Comment : List String → Prop) (plain text : String) : Prop :=
  ∃ plainRows rows, plain = String.intercalate "\n" plainRows ∧ text = String.intercalate "\n" rows ∧
    Commented Comment plainRows rows ∧ plainRows ≠ []

/-- finished texts of the same rows, with comments between them in the second, or two empty texts -/
inductive TextsAlike (Comment : List String → Prop) : String → String → Prop where
  | empty : TextsAlike Comment "" ""
  | rows {plain rows : List String} {plainLast last : String} (hplain : EndsVisibly plainLast) (hlast : EndsVisibly last)
    (h : Commented Comment (plain ++ [plainLast]) (rows ++ [last])) :
    TextsAlike Comment (unlines plain ++ plainLast) (unlines rows ++ last)

theorem endsVisibly_brace : EndsVisibly "\x7d" := ⟨'\x7d', rfl, by decide⟩

theorem endsVisibly_append (before : String) {after : String} (h : EndsVisibly after) : EndsVisibly (before ++ after) := by
  obtain ⟨c, hlast, hc⟩ := h
  exact ⟨c, by rw [String.toList_append, List.getLast?_append, hlast, Option.some_or], hc⟩

theorem EndsVisibly.row {options : IndentStyle} {level : Nat} {text : String} (h : EndsVisibly text) :
    EndsVisibly (options.row level text) := by
  obtain ⟨c, hlast, hc⟩ := h
  have hne : text ≠ "" := by
    rintro rfl
    cases hlast
  refine ⟨c, ?_, hc⟩
  rw [IndentStyle.row_of_ne hne, String.toList_append, List.getLast?_append, hlast, Option.some_or]

theorem EndsVisibly.ne_empty {text : String} (h : EndsVisibly text) : text ≠ "" := by
  rintro rfl
  obtain ⟨c, hlast, -⟩ := h
  cases hlast

/-- a text is finished without the line feed behind its last row -/
theorem stripEnd_unlines_concat (rows : List String) {last : String} (h : EndsVisibly last) :
    Writer.stripEnd (unlines (rows ++ [last])) = unlines rows ++ last := by
  obtain ⟨c, hlast, hfeed, -⟩ := id h
  exact stripEnd_unlines rows 0 (by rw [hlast, Ne, Option.some_inj]; exact hfeed) h.ne_empty

/-- **Steps and the same steps with descriptions** are finished as the same text, up to comments. -/
theorem Described.text {plain steps : List Step} (h : Described { } plain steps) {text : String}
    (hplain : plain.getLast?.bind Step.closing? = some text) (hsteps : steps.getLast?.bind Step.closing? = some text)
    (htext : EndsVisibly text) : TextsAlike (NoteRows { }) (Step.text plain) (Step.text steps) := by
  have hlevel := h.written 0
  have hfinished : ∀ {steps : List Step} {written : List String × Nat}, steps.getLast?.bind Step.closing? = some text →
      Step.writtenAll? { } steps 0 = some written →
      ∃ rows last, EndsVisibly last ∧ written.1 = rows ++ [last] ∧ Writer.stripEnd (unlines written.1) = unlines rows ++ last := by
    intro steps written hlast hwritten
    obtain ⟨inner, hinner⟩ := getLast?_writtenAll hlast hwritten
    obtain ⟨rows, hrows⟩ := List.getLast?_eq_some_iff.1 hinner
    exact ⟨rows, _, htext.row, hrows, by rw [hrows, stripEnd_unlines_concat rows htext.row]⟩
  rw [text_eq, text_eq]
  generalize hp : Step.writtenAll? { } plain 0 = written at hlevel ⊢
  generalize hs : Step.writtenAll? { } steps 0 = written' at hlevel ⊢
  cases hlevel with
  | none => exact .empty
  | some hrows =>
    obtain ⟨plainRows, plainLast, hvisible, hplainRows, hplainText⟩ := hfinished hplain hp
    obtain ⟨rows, last, hvisible', hallRows, hallText⟩ := hfinished hsteps hs
    rw [Option.elim_some, Option.elim_some, hplainText, hallText]
    exact .rows hvisible hvisible' (hplainRows ▸ hallRows ▸ hrows.1)

theorem closing_append {steps more : List Step} {text : String} (h : more.getLast?.bind Step.closing? = some text) :
    (steps ++ more).getLast?.bind Step.closing? = some text := by
  obtain ⟨last, hlast, hclosing⟩ := Option.bind_eq_some_iff.1 h
  rw [List.getLast?_append, hlast, Option.some_or, Option.bind_some, hclosing]

/-- steps behind a comment -/
theorem TextsAlike.of_comment {plainComment comment : Option String} (hcomment : CommentFor plainComment comment)
    {plain steps : List Step} (h : Described { } plain steps) {text : String}
    (hplain : plain.getLast?.bind Step.closing? = some text) (hsteps : steps.getLast?.bind Step.closing? = some text)
    (htext : EndsVisibly text) :
    TextsAlike (NoteRows { }) (Step.text (GraphGen.commentSteps plainComment ++ plain))
      (Step.text (GraphGen.commentSteps comment ++ steps)) :=
  (Described.commentSteps hcomment h).text (closing_append hplain) (closing_append hsteps) htext

/-- such texts are cut into such lines -/
theorem TextsAlike.lines {options : IndentStyle} {plain text : String} (h : TextsAlike (NoteRows options) plain text) :
    Commented (NoteRows options) (Text.lines plain) (Text.lines text) := by
  cases h with
  | empty => exact .refl _
  | rows hplain hlast h =>
    have hcut : ∀ (rows : List String) {last : String}, EndsVisibly last →
        Text.lines (unlines rows ++ last) = (rows ++ [last]).flatMap fun row => Text.lines (row ++ "\n") := by
      intro rows last hlast
      rw [lines_unlines_append, List.flatMap_append, List.flatMap_singleton, lines_append_feed hlast]
    rw [hcut _ hplain, hcut _ hlast]
    refine h.flatMap _ fun comment hcomment => ?_
    rwa [flatMap_lines_rows hcomment.unbroken]

namespace AddsComments

variable {Comment Other : List String → Prop} {plain text : String}

theorem refl (text : String) : AddsComments Comment text text :=
  ⟨[text], [text], String.intercalate_singleton.symm, String.intercalate_singleton.symm, .refl _, List.cons_ne_nil _ _⟩

theorem mono (h : AddsComments Comment plain text) (himp : ∀ comment, Comment comment → Other comment) :
    AddsComments Other plain text := by
  obtain ⟨plainRows, rows, hplain, htext, hrows, hne⟩ := h
  exact ⟨plainRows, rows, hplain, htext, hrows.mono himp, hne⟩

theorem ofTextsAlike (h : TextsAlike Comment plain text) : AddsComments Comment plain text := by
  cases h with
  | empty => exact refl ""
  | rows _ _ h =>
    exact ⟨_, _, (intercalate_concat _ _).symm, (intercalate_concat _ _).symm, h, List.append_ne_nil_of_right_ne_nil _ (by simp)⟩

/-- texts with a blank line between them -/
theorem intercalate {plains texts : List String} (h : List.Forall₂ (AddsComments Comment) plains texts) :
    AddsComments Comment (String.intercalate "\n\n" plains) (String.intercalate "\n\n" texts) := by
  induction h with
  | nil => exact refl ""
  | @cons plain text plains texts hfirst hrest ih =>
    cases hrest with
    | nil =>
      rw [String.intercalate_singleton, String.intercalate_singleton]
      exact hfirst
    | cons =>
      obtain ⟨plainRows, rows, rfl, rfl, hrows, hne⟩ := hfirst
      obtain ⟨morePlain, more, hplain, htext, hmore, hmoreNe⟩ := ih
      have hjoin : ∀ rows more : List String, rows ≠ [] → more ≠ [] →
          String.intercalate "\n" (rows ++ "" :: more) =
            String.intercalate "\n" rows ++ "\n\n" ++ String.intercalate "\n" more := by
        intro rows more hrows hmore
        rw [intercalate_append hrows (List.cons_ne_nil _ _), String.intercalate_cons_of_ne_nil hmore]
        simp only [String.append_assoc]
        rfl
      refine ⟨plainRows ++ "" :: morePlain, rows ++ "" :: more, ?_, ?_, hrows.append (.row "" hmore), by simp⟩
      · rw [String.intercalate_cons_of_ne_nil (List.cons_ne_nil _ _), hplain, hjoin _ _ hne hmoreNe]
      · rw [String.intercalate_cons_of_ne_nil (List.cons_ne_nil _ _), htext, hjoin _ _ (hrows.ne_nil hne) (hmore.ne_nil hmoreNe)]

end AddsComments

end GraphGen
