/-
Rows of written text.

Whatever a writer writes are rows, each with a line feed behind it (`unlines`). A row that is not empty begins with the margin of
its level. A configured text may have line feeds of its own, so that a row is not always a line.

- `IndentStyle.row_add`: margins add up.
- `Step.writtenAll?`: the rows of steps, without a writer; `runAll?_eq` says that a run writes these.
- `lines_unlines_append`: a text made of rows is cut row by row; rows without line ends are its lines.
- `stripEnd_unlines`: without the line feeds at its end, such a text has lost its last empty rows.
-/
import GraphGen.Output.Writer
import Mathlib.Data.List.Basic
import Mathlib.Data.List.Induction

namespace GraphGen

/-- rows of text, each with a line feed behind it -/
def unlines (rows : List String) : String :=
  String.join (rows.map (· ++ "\n"))

theorem unlines_append (rows more : List String) : unlines (rows ++ more) = unlines rows ++ unlines more := by
  rw [unlines, List.map_append, String.join_append]
  rfl

theorem unlines_cons (row : String) (rows : List String) : unlines (row :: rows) = row ++ "\n" ++ unlines rows := by
  rw [unlines, List.map_cons, String.join_cons]
  rfl

theorem unlines_singleton (row : String) : unlines [row] = row ++ "\n" := by
  rw [unlines_cons, unlines, List.map_nil, String.join_nil, String.append_empty]

/-- rows with line feeds between them -/
theorem intercalate_concat (rows : List String) (last : String) :
    String.intercalate "\n" (rows ++ [last]) = unlines rows ++ last := by
  induction rows with
  | nil => rw [List.nil_append, String.intercalate_singleton, unlines, List.map_nil, String.join_nil, String.empty_append]
  | cons row rows ih =>
    rw [List.cons_append, String.intercalate_cons_of_ne_nil (List.append_ne_nil_of_right_ne_nil _ (List.cons_ne_nil _ _)), ih,
      unlines_cons]
    exact String.append_assoc.symm

theorem intercalate_append_feed {rows : List String} (h : rows ≠ []) : String.intercalate "\n" rows ++ "\n" = unlines rows := by
  obtain hnil | ⟨rows, last, rfl⟩ := rows.eq_nil_or_concat'
  · exact absurd hnil h
  · rw [intercalate_concat, unlines_append, unlines_singleton, String.append_assoc]

theorem intercalate_append {rows more : List String} (h : rows ≠ []) (hmore : more ≠ []) :
    String.intercalate "\n" (rows ++ more) = String.intercalate "\n" rows ++ "\n" ++ String.intercalate "\n" more := by
  obtain hnil | ⟨more, last, rfl⟩ := more.eq_nil_or_concat'
  · exact absurd hnil hmore
  · rw [intercalate_append_feed h, ← List.append_assoc, intercalate_concat, intercalate_concat, unlines_append,
      String.append_assoc]

/-! ## Rows of a writer -/

/-- a row at a level; an empty row is not indented -/
def IndentStyle.row (options : IndentStyle) (level : Nat) (text : String) : String :=
  if text.isEmpty then "" else options.margin level ++ text

/-- margins add up -/
theorem IndentStyle.margin_add (options : IndentStyle) (level more : Nat) :
    options.margin (level + more) = options.margin level ++ options.margin more := by
  unfold IndentStyle.margin
  split
  · rw [List.replicate_add, String.ofList_append]
  · rw [Nat.add_mul, List.replicate_add, String.ofList_append]

theorem IndentStyle.row_empty (options : IndentStyle) (level : Nat) : options.row level "" = "" := rfl

theorem IndentStyle.margin_zero (options : IndentStyle) : options.margin 0 = "" := by
  unfold IndentStyle.margin
  split
  · rfl
  · rw [Nat.zero_mul]
    rfl

theorem IndentStyle.row_zero (options : IndentStyle) (text : String) : options.row 0 text = text := by
  unfold IndentStyle.row
  split
  · rename_i h
    exact (String.isEmpty_iff.1 h).symm
  · rw [margin_zero, String.empty_append]

theorem IndentStyle.map_row_zero (options : IndentStyle) (rows : List String) : rows.map (options.row 0) = rows := by
  rw [funext options.row_zero, List.map_id']

theorem IndentStyle.row_of_ne {options : IndentStyle} {level : Nat} {text : String} (h : text ≠ "") :
    options.row level text = options.margin level ++ text := by
  rw [IndentStyle.row, if_neg (mt String.isEmpty_iff.1 h)]

theorem IndentStyle.row_ne {options : IndentStyle} {level : Nat} {text : String} (h : text ≠ "") :
    options.row level text ≠ "" := by
  rw [IndentStyle.row_of_ne h]
  exact fun hnil => h (String.append_eq_empty_iff.1 hnil).2

/-- a row at a level, moved by another level -/
theorem IndentStyle.row_add (options : IndentStyle) (level more : Nat) (text : String) :
    options.row (level + more) text = options.row level (options.row more text) := by
  by_cases h : text = ""
  · rw [h]
    rfl
  · rw [row_of_ne h, row_of_ne (row_ne h), row_of_ne h, margin_add, String.append_assoc]

theorem IndentStyle.eq_of_mem_margin {options : IndentStyle} {level : Nat} {c : Char}
    (h : c ∈ (options.margin level).toList) : c = ' ' ∨ c = '\t' := by
  unfold IndentStyle.margin at h
  split at h <;> rw [String.toList_ofList] at h
  · exact .inr (List.eq_of_mem_replicate h)
  · exact .inl (List.eq_of_mem_replicate h)

/-- a row begins with blank characters that end no line, and the text follows -/
theorem IndentStyle.exists_row_eq (options : IndentStyle) (level : Nat) (text : String) :
    ∃ space : List Char, (∀ c ∈ space, c = ' ' ∨ c = '\t') ∧ (options.row level text).toList = space ++ text.toList := by
  by_cases h : text = ""
  · exact ⟨[], nofun, by rw [h]; rfl⟩
  · exact ⟨(options.margin level).toList, fun _ => eq_of_mem_margin, by rw [row_of_ne h, String.toList_append]⟩

/-- a writer that has written some rows -/
def Writer.put (w : Writer) (rows : List String) : Writer :=
  { w with output := w.output ++ unlines rows }

theorem Writer.put_nil (w : Writer) : w.put [] = w := by
  rw [put, unlines, List.map_nil, String.join_nil, String.append_empty]

theorem Writer.put_put (w : Writer) (rows more : List String) : (w.put rows).put more = w.put (rows ++ more) := by
  simp only [put, unlines_append, String.append_assoc]

theorem Writer.line_eq (w : Writer) (text : String) : w.line text = w.put [w.options.row w.level text] := by
  unfold line put IndentStyle.row
  rw [unlines_singleton]
  split
  · rename_i h
    simp [String.isEmpty_iff.1 h]
  · simp [String.append_assoc]

theorem Writer.blank_eq (w : Writer) : w.blank = w.put [""] := by
  rw [put, unlines_singleton, String.empty_append]
  rfl

theorem Writer.lines_eq (w : Writer) (text : String) :
    w.lines text = w.put ((Text.lines text).map (w.options.row w.level)) := by
  unfold lines
  induction Text.lines text generalizing w with
  | nil => exact w.put_nil.symm
  | cons row rows ih =>
    rw [List.foldl_cons, ih, line_eq, put_put]
    rfl

/-! ## Rows of steps -/

mutual

/-- the rows that a step writes at a level, and the level behind it, if it does not fail -/
def Step.written? (options : IndentStyle) : Step → Nat → Option (List String × Nat)
  | line text, level => some ([options.row level text], level)
  | blank, level => some ([""], level)
  | lines text, level => some ((Text.lines text).map (options.row level), level)
  | indent, level => some ([], level + 1)
  | dedent, level => some ([], level - 1)
  | block opening closing body, level =>
    match Step.writtenAll? options body (level + 1) with
    | some (rows, outer + 1) => some (options.row level opening :: rows ++ [options.row outer closing], outer)
    | _ => none

/-- the rows that steps write from a level on, and the level behind them -/
def Step.writtenAll? (options : IndentStyle) : List Step → Nat → Option (List String × Nat)
  | [], level => some ([], level)
  | step :: rest, level =>
    (step.written? options level).bind fun (rows, next) =>
      (Step.writtenAll? options rest next).map fun (more, last) => (rows ++ more, last)

end

theorem writtenAll?_cons {options : IndentStyle} {step : Step} {rest : List Step} {rows more : List String}
    {level next last : Nat} (hstep : step.written? options level = some (rows, next))
    (hrest : Step.writtenAll? options rest next = some (more, last)) :
    Step.writtenAll? options (step :: rest) level = some (rows ++ more, last) := by
  simp only [Step.writtenAll?, hstep, hrest, Option.bind_some, Option.map_some]

theorem writtenAll?_lines_cons (options : IndentStyle) (text : String) (rest : List Step) (level : Nat) :
    Step.writtenAll? options (.lines text :: rest) level =
      (Step.writtenAll? options rest level).map fun (more, last) => ((Text.lines text).map (options.row level) ++ more, last) :=
  rfl

/-- a writer that has written some rows and come to a level -/
def Writer.putTo (w : Writer) (written : List String × Nat) : Writer :=
  { w.put written.1 with level := written.2 }

theorem Writer.putTo_putTo (w : Writer) (rows more : List String) (level last : Nat) :
    (w.putTo (rows, level)).putTo (more, last) = w.putTo (rows ++ more, last) :=
  congrArg (fun v : Writer => { v with level := last }) (w.put_put rows more)

mutual

theorem run?_eq : (step : Step) → ∀ w : Writer, step.run? w = (step.written? w.options w.level).map w.putTo
  | .line text, w => congrArg some (w.line_eq text)
  | .blank, w => congrArg some w.blank_eq
  | .lines text, w => congrArg some (w.lines_eq text)
  | .indent, w => by
    rw [Step.written?, Option.map_some, Writer.putTo, Writer.put_nil]
    rfl
  | .dedent, w => by
    rw [Step.written?, Option.map_some, Writer.putTo, Writer.put_nil]
    rfl
  | .block opening closing body, w => by
    have hbody : Step.runAll? body (w.line opening).indent =
        (Step.writtenAll? w.options body (w.level + 1)).map (w.line opening).indent.putTo := runAll?_eq body _
    rw [Step.run?, hbody, Step.written?]
    match Step.writtenAll? w.options body (w.level + 1) with
    | none => rfl
    | some (_, 0) => rfl
    | some (rows, outer + 1) =>
      have hleave : ((w.line opening).indent.putTo (rows, outer + 1)).leave? =
          some (w.putTo (w.options.row w.level opening :: rows, outer)) := by
        rw [Writer.line_eq]
        exact congrArg some (w.putTo_putTo [_] rows w.level outer)
      rw [Option.map_some, Option.bind_some, hleave, Option.map_some, Writer.line_eq]
      exact congrArg some (w.putTo_putTo (_ :: rows) [_] outer outer)

/-- **What a run writes are the rows of its steps,** whatever was written before. -/
theorem runAll?_eq : (steps : List Step) → ∀ w : Writer,
    Step.runAll? steps w = (Step.writtenAll? w.options steps w.level).map w.putTo
  | [], w => congrArg some w.put_nil.symm
  | step :: rest, w => by
    rw [Step.runAll?, run?_eq step, Step.writtenAll?]
    match step.written? w.options w.level with
    | none => rfl
    | some (rows, next) =>
      have hrest : Step.runAll? rest (w.putTo (rows, next)) =
          (Step.writtenAll? w.options rest next).map (w.putTo (rows, next)).putTo := runAll?_eq rest _
      rw [Option.map_some, Option.bind_some, Option.bind_some, hrest, Option.map_map]
      exact congrArg (Option.map · _) (funext fun written => w.putTo_putTo rows written.1 next written.2)

end

/-! ## Lines of rows -/

/-- a text on one line -/
def OneLine (text : String) : Prop :=
  '\n' ∉ text.toList ∧ '\r' ∉ text.toList

instance (text : String) : Decidable (OneLine text) :=
  inferInstanceAs (Decidable (_ ∧ _))

/-- a row that is one line when a text is cut at its line ends -/
def Unbroken (row : String) : Prop :=
  '\n' ∉ row.toList ∧ row.toList.getLast? ≠ some '\r'

instance (row : String) : Decidable (Unbroken row) :=
  inferInstanceAs (Decidable (_ ∧ _))

theorem OneLine.unbroken {text : String} (h : OneLine text) : Unbroken text :=
  ⟨h.1, fun hlast => h.2 (List.mem_of_getLast? hlast)⟩

theorem IndentStyle.oneLine_row {options : IndentStyle} {level : Nat} {text : String} (h : OneLine text) :
    OneLine (options.row level text) := by
  obtain ⟨space, hspace, hrow⟩ := options.exists_row_eq level text
  unfold OneLine
  rw [hrow, List.mem_append, List.mem_append, not_or, not_or]
  refine ⟨⟨fun hc => ?_, h.1⟩, fun hc => ?_, h.2⟩
  · exact absurd (hspace _ hc) (by decide)
  · exact absurd (hspace _ hc) (by decide)

theorem unbroken_append {before after : String} (hbefore : '\n' ∉ before.toList) (hne : after ≠ "") (h : Unbroken after) :
    Unbroken (before ++ after) := by
  have hlist : after.toList ≠ [] := mt (fun h => String.toList_eq_nil_iff.1 h) hne
  rw [Unbroken, String.toList_append, List.mem_append, not_or, List.getLast?_append_of_ne_nil _ hlist]
  exact ⟨⟨hbefore, h.1⟩, h.2⟩

theorem IndentStyle.unbroken_row {options : IndentStyle} {level : Nat} {text : String} (h : Unbroken text) :
    Unbroken (options.row level text) := by
  by_cases hne : text = ""
  · rw [hne, row_empty]
    decide
  · rw [row_of_ne hne]
    refine unbroken_append (fun hmem => ?_) hne h
    exact absurd (eq_of_mem_margin hmem) (by decide)

/-- lines are cut anew behind every line feed -/
theorem Text.cutLines_append (line taken rest : List Char) :
    cutLines line (taken ++ '\n' :: rest) = cutLines line (taken ++ ['\n']) ++ cutLines [] rest := by
  induction taken generalizing line with
  | nil =>
    rw [List.nil_append, List.nil_append, cutLines, cutLines, if_pos rfl, if_pos rfl]
    rfl
  | cons c taken ih =>
    rw [List.cons_append, List.cons_append, cutLines, cutLines]
    split
    · rw [ih, List.cons_append]
    · rw [ih]

theorem Text.cutLines_of_not_mem (line taken : List Char) (h : '\n' ∉ taken) (rest : List Char) :
    cutLines line (taken ++ rest) = cutLines (taken.reverse ++ line) rest := by
  induction taken generalizing line with
  | nil => rfl
  | cons c taken ih =>
    obtain ⟨hc, htaken⟩ := not_or.1 (mt List.mem_cons.2 h)
    rw [List.cons_append, cutLines, if_neg (Ne.symm hc), ih (c :: line) htaken, List.reverse_cons, List.append_assoc]
    rfl

/-- a text of rows is cut row by row -/
theorem lines_unlines_append (rows : List String) (last : String) :
    Text.lines (unlines rows ++ last) = rows.flatMap (fun row => Text.lines (row ++ "\n")) ++ Text.lines last := by
  induction rows with
  | nil =>
    rw [unlines, List.map_nil, String.join_nil, String.empty_append]
    rfl
  | cons row rows ih =>
    rw [List.flatMap_cons, List.append_assoc, ← ih, unlines_cons]
    simp only [Text.lines, ← List.map_append]
    congr 1
    simpa using Text.cutLines_append [] row.toList (unlines rows ++ last).toList

theorem lines_row {row : String} (h : Unbroken row) : Text.lines (row ++ "\n") = [row] := by
  have hcut : Text.cutLines [] (row ++ "\n").toList = [row.toList] := by
    rw [String.toList_append, Text.cutLines_of_not_mem [] row.toList h.1, List.append_nil]
    exact congrArg (fun line => [line]) ((congrArg Text.dropReturn row.toList.reverse_reverse).trans (if_neg h.2))
  rw [Text.lines, hcut, List.map_singleton, String.ofList_toList]

theorem lines_last {last : String} (h : '\n' ∉ last.toList) (hne : last ≠ "") : Text.lines last = [last] := by
  have hcut : Text.cutLines [] last.toList = [last.toList] := by
    have hall := Text.cutLines_of_not_mem [] last.toList h []
    rw [List.append_nil, List.append_nil] at hall
    rw [hall, Text.cutLines, if_neg, List.reverse_reverse]
    simpa [List.isEmpty_iff] using hne
  rw [Text.lines, hcut, List.map_singleton, String.ofList_toList]

theorem flatMap_lines_rows {rows : List String} (h : ∀ row ∈ rows, Unbroken row) :
    rows.flatMap (fun row => Text.lines (row ++ "\n")) = rows := by
  induction rows with
  | nil => rfl
  | cons row rows ih =>
    obtain ⟨hrow, hrest⟩ := List.forall_mem_cons.1 h
    rw [List.flatMap_cons, lines_row hrow, ih hrest]
    rfl

/-- a text with a last character that belongs to no line end -/
def EndsVisibly (text : String) : Prop :=
  ∃ c, text.toList.getLast? = some c ∧ c ≠ '\n' ∧ c ≠ '\r'

theorem Text.cutLines_append_feed {c : Char} (hfeed : c ≠ '\n') (hreturn : c ≠ '\r') (line cs : List Char) :
    cutLines line (cs ++ [c, '\n']) = cutLines line (cs ++ [c]) := by
  induction cs generalizing line with
  | nil =>
    have hkept : dropReturn (c :: line).reverse = (c :: line).reverse := by
      refine if_neg ?_
      rw [List.reverse_cons, List.getLast?_concat, Option.some_inj]
      exact hreturn
    have hlast : cutLines line [c] = [(c :: line).reverse] := if_neg hfeed
    rw [List.nil_append, List.nil_append, cutLines, if_neg hfeed, cutLines, if_pos rfl, hkept, hlast]
    rfl
  | cons d cs ih =>
    rw [List.cons_append, List.cons_append, cutLines, cutLines, ih, ih]

/-- a line feed behind the last character of a line opens no further line -/
theorem lines_append_feed {text : String} (h : EndsVisibly text) : Text.lines (text ++ "\n") = Text.lines text := by
  obtain ⟨c, hlast, hfeed, hreturn⟩ := h
  obtain ⟨cs, hcs⟩ := List.getLast?_eq_some_iff.1 hlast
  have hlist : (text ++ "\n").toList = cs ++ [c, '\n'] := by
    rw [String.toList_append, hcs, List.append_assoc]
    rfl
  rw [Text.lines, Text.lines, hlist, hcs, Text.cutLines_append_feed hfeed hreturn]

theorem toList_unlines_replicate (dropped : Nat) :
    (unlines (List.replicate dropped "")).toList = List.replicate dropped '\n' := by
  induction dropped with
  | zero => rfl
  | succ dropped ih =>
    rw [List.replicate_succ, unlines_cons, String.toList_append, ih]
    rfl

theorem stripEnd_append_replicate (kept : List Char) (dropped : Nat) (h : kept.getLast? ≠ some '\n') :
    Writer.stripEnd (String.ofList (kept ++ List.replicate dropped '\n')) = String.ofList kept := by
  have hkept : kept.reverse.dropWhile (· == '\n') = kept.reverse := by
    rw [List.getLast?_eq_head?_reverse] at h
    cases hreverse : kept.reverse with
    | nil => rfl
    | cons c more =>
      have hc : c ≠ '\n' := fun hc => h (by rw [hreverse, hc]; rfl)
      rw [List.dropWhile_cons_of_neg (by simpa using hc)]
  have hall : ∀ c ∈ List.replicate dropped '\n', (c == '\n') = true := by
    intro c hc
    rw [List.eq_of_mem_replicate hc]
    rfl
  rw [Writer.stripEnd, String.toList_ofList, List.reverse_append, List.reverse_replicate, List.dropWhile_append_of_pos hall,
    hkept, List.reverse_reverse]

/-- a text of empty rows is finished as the empty text -/
theorem stripEnd_unlines_replicate (dropped : Nat) : Writer.stripEnd (unlines (List.replicate dropped "")) = "" := by
  rw [← String.ofList_toList (s := unlines _), toList_unlines_replicate]
  exact stripEnd_append_replicate [] dropped nofun

/-- **A finished text has no empty rows at its end,** and the last row that is left has no line feed behind it. -/
theorem stripEnd_unlines (rows : List String) {last : String} (dropped : Nat)
    (hlast : last.toList.getLast? ≠ some '\n') (hne : last ≠ "") :
    Writer.stripEnd (unlines (rows ++ last :: List.replicate dropped "")) = unlines rows ++ last := by
  have hlist : (unlines (rows ++ last :: List.replicate dropped "")).toList =
      (unlines rows ++ last).toList ++ List.replicate (dropped + 1) '\n' := by
    rw [unlines_append, unlines_cons, List.replicate_succ]
    simp [toList_unlines_replicate]
  have hend : (unlines rows ++ last).toList.getLast? ≠ some '\n' := by
    have hlist : last.toList ≠ [] := mt (fun h => String.toList_eq_nil_iff.1 h) hne
    rwa [String.toList_append, List.getLast?_append_of_ne_nil _ hlist]
  rw [← String.ofList_toList (s := unlines (rows ++ _)), hlist, stripEnd_append_replicate _ _ hend, String.ofList_toList]

/-! ## Finished texts -/

/-- the text of steps is finished from their rows -/
theorem text_eq (steps : List Step) :
    Step.text steps = (Step.writtenAll? { } steps 0).elim "" fun written => Writer.stripEnd (unlines written.1) := by
  rw [Step.text, Writer.run, runAll?_eq]
  change Writer.text (((Step.writtenAll? { } steps 0).map (Writer.start { }).putTo).getD (Writer.start { })) = _
  cases Step.writtenAll? { } steps 0 with
  | none => rfl
  | some written => exact congrArg Writer.stripEnd String.empty_append

/-- the last line that a step writes -/
def Step.closing? : Step → Option String
  | line text => some text
  | block _ closing _ => some closing
  | _ => none

theorem getLast?_written {step : Step} {text : String} (htext : step.closing? = some text) {options : IndentStyle}
    {level : Nat} {written : List String × Nat} (h : step.written? options level = some written) :
    ∃ inner, written.1.getLast? = some (options.row inner text) := by
  cases step with
  | line other =>
    cases htext
    cases h
    exact ⟨level, rfl⟩
  | block opening closing body =>
    cases htext
    rw [Step.written?] at h
    split at h
    · rename_i rows outer _
      cases h
      exact ⟨outer, List.getLast?_concat⟩
    · cases h
  | blank => cases htext
  | lines _ => cases htext
  | indent => cases htext
  | dedent => cases htext

/-- steps end with the last line of the last one -/
theorem getLast?_writtenAll {steps : List Step} {text : String} (htext : steps.getLast?.bind Step.closing? = some text)
    {options : IndentStyle} {level : Nat} {written : List String × Nat}
    (h : Step.writtenAll? options steps level = some written) :
    ∃ inner, written.1.getLast? = some (options.row inner text) := by
  induction steps generalizing level written with
  | nil => cases htext
  | cons step rest ih =>
    obtain ⟨first, hfirst, h⟩ := Option.bind_eq_some_iff.1 h
    obtain ⟨more, hmore, rfl⟩ := Option.map_eq_some_iff.1 h
    cases rest with
    | nil =>
      cases hmore
      obtain ⟨inner, hlast⟩ := getLast?_written htext hfirst
      exact ⟨inner, (congrArg List.getLast? (List.append_nil _)).trans hlast⟩
    | cons next rest =>
      rw [List.getLast?_cons_cons] at htext
      obtain ⟨inner, hlast⟩ := ih htext hmore
      exact ⟨inner, by rw [List.getLast?_append, hlast, Option.some_or]⟩

end GraphGen
