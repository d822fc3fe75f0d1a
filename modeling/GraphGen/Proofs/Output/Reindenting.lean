/-
A finished text, written again at a level.

Visitors write a class into a writer of its own, finish it, and give the text line by line to the writer of the file. What
comes of it are the rows that the same steps write directly at the level of the file: steps write the same rows at every level,
moved by its margin (`writtenAll?_plain`), rows without line ends survive the cut into lines, and only the last empty rows are
lost with the line feeds at the end (`lines_stripEnd`).

Main result: `reindented_eq_direct`.
-/
import GraphGen.Proofs.Output.Rows
import Mathlib.Data.List.Induction

namespace GraphGen

/-! ## Plain steps -/

mutual

/-- lines, empty lines and blocks of them, whose texts have no line ends -/
def Step.isPlain : Step → Bool
  | line text => OneLine text
  | blank => true
  | block opening closing body => OneLine opening && OneLine closing && Step.arePlain body
  | lines _ => false
  | indent => false
  | dedent => false

def Step.arePlain : List Step → Bool
  | [] => true
  | step :: rest => step.isPlain && Step.arePlain rest

end

mutual

theorem written?_plain (options : IndentStyle) : (step : Step) → step.isPlain = true →
    ∃ rows : List String, (∀ row ∈ rows, OneLine row) ∧
      ∀ level, step.written? options level = some (rows.map (options.row level), level)
  | .line text, h => ⟨[text], List.forall_mem_singleton.2 (of_decide_eq_true h), fun _ => rfl⟩
  | .blank, _ => ⟨[""], List.forall_mem_singleton.2 (by decide), fun _ => rfl⟩
  | .block opening closing body, h => by
    obtain ⟨hends, hbody⟩ := Bool.and_eq_true_iff.1 h
    obtain ⟨hopening, hclosing⟩ := Bool.and_eq_true_iff.1 hends
    obtain ⟨rows, hrows, hwritten⟩ := writtenAll?_plain options body hbody
    refine ⟨opening :: rows.map (options.row 1) ++ [closing], ?_, fun level => ?_⟩
    · rw [List.forall_mem_append, List.forall_mem_cons, List.forall_mem_singleton, List.forall_mem_map]
      exact ⟨⟨of_decide_eq_true hopening, fun row hrow => IndentStyle.oneLine_row (hrows row hrow)⟩,
        of_decide_eq_true hclosing⟩
    · have hdeeper : rows.map (options.row (level + 1)) = (rows.map (options.row 1)).map (options.row level) := by
        rw [List.map_map]
        exact List.map_congr_left fun row _ => options.row_add level 1 row
      rw [Step.written?, hwritten, hdeeper, List.map_append, List.map_cons, List.map_singleton]

/-- **Plain steps write the same rows at every level,** moved by the margin of the level, and come back to it. -/
theorem writtenAll?_plain (options : IndentStyle) : (steps : List Step) → Step.arePlain steps = true →
    ∃ rows : List String, (∀ row ∈ rows, OneLine row) ∧
      ∀ level, Step.writtenAll? options steps level = some (rows.map (options.row level), level)
  | [], _ => ⟨[], nofun, fun _ => rfl⟩
  | step :: rest, h => by
    obtain ⟨hstep, hrest⟩ := Bool.and_eq_true_iff.1 h
    obtain ⟨rows, hrows, hwritten⟩ := written?_plain options step hstep
    obtain ⟨more, hmore, hall⟩ := writtenAll?_plain options rest hrest
    refine ⟨rows ++ more, List.forall_mem_append.2 ⟨hrows, hmore⟩, fun level => ?_⟩
    rw [writtenAll?_cons (hwritten level) (hall level), List.map_append]

end

/-! ## Written again -/

/-- rows without the empty ones at their end -/
theorem exists_kept (rows : List String) :
    ∃ kept dropped, rows = kept ++ List.replicate dropped "" ∧ kept.getLast? ≠ some "" := by
  induction rows using List.reverseRecOn with
  | nil => exact ⟨[], 0, rfl, nofun⟩
  | append_singleton rows row ih =>
    by_cases hrow : row = ""
    · obtain ⟨kept, dropped, hrows, hlast⟩ := ih
      exact ⟨kept, dropped + 1, by rw [hrows, hrow, List.append_assoc, ← List.replicate_succ'], hlast⟩
    · refine ⟨rows ++ [row], 0, (List.append_nil _).symm, ?_⟩
      rw [List.getLast?_concat, Ne, Option.some_inj]
      exact hrow

/-- a finished text has the lines of its rows, up to the last empty rows -/
theorem lines_stripEnd {kept : List String} (dropped : Nat) (hkept : ∀ row ∈ kept, OneLine row)
    (hlast : kept.getLast? ≠ some "") :
    Text.lines (Writer.stripEnd (unlines (kept ++ List.replicate dropped ""))) = kept := by
  obtain rfl | ⟨rows, last, rfl⟩ := kept.eq_nil_or_concat'
  · rw [List.nil_append, stripEnd_unlines_replicate]
    rfl
  · rw [List.getLast?_concat, Ne, Option.some_inj] at hlast
    rw [List.forall_mem_append, List.forall_mem_singleton] at hkept
    have hend : last.toList.getLast? ≠ some '\n' := fun h => hkept.2.1 (List.mem_of_getLast? h)
    rw [List.append_assoc, List.singleton_append, stripEnd_unlines rows dropped hend hlast, lines_unlines_append,
      flatMap_lines_rows fun row hrow => (hkept.1 row hrow).unbroken, lines_last hkept.2.1 hlast]

/-- **A finished text, written again at a level, is what the steps write at this level.** Running plain steps on a writer of
their own and giving the finished text line by line to another writer writes the same rows as running them on that writer,
except for the empty rows at the very end. -/
theorem reindented_eq_direct {steps : List Step} (h : Step.arePlain steps = true) (w : Writer) :
    ∃ fresh kept dropped, Step.runAll? steps (.start w.options) = some fresh ∧
      w.lines fresh.text = w.put kept ∧
      Step.runAll? steps w = some (w.put (kept ++ List.replicate dropped "")) ∧
      kept.getLast? ≠ some "" ∧ ∀ row ∈ kept, OneLine row := by
  obtain ⟨rows, hone, hwritten⟩ := writtenAll?_plain w.options steps h
  have hrun : ∀ v : Writer, v.options = w.options →
      Step.runAll? steps v = some (v.put (rows.map (w.options.row v.level))) := by
    intro v hv
    rw [runAll?_eq, hv, hwritten]
    rfl
  obtain ⟨kept, dropped, hrows, hlast⟩ := exists_kept rows
  have hkept : ∀ row ∈ kept, OneLine row := fun row hrow => hone row (hrows ▸ List.mem_append_left _ hrow)
  have hfresh : Step.runAll? steps (.start w.options) = some ((Writer.start w.options).put rows) := by
    have hstart := hrun (.start w.options) rfl
    rwa [show (Writer.start w.options).level = 0 from rfl, IndentStyle.map_row_zero] at hstart
  have htext : ((Writer.start w.options).put rows).text = Writer.stripEnd (unlines (kept ++ List.replicate dropped "")) := by
    rw [Writer.text, Writer.put, hrows]
    exact congrArg Writer.stripEnd String.empty_append
  refine ⟨_, kept.map (w.options.row w.level), dropped, hfresh, ?_, ?_, ?_, ?_⟩
  · rw [Writer.lines_eq, htext, lines_stripEnd dropped hkept hlast]
  · rw [hrun w rfl, hrows, List.map_append, List.map_replicate]
    rfl
  · rw [List.getLast?_map, Ne, Option.map_eq_some_iff]
    rintro ⟨row, hrow, hempty⟩
    exact IndentStyle.row_ne (fun hnil => hlast (hnil ▸ hrow)) hempty
  · exact List.forall_mem_map.2 fun row hrow => IndentStyle.oneLine_row (hkept row hrow)

/-- An empty line inside a class stays empty, a line of blanks is indented, and the last two empty lines are lost. -/
theorem class_reindented :
    let steps : List Step := [.line "@JsonClass", .block "class A \x7b" "\x7d" [.line "int x;", .blank, .line " ",
      .block "int y() \x7b" "\x7d" [.line "return x;", .line ""]], .blank, .line ""]
    let w : Writer := ⟨⟨4, true⟩, 2, "class All \x7b\n"⟩
    Step.arePlain steps = true ∧ ∃ fresh kept dropped, Step.runAll? steps (.start w.options) = some fresh ∧
      w.lines fresh.text = w.put kept ∧
      Step.runAll? steps w = some (w.put (kept ++ List.replicate dropped "")) ∧
      kept.getLast? ≠ some "" ∧ ∀ row ∈ kept, OneLine row :=
  ⟨by decide, reindented_eq_direct (by decide) _⟩

end GraphGen
