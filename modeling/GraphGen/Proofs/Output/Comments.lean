/-
Comments and what ends them.

A description is written as a comment of one or of several rows. Its lines stand in it as they are, without the blank characters
around them, so that a description that ends a comment ends its own (`terminators_docComment`).

Code is what stands outside of comments. `codeFrom` reads it off a text, without white space: a comment begins with a slash and a
star and ends with a star and a slash, and in some languages comments hold comments. Characters are read as they stand; that
strings and comments of one line have rules of their own is left out, which is why a comment is shown to be read as one at
every depth of comments around it.

- `commentRows`, `lines_docComment`: the rows of a comment.
- `terminators_docComment`: a comment has one end, and those that the description has.
- `silent_comment`: a reader comes past a comment without taking code from it, at every level and every depth, when the
  description has no end of a comment.
-/
import GraphGen.Output.Comment
import GraphGen.Proofs.Output.Rows
import GraphGen.Proofs.Text.Occurrences

namespace GraphGen

/-! ## Rows of a comment -/

/-- the row of a line of a comment of several lines -/
def commentRow (line : String) : String :=
  if line.isEmpty then " *" else " * " ++ line

/-- the rows of a comment -/
def commentRows : List String → List String
  | [] => []
  | [line] => ["/** " ++ line ++ " */"]
  | first :: second :: more => "/**" :: (first :: second :: more).map commentRow ++ [" */"]

theorem commentLine_eq (line : String) : commentLine line = commentRow line ++ "\n" := by
  unfold commentLine commentRow
  split <;> rfl

theorem docComment_eq (description : String) :
    docComment description = String.intercalate "\n" (commentRows (descriptionLines description)) := by
  unfold docComment
  match descriptionLines description with
  | [] => rfl
  | [line] => rw [commentRows, String.intercalate_singleton]
  | line :: next :: more =>
    have hlines : String.join ((line :: next :: more).map commentLine) = unlines ((line :: next :: more).map commentRow) := by
      rw [unlines, List.map_map]
      exact congrArg String.join (List.map_congr_left fun line _ => commentLine_eq line)
    rw [commentRows, intercalate_concat, unlines_cons, ← hlines]
    rfl

theorem not_mem_of_mem_cutLines {line cs : List Char} (h : '\n' ∉ line) : ∀ cut ∈ Text.cutLines line cs, '\n' ∉ cut := by
  induction cs generalizing line with
  | nil =>
    rw [Text.cutLines]
    split
    · exact List.forall_mem_nil _
    · rw [List.forall_mem_singleton, List.mem_reverse]
      exact h
  | cons c cs ih =>
    rw [Text.cutLines]
    split
    · refine List.forall_mem_cons.2 ⟨fun hmem => h ?_, ih List.not_mem_nil⟩
      unfold Text.dropReturn at hmem
      split at hmem
      · exact List.mem_reverse.1 (List.dropLast_subset _ hmem)
      · exact List.mem_reverse.1 hmem
    · rename_i hc
      exact ih (mt List.mem_cons.1 (not_or.2 ⟨Ne.symm hc, h⟩))

/-- a line without blank characters at its end ends with no line end -/
theorem unbroken_trimEnd {line : String} (h : '\n' ∉ line.toList) : Unbroken (Text.trimEnd line) := by
  rw [Unbroken, Text.trimEnd, String.toList_ofList, Text.dropBlankEnd, List.getLast?_reverse]
  refine ⟨fun hmem => h ?_, fun hlast => ?_⟩
  · exact List.mem_reverse.1 (List.dropWhile_subset _ (List.mem_reverse.1 hmem))
  · have hblank := List.head?_dropWhile_not Text.isBlank line.toList.reverse
    rw [hlast] at hblank
    exact absurd hblank (by decide)

/-- no line of a description is broken -/
theorem unbroken_descriptionLines (description : String) : ∀ line ∈ descriptionLines description, Unbroken line := by
  rw [descriptionLines, List.forall_mem_map, Text.lines, List.forall_mem_map]
  intro cut hcut
  refine unbroken_trimEnd ?_
  rw [String.toList_ofList]
  exact not_mem_of_mem_cutLines List.not_mem_nil cut hcut

theorem unbroken_commentRow {line : String} (h : Unbroken line) : Unbroken (commentRow line) := by
  unfold commentRow
  split
  · decide
  · rename_i hne
    exact unbroken_append (by decide) (mt String.isEmpty_iff.2 hne) h

theorem unbroken_commentRows {lines : List String} (h : ∀ line ∈ lines, Unbroken line) :
    ∀ row ∈ commentRows lines, Unbroken row := by
  have hend : Unbroken " */" := by decide
  match lines with
  | [] => nofun
  | [line] =>
    rw [commentRows, List.forall_mem_singleton]
    refine unbroken_append ?_ (by decide) hend
    rw [String.toList_append, List.mem_append, not_or]
    exact ⟨by decide, (h line List.mem_cons_self).1⟩
  | line :: next :: more =>
    rw [commentRows, List.forall_mem_append, List.forall_mem_cons, List.forall_mem_map, List.forall_mem_singleton]
    exact ⟨⟨by decide, fun line hline => unbroken_commentRow (h line hline)⟩, hend⟩

theorem ne_empty_of_mem_commentRows (lines : List String) : ∀ row ∈ commentRows lines, row ≠ "" := by
  have hfront : ∀ {before after : String}, before ≠ "" → before ++ after ≠ "" := fun hne h =>
    hne (String.append_eq_empty_iff.1 h).1
  match lines with
  | [] => nofun
  | [line] =>
    rw [commentRows, List.forall_mem_singleton]
    exact hfront (hfront (by decide))
  | line :: next :: more =>
    rw [commentRows, List.forall_mem_append, List.forall_mem_cons, List.forall_mem_map, List.forall_mem_singleton]
    refine ⟨⟨by decide, fun line _ => ?_⟩, by decide⟩
    unfold commentRow
    split
    · decide
    · exact hfront (by decide)

/-- the lines of a comment are its rows -/
theorem lines_docComment (description : String) :
    Text.lines (docComment description) = commentRows (descriptionLines description) := by
  have hrows := unbroken_commentRows (unbroken_descriptionLines description)
  have hne := ne_empty_of_mem_commentRows (descriptionLines description)
  rw [docComment_eq]
  obtain hnil | ⟨rows, last, hcut⟩ := (commentRows (descriptionLines description)).eq_nil_or_concat'
  · rw [hnil]
    rfl
  · rw [hcut, List.forall_mem_append, List.forall_mem_singleton] at hrows hne
    rw [hcut, intercalate_concat, lines_unlines_append, flatMap_lines_rows hrows.1, lines_last hrows.2.1 hne.2]

/-- a comment at a level begins behind its margin, and ends with its end -/
theorem exists_comment_text (options : IndentStyle) (level : Nat) {lines : List String} (h : lines ≠ []) :
    ∃ inner, unlines ((commentRows lines).map (options.row level)) =
      options.margin level ++ "/**" ++ inner ++ " */" ++ "\n" := by
  have hrow : ∀ {text : String}, text ≠ "" → options.row level text = options.margin level ++ text :=
    IndentStyle.row_of_ne
  match lines with
  | [] => exact absurd rfl h
  | [line] =>
    refine ⟨" " ++ line, ?_⟩
    have hne := ne_empty_of_mem_commentRows [line] _ List.mem_cons_self
    have hopening : "/** " = "/**" ++ " " := rfl
    rw [commentRows, List.map_singleton, unlines_singleton, hrow hne, hopening]
    simp only [String.append_assoc]
  | line :: next :: more =>
    refine ⟨"\n" ++ unlines (((line :: next :: more).map commentRow).map (options.row level)) ++ options.margin level, ?_⟩
    rw [commentRows, List.map_append, List.map_cons, List.map_singleton, unlines_append, unlines_cons, unlines_singleton,
      hrow (by decide), hrow (by decide)]
    simp only [String.append_assoc]

/-! ## Ends of comments -/

/-- what is in a description is in its lines, if it is not blank -/
theorem sum_occurrences_descriptionLines {piece : List Char} (hne : piece ≠ []) (hblank : ∀ c ∈ piece, Text.isBlank c = false)
    (description : String) :
    ((descriptionLines description).map fun line => Text.occurrences piece line.toList).sum =
      Text.occurrences piece description.toList := by
  have hline : ∀ cut : List Char,
      Text.occurrences piece (Text.trimEnd (String.ofList cut)).toList = Text.occurrences piece cut := by
    intro cut
    rw [Text.trimEnd, String.toList_ofList, String.toList_ofList, Text.occurrences_dropBlankEnd hne hblank]
  rw [descriptionLines, Text.lines, List.map_map, List.map_map]
  simp only [Function.comp_def, hline]
  rw [Text.sum_occurrences_cutLines hne hblank, Text.trim, String.toList_ofList, List.reverse_nil, List.nil_append,
    Text.occurrences_dropBlankEnd hne hblank, Text.occurrences_dropBlank hne hblank]

/-- a description with a character that is not blank has lines -/
theorem descriptionLines_ne_nil {description : String} (h : ∃ c ∈ description.toList, Text.isBlank c = false) :
    descriptionLines description ≠ [] := by
  obtain ⟨c, hmem, hc⟩ := h
  intro hnil
  have hsum := sum_occurrences_descriptionLines (List.cons_ne_nil c []) (List.forall_mem_singleton.2 hc) description
  rw [hnil, List.map_nil, List.sum_nil] at hsum
  exact absurd hsum (Nat.ne_of_lt (Text.occurrences_singleton_pos hmem))

/-- how often a comment ends in a text -/
def terminators (text : String) : Nat :=
  Text.occurrences ['*', '/'] text.toList

theorem terminators_append_feed (before after : String) :
    terminators (before ++ "\n" ++ after) = terminators before + terminators after := by
  have hlist : (before ++ "\n" ++ after).toList = before.toList ++ '\n' :: after.toList := by simp
  rw [terminators, hlist, Text.occurrences_append_cons (by decide) (by decide)]
  rfl

theorem terminators_feed (text : String) : terminators (text ++ "\n") = terminators text := by
  have h := terminators_append_feed text ""
  rwa [String.append_empty] at h

theorem terminators_append_space (before after : String) :
    terminators (before ++ " " ++ after) = terminators before + terminators after := by
  have hlist : (before ++ " " ++ after).toList = before.toList ++ ' ' :: after.toList := by simp
  rw [terminators, hlist, Text.occurrences_append_cons (by decide) (by decide)]
  rfl

theorem terminators_unlines (rows : List String) : terminators (unlines rows) = (rows.map terminators).sum := by
  induction rows with
  | nil => rfl
  | cons row rows ih => rw [unlines_cons, terminators_append_feed, ih, List.map_cons, List.sum_cons]

theorem terminators_row (options : IndentStyle) (level : Nat) (text : String) :
    terminators (options.row level text) = terminators text := by
  obtain ⟨space, hspace, hrow⟩ := options.exists_row_eq level text
  rw [terminators, hrow, Text.occurrences_append_left_of_forall_not_mem (by decide)]
  · rfl
  · rintro c hc
    rcases hspace c hc with rfl | rfl <;> decide

theorem sum_terminators_commentRows {lines : List String} (h : lines ≠ []) :
    ((commentRows lines).map terminators).sum = (lines.map terminators).sum + 1 := by
  have hopening : terminators "/**" = 0 := rfl
  have hclosing : terminators " */" = 1 := rfl
  match lines with
  | [] => exact absurd rfl h
  | [line] =>
    have hsingle : "/** " ++ line ++ " */" = "/**" ++ " " ++ (line ++ " " ++ "*/") := by
      simp only [String.append_assoc]
      rfl
    rw [commentRows, List.map_singleton, List.map_singleton, List.sum_singleton, List.sum_singleton, hsingle,
      terminators_append_space, terminators_append_space, hopening, Nat.zero_add]
    rfl
  | line :: next :: more =>
    have hrow : terminators ∘ commentRow = terminators := by
      funext line
      unfold Function.comp commentRow
      split
      · rename_i hempty
        rw [String.isEmpty_iff.1 hempty]
        rfl
      · exact (terminators_append_space " *" line).trans (Nat.zero_add _)
    rw [commentRows, List.map_append, List.map_cons, List.map_map, List.map_singleton, List.sum_append, List.sum_cons,
      List.sum_singleton, hrow, hopening, hclosing, Nat.zero_add]

/-- at every level a comment has one end, and those that its description has -/
theorem terminators_comment (options : IndentStyle) (level : Nat) {description : String}
    (h : descriptionLines description ≠ []) :
    terminators (unlines ((commentRows (descriptionLines description)).map (options.row level))) =
      terminators description + 1 := by
  have hrow : terminators ∘ options.row level = terminators := funext (terminators_row options level)
  rw [terminators_unlines, List.map_map, hrow, sum_terminators_commentRows h]
  have hblank : ∀ c ∈ ['*', '/'], Text.isBlank c = false :=
    List.forall_mem_cons.2 ⟨rfl, List.forall_mem_singleton.2 rfl⟩
  exact congrArg (· + 1) (sum_occurrences_descriptionLines (List.cons_ne_nil _ _) hblank description)

/-- **A comment has one end, its last characters, and those that its description has.** -/
theorem terminators_docComment {description : String} (h : descriptionLines description ≠ []) :
    (∃ inner, docComment description = "/**" ++ inner ++ " */") ∧
      terminators (docComment description) = terminators description + 1 := by
  have hrows : commentRows (descriptionLines description) ≠ [] := by
    intro hnil
    have hsum := sum_terminators_commentRows h
    rw [hnil] at hsum
    exact absurd hsum (Nat.succ_ne_zero _).symm
  have hfeed : unlines ((commentRows (descriptionLines description)).map (IndentStyle.row { } 0)) =
      docComment description ++ "\n" := by
    rw [IndentStyle.map_row_zero, docComment_eq, intercalate_append_feed hrows]
  constructor
  · obtain ⟨inner, hinner⟩ := exists_comment_text { } 0 h
    rw [hfeed, IndentStyle.margin_zero, String.empty_append] at hinner
    exact ⟨inner, String.append_left_inj _ |>.1 hinner⟩
  · have hcount := terminators_comment { } 0 h
    rwa [hfeed, terminators_feed] at hcount

/-! ## Code -/

/-- the code of a text from a depth of comments on: what stands outside of comments, without white space; `nests` tells whether
comments hold comments -/
def codeFrom (nests : Bool) (depth : Nat) : List Char → List Char
  | [] => []
  | [c] => if depth = 0 ∧ Text.isBlank c = false then [c] else []
  | c :: d :: rest =>
    if depth = 0 then
      if c = '/' ∧ d = '*' then codeFrom nests 1 rest
      else if Text.isBlank c then codeFrom nests 0 (d :: rest)
      else c :: codeFrom nests 0 (d :: rest)
    else if c = '*' ∧ d = '/' then codeFrom nests (depth - 1) rest
    else if nests = true ∧ c = '/' ∧ d = '*' then codeFrom nests (depth + 1) rest
    else codeFrom nests depth (d :: rest)

/-- rows that a reader comes past without taking code from them, at whatever depth of comments it is; where comments hold no
comments, it does not get deeper -/
def Silent (nests : Bool) (rows : List String) : Prop :=
  ∀ depth rest, ∃ after, codeFrom nests depth ((unlines rows).toList ++ rest) = codeFrom nests after rest ∧
    (nests = false → after ≤ depth)

section Reader

variable (nests : Bool) (depth : Nat)

theorem codeFrom_opening (rest : List Char) : codeFrom nests 0 ('/' :: '*' :: rest) = codeFrom nests 1 rest := by
  simp [codeFrom]

theorem codeFrom_closing (rest : List Char) :
    codeFrom nests (depth + 1) ('*' :: '/' :: rest) = codeFrom nests depth rest := by
  simp [codeFrom]

theorem codeFrom_nested (rest : List Char) :
    codeFrom true (depth + 1) ('/' :: '*' :: rest) = codeFrom true (depth + 2) rest := by
  simp [codeFrom]

theorem codeFrom_inside_cons {c d : Char} (hclosing : ¬(c = '*' ∧ d = '/')) (hnested : ¬(nests = true ∧ c = '/' ∧ d = '*'))
    (rest : List Char) : codeFrom nests (depth + 1) (c :: d :: rest) = codeFrom nests (depth + 1) (d :: rest) := by
  rw [codeFrom, if_neg (Nat.succ_ne_zero depth), if_neg hclosing, if_neg hnested]

theorem codeFrom_blank_cons {c : Char} (hc : Text.isBlank c = true) (cs : List Char) :
    codeFrom nests depth (c :: cs) = codeFrom nests depth cs := by
  have hslash : c ≠ '/' := by
    rintro rfl
    cases hc
  have hstar : c ≠ '*' := by
    rintro rfl
    cases hc
  cases cs with
  | nil => simp [codeFrom, hc]
  | cons d cs =>
    cases depth with
    | zero => rw [codeFrom, if_pos rfl, if_neg fun h => hslash h.1, if_pos hc]
    | succ depth => exact codeFrom_inside_cons nests depth (fun h => hstar h.1) (fun h => hslash h.2.1) cs

theorem codeFrom_margin {space : List Char} (h : ∀ c ∈ space, Text.isBlank c = true) (cs : List Char) :
    codeFrom nests depth (space ++ cs) = codeFrom nests depth cs := by
  induction space with
  | nil => rfl
  | cons c space ih =>
    obtain ⟨hc, hrest⟩ := List.forall_mem_cons.1 h
    rw [List.cons_append, codeFrom_blank_cons nests depth hc, ih hrest]

end Reader

/-- inside a comment, a text without an end of a comment is passed, and the end behind it; a slash at the end of the text could
go with the star behind it -/
theorem codeFrom_inside (nests : Bool) (rest : List Char) : (cs : List Char) → Text.occurrences ['*', '/'] cs = 0 →
    cs.getLast? ≠ some '/' → ∀ depth, ∃ after,
      codeFrom nests (depth + 1) (cs ++ '*' :: '/' :: rest) = codeFrom nests after rest ∧ (nests = false → after = depth)
  | [], _, _, depth => ⟨depth, codeFrom_closing nests depth rest, fun _ => rfl⟩
  | [c], _, hlast, depth => by
    have hc : c ≠ '/' := fun hc => hlast (by rw [hc]; rfl)
    rw [List.singleton_append, codeFrom_inside_cons nests depth (fun h => absurd h.2 (by decide)) (fun h => hc h.2.1),
      codeFrom_closing]
    exact ⟨depth, rfl, fun _ => rfl⟩
  | c :: d :: cs, hnone, hlast, depth => by
    obtain ⟨hhere, hlater⟩ := Nat.add_eq_zero_iff.1 hnone
    have hclosing : ¬(c = '*' ∧ d = '/') := by
      rintro ⟨rfl, rfl⟩
      exact absurd hhere (by simp [List.isPrefixOf])
    by_cases hnested : nests = true ∧ c = '/' ∧ d = '*'
    · obtain ⟨rfl, rfl, rfl⟩ := hnested
      have hlast' : cs.getLast? ≠ some '/' := by
        cases cs with
        | nil => nofun
        | cons e cs => rwa [List.getLast?_cons_cons, List.getLast?_cons_cons] at hlast
      obtain ⟨after, hafter, -⟩ := codeFrom_inside true rest cs (Nat.add_eq_zero_iff.1 hlater).2 hlast' (depth + 1)
      rw [List.cons_append, List.cons_append, codeFrom_nested]
      exact ⟨after, hafter, nofun⟩
    · have hlast' : (d :: cs).getLast? ≠ some '/' := by
        rwa [List.getLast?_cons_cons] at hlast
      rw [List.cons_append, List.cons_append, codeFrom_inside_cons nests depth hclosing hnested]
      exact codeFrom_inside nests rest (d :: cs) hlater hlast' depth

/-- a comment with one end is passed, at whatever depth of comments -/
theorem codeFrom_comment (nests : Bool) (depth : Nat) {inner : List Char}
    (h : Text.occurrences ['*', '/'] ('*' :: '*' :: inner) = 0) (rest : List Char) :
    ∃ after, codeFrom nests depth ('/' :: '*' :: '*' :: inner ++ ' ' :: '*' :: '/' :: rest) = codeFrom nests after rest ∧
      (nests = false → after ≤ depth) := by
  have hinside : ∀ cs, Text.occurrences ['*', '/'] cs = 0 → ∀ depth, ∃ after,
      codeFrom nests (depth + 1) (cs ++ ' ' :: '*' :: '/' :: rest) = codeFrom nests after rest ∧
        (nests = false → after = depth) := by
    intro cs hcs depth
    have hspace : Text.occurrences ['*', '/'] (cs ++ [' ']) = 0 :=
      (Text.occurrences_append_cons (by decide) (by decide) cs []).trans (by rw [hcs]; rfl)
    have hlast : (cs ++ [' ']).getLast? ≠ some '/' := by
      rw [List.getLast?_concat]
      decide
    rw [List.append_cons]
    exact codeFrom_inside nests rest (cs ++ [' ']) hspace hlast depth
  have hstar : Text.occurrences ['*', '/'] ('*' :: inner) = 0 := (Nat.add_eq_zero_iff.1 h).2
  cases depth with
  | zero =>
    obtain ⟨after, hafter, hdepth⟩ := hinside ('*' :: inner) hstar 0
    rw [List.cons_append, List.cons_append, codeFrom_opening]
    exact ⟨after, hafter, fun hnests => (hdepth hnests).le⟩
  | succ depth =>
    cases nests with
    | true =>
      obtain ⟨after, hafter, -⟩ := hinside ('*' :: inner) hstar (depth + 1)
      rw [List.cons_append, List.cons_append, codeFrom_nested]
      exact ⟨after, hafter, nofun⟩
    | false =>
      obtain ⟨after, hafter, hdepth⟩ := hinside ('*' :: '*' :: inner) h depth
      rw [List.cons_append, List.cons_append, codeFrom_inside_cons false depth (by decide) (by decide)]
      exact ⟨after, hafter, fun hnests => (hdepth hnests).le.trans depth.le_succ⟩

/-- **A reader comes past a comment without taking code from it,** at every level and every depth, if its description has no end
of a comment. -/
theorem silent_comment (nests : Bool) (options : IndentStyle) (level : Nat) {description : String}
    (h : terminators description = 0) :
    Silent nests ((Text.lines (docComment description)).map (options.row level)) := by
  rw [lines_docComment]
  intro depth rest
  by_cases hlines : descriptionLines description = []
  · rw [hlines]
    exact ⟨depth, rfl, fun _ => le_rfl⟩
  · obtain ⟨inner, hinner⟩ := exists_comment_text options level hlines
    have hcount := terminators_comment options level hlines
    have hclosing : " */" = " " ++ "*/" := rfl
    rw [hinner, terminators_feed, hclosing, ← String.append_assoc, terminators_append_space, h, Nat.zero_add] at hcount
    have hnone : Text.occurrences ['*', '/'] ('*' :: '*' :: inner.toList) = 0 := by
      have hall : terminators (options.margin level ++ "/**" ++ inner) = 0 := Nat.succ.inj hcount
      have hlist : (options.margin level ++ "/**" ++ inner).toList =
          ((options.margin level).toList ++ ['/']) ++ '*' :: '*' :: inner.toList := by simp
      rw [terminators, hlist] at hall
      exact Nat.le_zero.1 (hall ▸ Text.occurrences_le_append _ _)
    have hlist : (unlines ((commentRows (descriptionLines description)).map (options.row level))).toList ++ rest =
        (options.margin level).toList ++ ('/' :: '*' :: '*' :: inner.toList ++ ' ' :: '*' :: '/' :: '\n' :: rest) := by
      rw [hinner]
      simp
    rw [hlist, codeFrom_margin]
    · obtain ⟨after, hafter, hdepth⟩ := codeFrom_comment nests depth hnone ('\n' :: rest)
      exact ⟨after, hafter.trans (codeFrom_blank_cons nests after rfl rest), hdepth⟩
    · intro c hc
      rcases IndentStyle.eq_of_mem_margin hc with rfl | rfl <;> rfl

end GraphGen
