/-
Inserted lines in the output of a target.

Configured lines are written as they are, and among the content or behind it nothing happens to them. Before all content they
are recorded with the lines of the other plugins, each line once, in the order of first occurrence
(`ImportLines.lines_insertAll`): a line that was recorded before is missing where it would stand again.

- `headerLines`: the lines before all content; `headerLines_append_cons` says where those of one plugin stand among them.
- `StaysTogether`: the new lines are distinct and are all new, or continue what was recorded last, or were recorded like this.
  Nothing else keeps them together (`infix_headerLines_iff`).
- `StandIn`: lines that stand in a text one behind the other.
- `Run.Ran.exists_split`: a run of hooks, cut before a plugin.

Main results:
- `insertions_literal_iff`: inserted lines stand in the output of every target, before all content exactly when they stay together.
- `repeated_line_missing`: a line that occurs twice in an entry is inserted once.
-/
import GraphGen.Plugin.Standard
import GraphGen.Proofs.Output.Rows
import GraphGen.Proofs.Plugin.Checking
import Mathlib.Data.List.Infix
import Mathlib.Data.List.Nodup

namespace GraphGen

/-! ## Recorded lines -/

/-- the lines of a list that are not among `seen`, each once, in the order of their first occurrence -/
def freshLines (seen : List String) : List String → List String
  | [] => []
  | line :: rest => if line ∈ seen then freshLines seen rest else line :: freshLines (seen ++ [line]) rest

/-- **Recording lines** puts those that are new behind what was recorded. -/
theorem ImportLines.lines_insertAll (s : ImportLines) (lines : List String) :
    (s.insertAll lines).lines = s.lines ++ freshLines s.lines lines := by
  induction lines generalizing s with
  | nil => exact (List.append_nil _).symm
  | cons line lines ih =>
    have hinsert : (s.insert line).lines = if line ∈ s.lines then s.lines else s.lines ++ [line] := by
      simp [ImportLines.insert, addLine]
    show ((s.insert line).insertAll lines).lines = _
    rw [ih, hinsert, freshLines]
    split
    · rfl
    · rw [List.append_assoc, List.singleton_append]

theorem mem_freshLines {seen lines : List String} {line : String} :
    line ∈ freshLines seen lines ↔ line ∈ lines ∧ line ∉ seen := by
  induction lines generalizing seen with
  | nil => simp [freshLines]
  | cons first lines ih =>
    rw [freshLines]
    by_cases hfirst : first ∈ seen
    · rw [if_pos hfirst, ih, List.mem_cons]
      refine and_congr_left fun hline => (or_iff_right ?_).symm
      rintro rfl
      exact hline hfirst
    · rw [if_neg hfirst, List.mem_cons, ih, List.mem_append, List.mem_singleton, List.mem_cons]
      by_cases hline : line = first
      · simp [hline, hfirst]
      · simp [hline]

/-- distinct new lines are recorded as they are -/
theorem freshLines_of_disjoint {seen lines : List String} (hnodup : lines.Nodup) (h : ∀ line ∈ lines, line ∉ seen) :
    freshLines seen lines = lines := by
  induction lines generalizing seen with
  | nil => rfl
  | cons first lines ih =>
    obtain ⟨hfirst, hlines⟩ := List.forall_mem_cons.1 h
    obtain ⟨hnot, hnodup⟩ := List.nodup_cons.1 hnodup
    rw [freshLines, if_neg hfirst, ih hnodup]
    intro line hl
    rw [List.mem_append, List.mem_singleton, not_or]
    exact ⟨hlines line hl, fun he => hnot (he ▸ hl)⟩

/-- lines that were recorded before are passed over -/
theorem freshLines_append_of_subset {seen kept : List String} (h : kept ⊆ seen) (lines : List String) :
    freshLines seen (kept ++ lines) = freshLines seen lines := by
  induction kept with
  | nil => rfl
  | cons first kept ih =>
    obtain ⟨hfirst, hkept⟩ := List.cons_subset.1 h
    rw [List.cons_append, freshLines, if_pos hfirst, ih hkept]

/-! ## Lines before all content -/

/-- the lines before all content that outputs record -/
def headerLines (outputs : List Contribution) : List String :=
  (ImportLines.ofList (outputs.flatMap (·.prepend))).lines

theorem nodup_headerLines (outputs : List Contribution) : (headerLines outputs).Nodup :=
  (ImportLines.ofList _).nodup

theorem headerLines_append (outputs more : List Contribution) :
    headerLines (outputs ++ more) = headerLines outputs ++ freshLines (headerLines outputs) (more.flatMap (·.prepend)) := by
  rw [headerLines, List.flatMap_append, ImportLines.ofList, ImportLines.insertAll, List.foldl_append]
  exact ImportLines.lines_insertAll _ _

theorem mem_headerLines {outputs : List Contribution} {line : String} :
    line ∈ headerLines outputs ↔ ∃ output ∈ outputs, line ∈ output.prepend := by
  have hall := headerLines_append [] outputs
  have hempty : headerLines [] = [] := rfl
  rw [List.nil_append, hempty, List.nil_append] at hall
  rw [hall, mem_freshLines, and_iff_left List.not_mem_nil, List.mem_flatMap]

/-- what an output adds stands between what was recorded before it and what is recorded after it -/
theorem headerLines_append_cons (earlier : List Contribution) (output : Contribution) (later : List Contribution) :
    ∃ more, headerLines (earlier ++ output :: later) =
      headerLines earlier ++ freshLines (headerLines earlier) output.prepend ++ more := by
  have hone : [output].flatMap (·.prepend) = output.prepend := by rw [List.flatMap_singleton]
  rw [List.append_cons, headerLines_append, headerLines_append, hone]
  exact ⟨_, rfl⟩

/-- what keeps newly recorded lines together: they are distinct, and were recorded one behind the other before, or begin with
what was recorded last and go on with lines that are new -/
def StaysTogether (recorded lines : List String) : Prop :=
  lines.Nodup ∧ (lines <:+: recorded ∨
    ∃ kept fresh, lines = kept ++ fresh ∧ kept <:+ recorded ∧ ∀ line ∈ fresh, line ∉ recorded)

/-- new lines stay together -/
theorem staysTogether_of_disjoint {recorded lines : List String} (hnodup : lines.Nodup)
    (h : ∀ line ∈ lines, line ∉ recorded) : StaysTogether recorded lines :=
  ⟨hnodup, Or.inr ⟨[], lines, rfl, List.nil_suffix, h⟩⟩

/-- lines that stay together stand one behind the other once they are recorded -/
theorem StaysTogether.isInfix {recorded lines : List String} (h : StaysTogether recorded lines) :
    lines <:+: recorded ++ freshLines recorded lines := by
  obtain ⟨hnodup, hpart | ⟨kept, fresh, rfl, ⟨first, hfirst⟩, hfresh⟩⟩ := h
  · exact hpart.trans (List.prefix_append _ _).isInfix
  · have hsubset : kept ⊆ recorded := hfirst ▸ List.subset_append_right first kept
    rw [freshLines_append_of_subset hsubset, freshLines_of_disjoint (List.Nodup.of_append_right hnodup) hfresh]
    exact ⟨first, [], by rw [List.append_nil, ← List.append_assoc, hfirst]⟩

/-- lines of the front of a list stand together in the whole only where they do in the front -/
theorem isInfix_of_disjoint_last {lines front last : List String} (h : lines <:+: front ++ last)
    (hdisjoint : ∀ line ∈ lines, line ∉ last) : lines <:+: front := by
  rcases List.infix_append_iff.1 h with hfront | hlast | ⟨kept, rest, rfl, hkept, hrest⟩
  · exact hfront
  · obtain rfl := List.eq_nil_iff_forall_not_mem.2 fun line hl => hdisjoint line hl (hlast.subset hl)
    exact List.nil_infix
  · obtain rfl := List.eq_nil_iff_forall_not_mem.2 fun line hl =>
      hdisjoint line (List.mem_append_right _ hl) (hrest.subset hl)
    rw [List.append_nil]
    exact hkept.isInfix

/-- **Nothing else keeps recorded lines together.** -/
theorem infix_headerLines_iff (earlier : List Contribution) (output : Contribution) (later : List Contribution) :
    output.prepend <:+: headerLines (earlier ++ output :: later) ↔
      StaysTogether (headerLines earlier) output.prepend := by
  have hnodup := nodup_headerLines (earlier ++ output :: later)
  obtain ⟨more, heq⟩ := headerLines_append_cons earlier output later
  rw [heq] at hnodup ⊢
  generalize headerLines earlier = recorded at hnodup ⊢
  generalize output.prepend = lines at hnodup ⊢
  constructor
  · intro h
    refine ⟨hnodup.sublist h.sublist, ?_⟩
    have hmem : ∀ line ∈ lines, line ∈ recorded ++ freshLines recorded lines := by
      intro line hl
      rw [List.mem_append, mem_freshLines]
      by_cases hr : line ∈ recorded
      · exact Or.inl hr
      · exact Or.inr ⟨hl, hr⟩
    have hfront := isInfix_of_disjoint_last h fun line hl hm => List.disjoint_of_nodup_append hnodup (hmem line hl) hm
    rcases List.infix_append_iff.1 hfront with hr | hf | ⟨kept, fresh, hsplit, hkept, hfresh⟩
    · exact Or.inl hr
    · exact Or.inr ⟨[], lines, rfl, List.nil_suffix, fun line hl => (mem_freshLines.1 (hf.subset hl)).2⟩
    · exact Or.inr ⟨kept, fresh, hsplit, hkept, fun line hl => (mem_freshLines.1 (hfresh.subset hl)).2⟩
  · exact fun h => h.isInfix.trans (List.prefix_append _ _).isInfix

/-! ## Lines in a text -/

/-- the lines stand in the text one behind the other, with line feeds between them -/
def StandIn (lines : List String) (text : String) : Prop :=
  (String.intercalate "\n" lines).toList <:+: text.toList

instance (lines : List String) (text : String) : Decidable (StandIn lines text) :=
  inferInstanceAs (Decidable (_ <:+: _))

/-- rows of a text stand in it -/
theorem standIn_intercalate {lines rows : List String} (h : lines <:+: rows) :
    StandIn lines (String.intercalate "\n" rows) := by
  obtain ⟨before, after, rfl⟩ := h
  unfold StandIn
  by_cases hlines : lines = []
  · rw [hlines]
    exact List.nil_infix
  have hfront : (String.intercalate "\n" lines).toList <:+: (String.intercalate "\n" (before ++ lines)).toList := by
    by_cases hbefore : before = []
    · rw [hbefore, List.nil_append]
    · rw [intercalate_append hbefore hlines, String.toList_append]
      exact (List.suffix_append _ _).isInfix
  by_cases hafter : after = []
  · rwa [hafter, List.append_nil]
  · rw [intercalate_append (List.append_ne_nil_of_right_ne_nil _ hlines) hafter, String.toList_append, String.toList_append]
    exact hfront.trans ((List.prefix_append _ _).trans (List.prefix_append _ _)).isInfix

/-! ## The output of an entry -/

/-- what an entry adds to the output -/
def InsertionOptions.contribution (options : InsertionOptions) : Contribution :=
  match options.placement with
  | .prepend => { prepend := options.content }
  | .content => { content := String.intercalate "\n" options.content }
  | .append => { append := options.content }

theorem Insertion.output_eq_ok_iff {view : PluginView} {output : Contribution} :
    Insertion.output view = .ok output ↔
      ∃ options, InsertionOptions.decode view.config = .ok options ∧ output = options.contribution := by
  refine bind_eq_ok_iff.trans (exists_congr fun options => ?_)
  rw [Config.read_eq_ok_iff]
  exact and_congr_right fun _ => ⟨fun h => (Except.ok.inj h).symm, fun h => h ▸ rfl⟩

/-! ## The output of a target -/

/-- the rows of an output begin with the lines before all content -/
theorem exists_assemble_eq (outputs : List Contribution) :
    ∃ rows, assemble outputs = String.intercalate "\n" (headerLines outputs ++ rows) := by
  refine ⟨(outputs.map (·.content)).filter (!·.isEmpty) ++ outputs.flatMap (·.append), ?_⟩
  rw [← List.append_assoc]
  rfl

theorem standIn_of_header {outputs : List Contribution} {lines : List String} (h : lines <:+: headerLines outputs) :
    StandIn lines (assemble outputs) := by
  obtain ⟨rows, heq⟩ := exists_assemble_eq outputs
  rw [heq]
  exact standIn_intercalate (h.trans (List.prefix_append _ _).isInfix)

/-- a content is a row of the output unless it is empty -/
theorem standIn_content {outputs : List Contribution} {output : Contribution} (h : output ∈ outputs) :
    StandIn [output.content] (assemble outputs) := by
  by_cases hempty : output.content = ""
  · unfold StandIn
    rw [hempty]
    exact List.nil_infix
  · have hmem : output.content ∈ (outputs.map (·.content)).filter (!·.isEmpty) :=
      List.mem_filter.2 ⟨List.mem_map_of_mem h, by simpa using hempty⟩
    obtain ⟨before, after, hsplit⟩ := List.append_of_mem hmem
    refine standIn_intercalate ?_
    rw [hsplit]
    exact ⟨_ ++ before, after ++ _, by simp only [List.append_assoc, List.cons_append]; rfl⟩

/-- lines behind all content are rows of the output -/
theorem standIn_append (earlier : List Contribution) (output : Contribution) (later : List Contribution) :
    StandIn output.append (assemble (earlier ++ output :: later)) := by
  have hpart : output.append <:+: (earlier ++ output :: later).flatMap (·.append) := by
    rw [List.flatMap_append, List.flatMap_cons, ← List.append_assoc]
    exact List.infix_append _ _ _
  exact standIn_intercalate (hpart.trans (List.suffix_append _ _).isInfix)

/-- what an entry writes among the content or behind it stands in the output -/
theorem standIn_contribution (earlier later : List Contribution) {options : InsertionOptions}
    (h : options.placement ≠ .prepend) :
    StandIn options.content (assemble (earlier ++ options.contribution :: later)) := by
  cases hplacement : options.placement with
  | prepend => exact absurd hplacement h
  | content =>
    have hcontent : options.contribution.content = String.intercalate "\n" options.content := by
      rw [InsertionOptions.contribution, hplacement]
    have hstand := standIn_content (List.mem_append_right earlier (List.mem_cons_self (a := options.contribution) (l := later)))
    unfold StandIn at hstand ⊢
    rwa [String.intercalate_singleton, hcontent] at hstand
  | append =>
    have happend : options.contribution.append = options.content := by
      rw [InsertionOptions.contribution, hplacement]
    exact happend ▸ standIn_append earlier options.contribution later

/-! ## Runs -/

/-- the hooks of some plugins ran before those of the others -/
theorem Run.Ran.exists_split {run : Run} {plugins more : List ConfiguredPlugin} {ctx after : SharedValues}
    {outputs : List Contribution} (h : run.Ran (plugins ++ more) ctx outputs after) :
    ∃ earlier later between, outputs = earlier ++ later ∧ earlier.length = plugins.length ∧
      run.Ran plugins ctx earlier between ∧ run.Ran more between later after := by
  induction plugins generalizing ctx outputs with
  | nil => exact ⟨[], outputs, ctx, rfl, rfl, .done, h⟩
  | cons p plugins ih =>
    cases h with
    | next hp hr =>
      obtain ⟨earlier, later, between, rfl, hlength, hfirst, hrest⟩ := ih hr
      exact ⟨_ :: earlier, later, between, rfl, congrArg Nat.succ hlength, .next hp hfirst, hrest⟩

/-- a target that is generated has a plugin for every entry, and its text is what their hooks wrote -/
theorem exists_ran_of_generate {catalog : Catalog} {target : OutputRequest} {ctx after : SharedValues} {text : String}
    (h : generate catalog target ctx = (.ok text, after)) :
    ∃ run outputs, target.plugins.mapM (target.lookup catalog) = .ok run.plugins ∧ target.prepare run.plugins = .ok run ∧
      run.Ran run.plugins ctx outputs after ∧ text = assemble outputs := by
  have hgen := generate_eq catalog target ctx
  cases hproblems : problemsOf catalog target with
  | cons error rest =>
    rw [h, hproblems] at hgen
    cases hgen
  | nil =>
    obtain ⟨run, hlookups, hprepare, -, hrun⟩ := prepared_of_no_problems hproblems
    rw [hrun] at h
    rcases run.outputs_cases run.plugins ctx with ⟨outputs, last, hran, hout⟩ | ⟨p, error, last, -, hout⟩
    · rw [hout] at h
      cases h
      exact ⟨run, outputs, hlookups, hprepare, hran, rfl⟩
    · rw [hout] at h
      cases h

/-- related lists are cut at the same place -/
theorem exists_split_of_forall₂ {α β : Type} {related : α → β → Prop} {l more : List α} {values : List β}
    (h : List.Forall₂ related (l ++ more) values) :
    ∃ first last, values = first ++ last ∧ first.length = l.length ∧ List.Forall₂ related more last := by
  have hflip : List.Forall₂ (fun value x => related x value) values (l ++ more) := h.flip
  refine ⟨values.take l.length, values.drop l.length, (List.take_append_drop _ _).symm, ?_,
    (List.forall₂_drop_append _ _ _ hflip).flip⟩
  exact (List.forall₂_take_append _ _ _ hflip).length_eq

/-- the standard catalog has the plugin that inserts text -/
theorem Catalog.get?_standard_insertion (now : Instant) :
    (standard now).plugins.get? Insertion.pluginName = some .insertion :=
  (Table.get?_insert _ _ _ _).trans (if_pos rfl)

/-- **Inserted text is literal up to repeated lines at the top.** Let a target be generated with an entry that inserts text.
The configured lines stand in the output one behind the other when they are placed among the content or behind it. When they
are placed before all content, then the output begins with the lines that all plugins record, each once, every configured line
among them. They stand there one behind the other exactly when they stay together with what the plugins before the entry
recorded. -/
theorem insertions_literal_iff {catalog : Catalog} {target : OutputRequest} {ctx after : SharedValues} {text : String}
    {before rest : List PluginUse} {use : PluginUse}
    (hadd : catalog.plugins.get? Insertion.pluginName = some .insertion)
    (hgen : generate catalog target ctx = (.ok text, after))
    (huse : target.plugins = before ++ use :: rest) (hname : use.name = Insertion.pluginName) :
    ∃ options run earlier later, InsertionOptions.decode (overlay target.config use.config) = .ok options ∧
      target.plugins.mapM (target.lookup catalog) = .ok run.plugins ∧ target.prepare run.plugins = .ok run ∧
      run.Ran run.plugins ctx (earlier ++ options.contribution :: later) after ∧ earlier.length = before.length ∧
      (options.placement ≠ .prepend → StandIn options.content text) ∧
      (options.placement = .prepend →
        let header := headerLines (earlier ++ options.contribution :: later)
        (∃ rows, text = String.intercalate "\n" (header ++ rows)) ∧ options.content ⊆ header ∧
          (options.content <:+: header ↔ StaysTogether (headerLines earlier) options.content) ∧
          (StaysTogether (headerLines earlier) options.content → StandIn options.content text)) := by
  obtain ⟨run, outputs, hlookups, hprepare, hran, rfl⟩ := exists_ran_of_generate hgen
  -- the entry, its plugin and the output of that plugin stand at the same place
  obtain ⟨plugins, others, hplugins, hlength, hothers⟩ := exists_split_of_forall₂ (huse ▸ forall₂_of_lookups hlookups)
  obtain ⟨p, others, ⟨hp, hconfig⟩, -, rfl⟩ := List.forall₂_cons_left_iff.1 hothers
  obtain ⟨earlier, later, between, rfl, hearlier, -, hlater⟩ := Run.Ran.exists_split (hplugins ▸ hran)
  have hplugin : p.plugin = .insertion := by
    rw [hname, hadd] at hp
    exact (Option.some.inj hp).symm
  cases hlater with
  | @next _ _ _ _ _ output later hrun hrest =>
    rw [hplugin] at hrun
    obtain ⟨options, hdecode, rfl⟩ := Insertion.output_eq_ok_iff.1 (congrArg Prod.fst hrun)
    refine ⟨options, run, earlier, later, hconfig ▸ hdecode, hlookups, hprepare, hran, hearlier.trans hlength,
      standIn_contribution earlier later, fun hplacement => ?_⟩
    have hprepend : options.contribution.prepend = options.content := by
      rw [InsertionOptions.contribution, hplacement]
    have hiff := infix_headerLines_iff earlier options.contribution later
    rw [hprepend] at hiff
    refine ⟨exists_assemble_eq _, fun line hl => ?_, hiff, fun h => standIn_of_header (hiff.2 h)⟩
    exact mem_headerLines.2 ⟨_, List.mem_append_right _ List.mem_cons_self, hprepend ▸ hl⟩

/-- a target with entries that insert text -/
def noticeRequest (entries : List Json) : OutputRequest where
  filename := "notice.ts"
  schema := "type Query { ok: Boolean }"
  documents := []
  outsideFragments := []
  plugins := entries.map (⟨"add", ·⟩)
  config := .null

/-- a notice whose first line is recorded again afterwards -/
theorem insertions_literal_iff_notice :
    (generate (.standard ⟨0, 0⟩) (noticeRequest [.strings ["// Generated.", "// Do not edit."], .str "// Generated."])
        .empty).1 = .ok "// Generated.\n// Do not edit." ∧
      StandIn ["// Generated.", "// Do not edit."] "// Generated.\n// Do not edit." := by
  generalize hrequest : noticeRequest [.strings ["// Generated.", "// Do not edit."], .str "// Generated."] = request
  have htext : (generate (.standard ⟨0, 0⟩) request .empty).1 = .ok "// Generated.\n// Do not edit." := by
    rw [← hrequest]
    decide +kernel
  have hplugins : request.plugins = [] ++ ⟨"add", .strings ["// Generated.", "// Do not edit."]⟩ ::
      [⟨"add", .str "// Generated."⟩] := by
    rw [← hrequest]
    rfl
  obtain ⟨options, run, earlier, later, hdecode, -, -, -, hlength, -, hprepend⟩ :=
    insertions_literal_iff (Catalog.get?_standard_insertion ⟨0, 0⟩) (Prod.ext htext rfl) hplugins rfl
  have hoptions : options = ⟨["// Generated.", "// Do not edit."], .prepend⟩ := by
    rw [← hrequest] at hdecode
    exact (Except.ok.inj hdecode).symm
  subst hoptions
  rw [List.length_eq_zero_iff.1 hlength] at hprepend
  exact ⟨htext, (hprepend rfl).2.2.2 (staysTogether_of_disjoint (by decide) fun _ _ => List.not_mem_nil)⟩

/-- a blank comment line that occurs twice in a notice is inserted once -/
theorem repeated_line_missing :
    let notice := ["// Generated.", "//", "// Do not edit.", "//", "// Ask first."]
    let text := "// Generated.\n//\n// Do not edit.\n// Ask first."
    InsertionOptions.decode (.strings notice) = .ok ⟨notice, .prepend⟩ ∧
      (generate (.standard ⟨0, 0⟩) (noticeRequest [.strings notice]) .empty).1 = .ok text ∧ ¬ StandIn notice text := by
  decide +kernel

end GraphGen
