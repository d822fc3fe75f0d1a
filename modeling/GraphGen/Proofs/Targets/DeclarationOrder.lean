/-
Constants that refer to the constants of fragments.

In the modes of a template and of a syntax tree with imports a constant holds its own definition and the variables of the
fragments spread in it, and is written from these (`render_of_referenced`). A module of such constants is read from its
beginning to its end, so that a variable can be used only behind the constant that declares it (`DeclaredInOrder`).

Main results:
- `declaredInOrder_iff`: the constants of documents are declared in order exactly when every fragment of the documents
  spreads only fragments before it, and every named operation spreads only fragments of the documents.
- `fragment_used_early`: a fragment that spreads a later one is written before the constant that it uses.
-/
import GraphGen.Proofs.Targets.SelfContained

namespace GraphGen

/-! ## Elements and those before them -/

/-- every element stands in the relation to those before it -/
def EachAfter {α : Type} (related : List α → α → Prop) (l : List α) : Prop :=
  ∀ before x after, l = before ++ x :: after → related before x

section EachAfter

variable {α β : Type} {related other : List α → α → Prop}

theorem eachAfter_map {f : β → α} {l : List β} :
    EachAfter related (l.map f) ↔ EachAfter (fun before x => related (before.map f) (f x)) l := by
  constructor
  · intro h before x after hl
    exact h (before.map f) (f x) (after.map f) (by rw [hl, List.map_append, List.map_cons])
  · intro h before x after hl
    obtain ⟨before, tail, rfl, rfl, ht⟩ := List.map_eq_append_iff.1 hl
    obtain ⟨y, after, rfl, rfl, rfl⟩ := List.map_eq_cons_iff.1 ht
    exact h before y after rfl

theorem eachAfter_append {first second : List α} :
    EachAfter related (first ++ second) ↔
      EachAfter related first ∧ EachAfter (fun before => related (first ++ before)) second := by
  constructor
  · intro h
    refine ⟨fun before x after hl => h before x (after ++ second) (by simp [hl]), fun before x after hl => ?_⟩
    exact h (first ++ before) x after (by simp [hl])
  · rintro ⟨hfirst, hsecond⟩ before x after hl
    rcases List.append_eq_append_iff.1 hl with ⟨more, rfl, hm⟩ | ⟨more, rfl, hm⟩
    · exact hsecond more x after hm
    · cases more with
      | nil => simpa using hsecond [] x after (by simpa using hm.symm)
      | cons y more =>
        obtain ⟨rfl, -⟩ := List.cons.inj hm
        exact hfirst before x more rfl

theorem eachAfter_congr {l : List α}
    (h : ∀ before x, (∀ y ∈ before, y ∈ l) → x ∈ l → (related before x ↔ other before x)) :
    EachAfter related l ↔ EachAfter other l := by
  refine forall_congr' fun before => forall_congr' fun x => forall_congr' fun after => forall_congr' fun hl => ?_
  exact h before x (fun y hy => by simp [hl, hy]) (by simp [hl])

theorem eachAfter_forall {p : α → Prop} {l : List α} : EachAfter (fun _ => p) l ↔ ∀ x ∈ l, p x := by
  constructor
  · intro h x hx
    obtain ⟨before, after, hl⟩ := List.append_of_mem hx
    exact h before x after hl
  · intro h before x after hl
    exact h x (by simp [hl])

end EachAfter

/-! ## Constants that refer to others -/

/-- the fragments whose constants are referred to -/
def ConstantContent.referenced : ConstantContent → List String
  | .template spreads | .treeWithImports spreads => spreads
  | .tree _ | .text _ => []

/-- the variables that a constant uses -/
def Constant.used (config : DocumentConstantsOptions) (constant : Constant) : List String :=
  constant.content.referenced.map config.fragmentName

/-- every variable that a constant uses is declared before it, by the constant of a fragment -/
def DeclaredInOrder (config : DocumentConstantsOptions) : List Constant → Prop :=
  EachAfter fun before constant => ∀ used ∈ constant.used config,
    ∃ other ∈ before, other.name = used ∧ ∃ fragment, other.definition = .fragment fragment

/-- the fragments of documents spread only those before them, and their named operations only those of the documents -/
structure SpreadsBackwards (documents : List LocatedDocument) : Prop where
  inFragments : EachAfter (fun before fragment => ∀ selection ∈ fragment.selections, ∀ name, selection.Mentions name →
    ∃ other ∈ before, other.name = name) (documents.flatMap LocatedDocument.fragments)
  inNamed : ∀ source ∈ documents, ∀ op ∈ source.operations, op.name.isSome = true → ∀ selection ∈ op.selections, ∀ name,
    selection.Mentions name → ∃ other ∈ documents.flatMap LocatedDocument.fragments, other.name = name

namespace DocumentConstants

/-- the mode refers to the constants of fragments -/
def Refers (mode : DocumentMode) : Prop :=
  mode = .template ∨ mode = .treeWithImports

/-- a definition and the variables it uses, as they are written in a mode that refers to the constants of fragments -/
def writeReferring (mode : DocumentMode) (definition : Definition) (used : List String) : String :=
  if mode = .template then
    "gql`\n    " ++ definitionText definition ++ String.join (used.map fun name => "\n    $\x7b" ++ name ++ "\x7d")
      ++ "`;"
  else
    "\x7b\"kind\":\"Document\",\"definitions\":[" ++ definition.tree.compress
      ++ String.join (used.map fun name => ",..." ++ name ++ ".definitions") ++ "]\x7d as unknown as DocumentNode;"

variable {fragments : FragmentIndex} {documents : List LocatedDocument} {config : DocumentConstantsOptions}

/-- a spread is added unless it was met, and its fragment must be known -/
def meetSpread (fragments : FragmentIndex) (met : List String) (name : String) : Except Error (List String) :=
  if met.contains name then .ok met
  else
    match fragments.require name with
    | .ok _ => .ok (met ++ [name])
    | .error error => .error error

/-- going over spreads adds each of them that is new -/
theorem mem_of_foldlM_meetSpread {spreads met found : List String}
    (h : spreads.foldlM (meetSpread fragments) met = .ok found) (hmet : met.Nodup) :
    found.Nodup ∧ ∀ name, name ∈ found ↔ name ∈ met ∨ name ∈ spreads := by
  induction spreads generalizing met with
  | nil =>
    cases h
    exact ⟨hmet, by simp⟩
  | cons first rest ih =>
    rw [List.foldlM_cons] at h
    obtain ⟨next, hstep, hrest⟩ := bind_eq_ok_iff.1 h
    unfold meetSpread at hstep
    by_cases hold : first ∈ met
    · rw [if_pos (List.contains_iff_mem.2 hold)] at hstep
      cases hstep
      obtain ⟨hnodup, hmem⟩ := ih hrest hmet
      refine ⟨hnodup, fun name => (hmem name).trans ?_⟩
      rw [List.mem_cons]
      exact ⟨fun h => h.imp_right Or.inr, fun h => h.elim Or.inl fun h => h.elim (fun h => Or.inl (h ▸ hold)) Or.inr⟩
    · rw [if_neg (mt List.contains_iff_mem.1 hold)] at hstep
      cases hr : fragments.require first with
      | error error =>
        rw [hr] at hstep
        cases hstep
      | ok entry =>
        rw [hr] at hstep
        cases hstep
        have hnext : (met ++ [first]).Nodup := by
          rw [← List.concat_eq_append]
          exact hmet.concat hold
        obtain ⟨hnodup, hmem⟩ := ih hrest hnext
        refine ⟨hnodup, fun name => (hmem name).trans ?_⟩
        simp only [List.mem_append, List.mem_cons, List.not_mem_nil, or_false, or_assoc]

/-- the fragments spread in a selection set, each once -/
theorem mem_directFragments {selections : SelectionSet} {found : List String}
    (h : directFragments fragments selections = .ok found) :
    found.Nodup ∧ ∀ name, name ∈ found ↔ name ∈ selections.spreads := by
  have hmem : found.Nodup ∧ ∀ name, name ∈ found ↔ name ∈ [] ∨ name ∈ selections.spreads :=
    mem_of_foldlM_meetSpread h List.nodup_nil
  simpa using hmem

theorem contentOf_refers {mode : DocumentMode} (hm : Refers mode) {selections : SelectionSet} {content : ConstantContent}
    (hc : contentOf mode fragments selections = .ok content) :
    directFragments fragments selections = .ok content.referenced ∧
      (mode = .template ∧ content = .template content.referenced ∨
        mode = .treeWithImports ∧ content = .treeWithImports content.referenced) := by
  rcases hm with rfl | rfl
  all_goals
    obtain ⟨found, hf, rfl⟩ := map_eq_ok_iff.1 hc
    exact ⟨hf, by simp [ConstantContent.referenced]⟩

/-- **A constant is written from its definition and the variables that it uses.** -/
theorem render_of_referenced {constant : Constant}
    (h : config.mode = .template ∧ constant.content = .template constant.content.referenced ∨
      config.mode = .treeWithImports ∧ constant.content = .treeWithImports constant.content.referenced) :
    constant.render config = "export const " ++ constant.name ++ " = " ++
      writeReferring config.mode constant.definition (constant.used config) := by
  rcases h with ⟨hm, hc⟩ | ⟨hm, hc⟩
  · rw [writeReferring, if_pos hm, Constant.used, List.map_map, Constant.render, hc]
    simp only [ConstantContent.referenced, String.append_assoc, Function.comp_def]
  · rw [writeReferring, if_neg (by rw [hm]; decide), Constant.used, List.map_map, Constant.render, hc]
    simp only [ConstantContent.referenced, String.append_assoc, Function.comp_def]

/-- what is generated are constants for all definitions, in their order -/
theorem constants_of_generate {input : PluginView} {ctx after : SharedValues} {contribution : Contribution}
    (hconfig : readConfig input.config = .ok config) (hm : config.mode ≠ .external)
    (hg : Plugin.documentConstants.generate input ctx = (.ok contribution, after)) :
    ∃ made, constants config input.fragments input.documents = .ok made ∧
      contribution.content = String.intercalate "\n\n" (made.map (·.render config)) := by
  have ho : output input = .ok contribution := congrArg Prod.fst hg
  obtain ⟨read, hread, ho⟩ := bind_eq_ok_iff.1 ho
  cases hconfig.symm.trans hread
  rw [if_neg hm] at ho
  obtain ⟨made, hmade, ho⟩ := bind_eq_ok_iff.1 ho
  cases ho
  exact ⟨made, hmade, rfl⟩

/-! ## The order of declarations -/

/-- an entry declares the constant of the fragment of that name -/
def DeclaresFragment (config : DocumentConstantsOptions) (name : String) (entry : String × Definition) : Prop :=
  entry.1 = config.fragmentName name ∧ ∃ fragment, entry.2 = .fragment fragment

theorem fragmentName_injective : Function.Injective config.fragmentName := by
  intro first second h
  have hchars := congrArg String.toList h
  simp only [DocumentConstantsOptions.fragmentName, String.toList_append] at hchars
  exact String.toList_inj.1 (List.append_cancel_left (List.append_cancel_right hchars))

/-- among the constants of fragments, that of a fragment declares its variable -/
theorem exists_declaresFragment_iff {entered : List Fragment} {name : String} :
    (∃ entry ∈ entered.map fun f => (config.fragmentName f.name, Definition.fragment f),
      DeclaresFragment config name entry) ↔ ∃ f ∈ entered, f.name = name := by
  constructor
  · rintro ⟨entry, he, hname, -⟩
    obtain ⟨f, hf, rfl⟩ := List.mem_map.1 he
    exact ⟨f, hf, fragmentName_injective hname⟩
  · rintro ⟨f, hf, rfl⟩
    exact ⟨_, List.mem_map.2 ⟨f, hf, rfl⟩, rfl, f, rfl⟩

/-- the constants of operations declare no fragment -/
theorem not_declaresFragment_of_named {entry : String × Definition} {name : String}
    (he : entry ∈ (documents.flatMap LocatedDocument.operations).filterMap (namedOperation? config)) :
    ¬ DeclaresFragment config name entry := by
  rintro ⟨-, fragment, hf⟩
  obtain ⟨op, -, hop⟩ := List.mem_filterMap.1 he
  obtain ⟨_, -, rfl⟩ := Option.map_eq_some_iff.1 hop
  cases hf

theorem forall_spreads_iff {selections : SelectionSet} {p : String → Prop} :
    (∀ name ∈ selections.spreads, p name) ↔
      ∀ selection ∈ selections, ∀ name, selection.Mentions name → p name := by
  simp only [SelectionSet.spreads, Selection.mem_spreadsOf_iff]
  constructor
  · intro h selection hs name hn
    exact h name ⟨selection, hs, hn⟩
  · rintro h name ⟨selection, hs, hn⟩
    exact h selection hs name hn

/-- fragments are declared in order when each stands behind those that it spreads -/
theorem eachAfter_fragments_iff {entered : List Fragment} :
    EachAfter (fun before entry => ∀ name ∈ entry.2.selections.spreads, ∃ other ∈ before, DeclaresFragment config name other)
        (entered.map fun f => (config.fragmentName f.name, Definition.fragment f)) ↔
      EachAfter (fun before fragment => ∀ selection ∈ fragment.selections, ∀ name, selection.Mentions name →
        ∃ other ∈ before, other.name = name) entered := by
  refine eachAfter_map.trans (eachAfter_congr fun before fragment _ _ => ?_)
  simp only [exists_declaresFragment_iff]
  exact forall_spreads_iff

/-- operations behind fragments are declared in order when they spread only these, since no operation declares one -/
theorem eachAfter_operations_iff {entered : List Fragment} :
    EachAfter (fun before entry => ∀ name ∈ entry.2.selections.spreads,
        ∃ other ∈ (entered.map fun f => (config.fragmentName f.name, Definition.fragment f)) ++ before,
          DeclaresFragment config name other)
        ((documents.flatMap LocatedDocument.operations).filterMap (namedOperation? config)) ↔
      ∀ entry ∈ (documents.flatMap LocatedDocument.operations).filterMap (namedOperation? config),
        ∀ name ∈ entry.2.selections.spreads, ∃ f ∈ entered, f.name = name := by
  refine (eachAfter_congr fun before entry hbefore _ => ?_).trans eachAfter_forall
  refine forall₂_congr fun name _ => ?_
  rw [← @exists_declaresFragment_iff config]
  simp only [List.mem_append, or_and_right, exists_or]
  refine or_iff_left ?_
  rintro ⟨other, ho, hdeclares⟩
  exact not_declaresFragment_of_named (hbefore other ho) hdeclares

/-- Definitions are declared in order when fragments stand before what spreads them: all fragments come first. -/
theorem eachAfter_definitions_iff :
    EachAfter (fun before entry => ∀ name ∈ entry.2.selections.spreads, ∃ other ∈ before, DeclaresFragment config name other)
        (definitions config documents) ↔ SpreadsBackwards documents := by
  rw [definitions, eachAfter_append, eachAfter_fragments_iff, eachAfter_operations_iff]
  constructor
  · rintro ⟨hf, ho⟩
    refine ⟨hf, fun source hs op hop hname => ?_⟩
    obtain ⟨opName, hn⟩ := Option.isSome_iff_exists.1 hname
    refine forall_spreads_iff.1 (ho (config.documentName opName, .operation op) (List.mem_filterMap.2 ⟨op, ?_, ?_⟩))
    · exact List.mem_flatMap.2 ⟨source, hs, hop⟩
    · rw [namedOperation?, hn]
      rfl
  · rintro ⟨hf, ho⟩
    refine ⟨hf, fun entry he => ?_⟩
    obtain ⟨op, hop, he⟩ := List.mem_filterMap.1 he
    obtain ⟨source, hs, hop⟩ := List.mem_flatMap.1 hop
    obtain ⟨opName, hn, rfl⟩ := Option.map_eq_some_iff.1 he
    exact forall_spreads_iff.2 (ho source hs op hop (by rw [hn]; rfl))

/-- a constant uses the variables of the fragments spread in it, each once -/
theorem used_of_directFragments {c : Constant}
    (h : directFragments fragments c.definition.selections = .ok c.content.referenced) :
    (c.used config).Nodup ∧ ∀ used, used ∈ c.used config ↔
      ∃ name, config.fragmentName name = used ∧ ∃ selection ∈ c.definition.selections, selection.Mentions name := by
  obtain ⟨hnodup, hmem⟩ := mem_directFragments h
  refine ⟨hnodup.map fragmentName_injective, fun used => ?_⟩
  rw [Constant.used, List.mem_map]
  refine exists_congr fun name => and_comm.trans (and_congr_right fun _ => ?_)
  exact (hmem name).trans (Selection.mem_spreadsOf_iff name _)

/-- **Constants are declared in order** exactly when every fragment of the documents spreads only those before it and every
named operation spreads only fragments of the documents. For any known fragments, whenever documents become constants in a mode
that refers to the constants of fragments, there is one for each fragment and named operation, written from its definition and
the variables of the fragments spread in it, each once; and a variable is declared too late, or not at all, just where a
fragment spreads one that does not stand before it, or something spreads a fragment from outside. -/
theorem declaredInOrder_iff {input : PluginView} {ctx after : SharedValues} {contribution : Contribution}
    (hconfig : readConfig input.config = .ok config) (hm : Refers config.mode)
    (hg : Plugin.documentConstants.generate input ctx = (.ok contribution, after)) :
    ∃ constants : List Constant,
      constants.map (fun c => (c.name, c.definition)) = definitions config input.documents ∧
      contribution.content = String.intercalate "\n\n"
        (constants.map fun c =>
          "export const " ++ c.name ++ " = " ++ writeReferring config.mode c.definition (c.used config)) ∧
      (∀ c ∈ constants, (c.used config).Nodup ∧ ∀ used, used ∈ c.used config ↔
        ∃ name, config.fragmentName name = used ∧ ∃ selection ∈ c.definition.selections, selection.Mentions name) ∧
      (DeclaredInOrder config constants ↔ SpreadsBackwards input.documents) := by
  obtain ⟨made, hmade, hcontent⟩ :=
    constants_of_generate hconfig (by rcases hm with hm | hm <;> rw [hm] <;> nofun) hg
  obtain ⟨hdefinitions, hcontents⟩ := constants_eq_ok hmade
  have hreferenced : ∀ c ∈ made, ∀ name, name ∈ c.content.referenced ↔ name ∈ c.definition.selections.spreads :=
    fun c hc => (mem_directFragments (contentOf_refers hm (hcontents c hc)).1).2
  refine ⟨made, hdefinitions, ?_, fun c hc => used_of_directFragments (contentOf_refers hm (hcontents c hc)).1, ?_⟩
  · rw [hcontent]
    exact congrArg (String.intercalate "\n\n")
      (List.map_congr_left fun c hc => render_of_referenced (contentOf_refers hm (hcontents c hc)).2)
  · rw [← @eachAfter_definitions_iff _ config, ← hdefinitions, eachAfter_map]
    refine eachAfter_congr fun before c _ hc => ?_
    simp only [Constant.used, List.forall_mem_map, hreferenced c hc]
    refine forall₂_congr fun name _ => ?_
    simp only [DeclaresFragment, List.mem_map, exists_exists_and_eq_and]

/-- a document with a fragment before the one that it spreads -/
def earlyView : PluginView :=
  ⟨default, [⟨"user.graphql", [.fragment moreFragment, .fragment bitsFragment]⟩],
    ⟨Table.ofList [("More", ⟨moreFragment, "user.graphql", false⟩), ("Bits", ⟨bitsFragment, "user.graphql", false⟩)]⟩,
    .null, "user.ts", []⟩

/-- the options when nothing is configured -/
def plainOptions : DocumentConstantsOptions :=
  ⟨.template, none, none, "", "Document", "", "FragmentDoc"⟩

/-- what becomes of it -/
theorem output_earlyView : output earlyView = .ok
    { prepend := ["import gql from 'graphql-tag';"]
      content := "export const MoreFragmentDoc = gql`\n    fragment More on User \x7b\n  ...Bits\n  name\n\x7d" ++
        "\n    $\x7bBitsFragmentDoc\x7d`;\n\n" ++
        "export const BitsFragmentDoc = gql`\n    fragment Bits on User \x7b\n  id\n\x7d`;" } := by
  decide +kernel

/-- the fragment `More` stands before `Bits`, which it spreads -/
theorem not_spreadsBackwards_early : ¬ SpreadsBackwards earlyView.documents := by
  intro h
  obtain ⟨other, ho, -⟩ :=
    h.inFragments [] moreFragment [bitsFragment] rfl (.spread "Bits" []) List.mem_cons_self "Bits" (.here [])
  cases ho

theorem declaredInOrder_iff_early :
    ∃ (contribution : Contribution) (constants : List Constant),
      readConfig earlyView.config = .ok plainOptions ∧
      Plugin.documentConstants.generate earlyView .empty = (.ok contribution, .empty) ∧
      constants.map (fun c => (c.name, c.definition)) =
        [("MoreFragmentDoc", .fragment moreFragment), ("BitsFragmentDoc", .fragment bitsFragment)] ∧
      ¬ DeclaredInOrder plainOptions constants := by
  have hconfig : readConfig earlyView.config = .ok plainOptions := rfl
  have hgenerate : Plugin.documentConstants.generate earlyView .empty = (.ok _, .empty) :=
    congrArg (Prod.mk · _) output_earlyView
  obtain ⟨constants, hnames, -, -, horder⟩ := declaredInOrder_iff hconfig (Or.inl rfl) hgenerate
  exact ⟨_, constants, hconfig, hgenerate, hnames, mt horder.1 not_spreadsBackwards_early⟩

/-- **A fragment is used too early:** the template of `More` takes in a variable that no constant before it declares, since
that of `Bits` comes behind it. -/
theorem fragment_used_early :
    FragmentIndex.ofDocuments earlyView.documents [] = .ok earlyView.fragments ∧
    ∃ (contribution : Contribution) (more bits : Constant),
      Plugin.documentConstants.generate earlyView .empty = (.ok contribution, .empty) ∧
      contribution.content = more.render plainOptions ++ "\n\n" ++ bits.render plainOptions ∧
      more.used plainOptions = ["BitsFragmentDoc"] ∧ bits.name = "BitsFragmentDoc" ∧
      ¬ DeclaredInOrder plainOptions [more, bits] := by
  refine ⟨rfl, _, ⟨"MoreFragmentDoc", .fragment moreFragment, .template ["Bits"]⟩,
    ⟨"BitsFragmentDoc", .fragment bitsFragment, .template []⟩, congrArg (Prod.mk · _) output_earlyView, ?_, ?_, rfl, ?_⟩
  · decide +kernel
  · decide +kernel
  · intro h
    obtain ⟨other, ho, -⟩ := h [] _ _ rfl "BitsFragmentDoc" (by decide +kernel)
    cases ho

end DocumentConstants

end GraphGen
