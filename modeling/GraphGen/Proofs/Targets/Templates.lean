/-
Constants that are tagged templates.

`Constant.Faithful` says that a constant is one template literal behind its tag, with the substitutions of the variables that it
uses, whose text is the printed definition. The text is put in as it is printed, where the mode of texts escapes it
(`templateText`).

Main results:
- `faithful_iff`: a constant in the mode of a template is faithful exactly when its printed definition is plain, and the
  variables have names.
- `templates_faithful_iff`: this for all constants of documents.
- `template_cut_short`: a backtick in a string ends the literal.
-/
import GraphGen.Proofs.Targets.DeclarationOrder
import GraphGen.Proofs.Text.TemplateLiteral

namespace GraphGen

open DocumentConstants TemplateLiteral in
/-- the constant is a tagged template literal with the text of its definition and substitutions of what it uses -/
def Constant.Faithful (config : DocumentConstantsOptions) (constant : Constant) : Prop :=
  ∃ source literal, constant.render config = "export const " ++ constant.name ++ " = gql" ++ source ++ ";" ∧
    parse? source.toList = some literal ∧ literal.names = constant.used config ∧
    literal.Shows (definitionText constant.definition).toList

namespace DocumentConstants

open TemplateLiteral

variable {config : DocumentConstantsOptions}

/-- the literal behind the tag of a constant -/
def literalSource (config : DocumentConstantsOptions) (constant : Constant) : List Char :=
  '\x60' :: ("\n    ".toList ++ (definitionText constant.definition).toList ++ substitutionLines (constant.used config) ++
    ['\x60'])

/-- a constant in the mode of a template is written with this literal -/
theorem render_template_iff {constant : Constant} {source : String}
    (hcontent : constant.content = .template constant.content.referenced) :
    constant.render config = "export const " ++ constant.name ++ " = gql" ++ source ++ ";" ↔
      source.toList = literalSource config constant := by
  have hrender : constant.render config =
      "export const " ++ constant.name ++ " = gql" ++ String.ofList (literalSource config constant) ++ ";" := by
    rw [Constant.render, hcontent]
    apply String.toList_inj.1
    simp [literalSource, substitutionLines, Constant.used, ConstantContent.referenced, String.toList_join, List.flatMap_map]
  rw [hrender]
  constructor
  · intro h
    have hchars := congrArg String.toList h
    simp only [String.toList_append, String.toList_ofList] at hchars
    exact (List.append_cancel_left (List.append_cancel_right hchars)).symm
  · intro h
    rw [← h, String.ofList_toList]

/-- **When a constant is faithful.** -/
theorem faithful_iff {constant : Constant} (hcontent : constant.content = .template constant.content.referenced)
    (hreturn : '\r' ∉ (definitionText constant.definition).toList) : constant.Faithful config ↔
      Plain (definitionText constant.definition).toList ∧
        ∀ name ∈ constant.used config, isVariableName name.toList = true := by
  rw [← parse?_iff hreturn]
  constructor
  · rintro ⟨source, literal, hrender, hparse, hnames, hshows⟩
    rw [(render_template_iff hcontent).1 hrender] at hparse
    exact ⟨literal, hparse, hnames, hshows⟩
  · rintro ⟨literal, hparse, hnames, hshows⟩
    refine ⟨String.ofList (literalSource config constant), literal, ?_, ?_, hnames, hshows⟩
    · exact (render_template_iff hcontent).2 String.toList_ofList
    · rwa [String.toList_ofList]

/-- **Templates against documents.** Whenever documents become constants in the mode of a template, there is one for each
fragment and named operation, and it uses the variables of the fragments spread in it, each once. If the printed definition has
no carriage return, the constant is one template literal with the substitutions of these variables and the text of the
definition exactly when this text has no backslash, no backtick and no opening of a substitution, and the variables have
names. -/
theorem templates_faithful_iff {input : PluginView} {ctx after : SharedValues} {contribution : Contribution}
    (hconfig : readConfig input.config = .ok config) (hm : config.mode = .template)
    (hg : Plugin.documentConstants.generate input ctx = (.ok contribution, after)) :
    ∃ constants : List Constant,
      constants.map (fun c => (c.name, c.definition)) = definitions config input.documents ∧
      contribution.content = String.intercalate "\n\n" (constants.map (·.render config)) ∧
      ∀ c ∈ constants, (c.used config).Nodup ∧
        (∀ used, used ∈ c.used config ↔
          ∃ name, config.fragmentName name = used ∧ ∃ selection ∈ c.definition.selections, selection.Mentions name) ∧
        ('\r' ∉ (definitionText c.definition).toList → (c.Faithful config ↔
          Plain (definitionText c.definition).toList ∧ ∀ name ∈ c.used config, isVariableName name.toList = true)) := by
  obtain ⟨made, hmade, hcontent⟩ := constants_of_generate hconfig (by rw [hm]; nofun) hg
  obtain ⟨hdefinitions, hcontents⟩ := constants_eq_ok hmade
  refine ⟨made, hdefinitions, hcontent, fun c hc => ?_⟩
  obtain ⟨hdirect, hkind⟩ := contentOf_refers (Or.inl hm) (hcontents c hc)
  have htemplate : c.content = .template c.content.referenced := by
    rcases hkind with ⟨-, h⟩ | ⟨h, -⟩
    · exact h
    · cases hm.symm.trans h
  obtain ⟨hnodup, hmem⟩ := used_of_directFragments hdirect
  exact ⟨hnodup, hmem, faithful_iff htemplate⟩

/-- the fragments of the document are printed as plain text, and spread fragments whose variables have names -/
theorem plain_early : ∀ d ∈ [Definition.fragment moreFragment, .fragment bitsFragment],
    '\r' ∉ (definitionText d).toList ∧ Plain (definitionText d).toList ∧
      ∀ name ∈ d.selections.spreads, isVariableName (plainOptions.fragmentName name).toList = true := by
  decide +kernel

theorem templates_faithful_iff_early :
    ∃ (contribution : Contribution) (constants : List Constant),
      readConfig earlyView.config = .ok plainOptions ∧
      Plugin.documentConstants.generate earlyView .empty = (.ok contribution, .empty) ∧
      constants.map (fun c => (c.name, c.definition)) =
        [("MoreFragmentDoc", .fragment moreFragment), ("BitsFragmentDoc", .fragment bitsFragment)] ∧
      ∀ c ∈ constants, c.Faithful plainOptions := by
  have hconfig : readConfig earlyView.config = .ok plainOptions := rfl
  have hgenerate : Plugin.documentConstants.generate earlyView .empty = (.ok _, .empty) :=
    congrArg (Prod.mk · _) output_earlyView
  obtain ⟨constants, hnames, -, hall⟩ := templates_faithful_iff hconfig rfl hgenerate
  refine ⟨_, constants, hconfig, hgenerate, hnames, fun c hc => ?_⟩
  obtain ⟨-, hused, hfaithful⟩ := hall c hc
  have hdefinition : c.definition ∈ [Definition.fragment moreFragment, .fragment bitsFragment] := by
    have hentry : (c.name, c.definition) ∈ definitions plainOptions earlyView.documents :=
      hnames ▸ List.mem_map.2 ⟨c, hc, rfl⟩
    have hmem : c.definition ∈ (definitions plainOptions earlyView.documents).map Prod.snd := List.mem_map_of_mem hentry
    exact hmem
  obtain ⟨hreturn, hplain, hvariables⟩ := plain_early c.definition hdefinition
  refine (hfaithful hreturn).2 ⟨hplain, fun used hu => ?_⟩
  obtain ⟨name, rfl, selection, hs, hmention⟩ := (hused used).1 hu
  exact forall_spreads_iff.1 hvariables selection hs name hmention

/-- a query with a backtick in a string -/
def findQuery : Operation :=
  ⟨.keyword .query (some "Find") [] [], [.field none "find" [("text", .string "a`b")] [] []], ⟨1, 1⟩⟩

/-- a document with it -/
def findView : PluginView :=
  ⟨default, [⟨"find.graphql", [.operation findQuery]⟩], .empty, .null, "find.ts", []⟩

/-- the constant of the query -/
def findConstant : Constant :=
  ⟨"FindDocument", .operation findQuery, .template []⟩

/-- **A template is cut short:** the backtick in the string ends the literal, and what follows is none. -/
theorem template_cut_short :
    FragmentIndex.ofDocuments findView.documents [] = .ok findView.fragments ∧
    ∃ contribution : Contribution,
      Plugin.documentConstants.generate findView .empty = (.ok contribution, .empty) ∧
      contribution.content = findConstant.render plainOptions ∧
      findConstant.render plainOptions =
        "export const FindDocument = gql`\n    query Find \x7b\n  find(text: \"a`b\")\n\x7d`;" ∧
      '\r' ∉ (definitionText findConstant.definition).toList ∧ ¬ findConstant.Faithful plainOptions := by
  have hrender : findConstant.render plainOptions =
      "export const FindDocument = gql`\n    query Find \x7b\n  find(text: \"a`b\")\n\x7d`;" := by
    decide +kernel
  have houtput : output findView =
      .ok { prepend := ["import gql from 'graphql-tag';"], content := findConstant.render plainOptions } := by
    decide +kernel
  have hreturn : '\r' ∉ (definitionText findConstant.definition).toList := by decide +kernel
  have hplain : ¬ Plain (definitionText findConstant.definition).toList := by decide +kernel
  exact ⟨rfl, _, congrArg (Prod.mk · _) houtput, rfl, hrender, hreturn, fun h => hplain ((faithful_iff rfl hreturn).1 h).1⟩

end DocumentConstants

end GraphGen
