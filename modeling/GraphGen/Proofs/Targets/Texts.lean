/-
Constants that are texts.

In the mode of texts a constant is a template literal with the printed definitions that it holds, and a backslash before what
has a meaning in a literal (`templateText_toList`). Reading undoes it (`read?_escaped`), with one exception: a literal has no
carriage returns, since all line ends are line feeds there (`lineEnds`), and a carriage return is not escaped.

Main results:
- `parse?_templateText`: any text in this form is one literal without substitutions, whose value is the text with its line ends
  as line feeds.
- `texts_evaluate`: so every constant evaluates to the printed definitions that it holds, exactly when they have no carriage
  return.
- `return_lost`: a string of several lines is printed with the carriage returns in it.
-/
import GraphGen.Proofs.Targets.DeclarationOrder
import GraphGen.Proofs.Text.TemplateLiteral

namespace GraphGen

open TemplateLiteral

/-! ## Reading it -/

/-- characters with their line ends as line feeds: a carriage return is one, with a line feed behind it or without -/
def lineEnds : List Char → List Char
  | '\r' :: '\n' :: rest => '\n' :: lineEnds rest
  | '\r' :: rest => '\n' :: lineEnds rest
  | c :: rest => c :: lineEnds rest
  | [] => []

theorem return_not_mem_lineEnds (cs : List Char) : '\r' ∉ lineEnds cs := by
  induction cs using lineEnds.induct with
  | case1 rest ih => simpa [lineEnds] using ih
  | case2 rest hrest ih => simpa [lineEnds] using ih
  | case3 c rest hc hrest ih =>
    rw [lineEnds]
    · simpa using ⟨fun h => hrest h.symm, ih⟩
    all_goals assumption
  | case4 => simp [lineEnds]

theorem lineEnds_eq_self {cs : List Char} (h : '\r' ∉ cs) : lineEnds cs = cs := by
  induction cs using lineEnds.induct with
  | case1 rest ih => simp at h
  | case2 rest hrest ih => simp at h
  | case3 c rest hc hrest ih =>
    rw [lineEnds, ih (List.not_mem_of_not_mem_cons h)]
    all_goals assumption
  | case4 => rfl

namespace TemplateLiteral

/-- a brace or a line feed is the first character of escaped text where it is that of the text -/
theorem head?_escaped {d : Char} (hd : d = '\x7b' ∨ d = '\n') (cs more : List Char) :
    (escaped cs ++ '\x60' :: more).head? = some d ↔ cs.head? = some d := by
  cases cs with
  | nil => rcases hd with rfl | rfl <;> simp [escaped]
  | cons c cs =>
    rw [escaped]
    split
    · rename_i hc
      rcases hc with rfl | rfl | ⟨rfl, -⟩ <;> rcases hd with rfl | rfl <;> simp
    · simp

/-- an escaped character is read as itself -/
theorem read?_escape {c : Char} (hc : c = '\\' ∨ c = '\x60' ∨ c = '$') (cs : List Char) :
    read? ('\\' :: c :: cs) = (read? cs).map fun (literal, rest) => (literal.before (codeUnits c.toNat), rest) := by
  have hpiece : piece? ('\\' :: c :: cs) = some (.text (codeUnits c.toNat), cs) := by
    rcases hc with rfl | rfl | rfl <;> rfl
  rw [read?, hpiece]

/-- a carriage return is read as a line feed, together with one behind it -/
theorem read?_return (cs : List Char) :
    read? ('\r' :: cs) = (read? (dropLineFeed cs)).map fun (literal, rest) => (literal.before [10], rest) := by
  have hpiece : piece? ('\r' :: cs) = some (.text [10], dropLineFeed cs) := rfl
  rw [read?, hpiece]

/-- **Escaped text is read back,** with its line ends as line feeds. -/
theorem read?_escaped (cs more : List Char) :
    read? (escaped cs ++ '\x60' :: more) = some (⟨utf16 (lineEnds cs), []⟩, more) := by
  induction cs using lineEnds.induct with
  | case1 rest ih =>
    have hescaped : escaped ('\r' :: '\n' :: rest) = '\r' :: '\n' :: escaped rest := by simp [escaped]
    rw [hescaped, List.cons_append, List.cons_append, read?_return, dropLineFeed, if_pos (List.head?_cons),
      List.tail_cons, ih]
    rfl
  | case2 rest hrest ih =>
    have hescaped : escaped ('\r' :: rest) = '\r' :: escaped rest := by simp [escaped]
    have hhead : ¬ (escaped rest ++ '\x60' :: more).head? = some '\n' := by
      rw [head?_escaped (Or.inr rfl)]
      intro h
      obtain ⟨tail, rfl⟩ := List.head?_eq_some_iff.1 h
      exact hrest tail rfl
    have hline : lineEnds ('\r' :: rest) = '\n' :: lineEnds rest := by
      rw [lineEnds]
      exact hrest
    rw [hescaped, hline, List.cons_append, read?_return, dropLineFeed, if_neg hhead, ih]
    rfl
  | case3 c rest hc hreturn ih =>
    have hline : lineEnds (c :: rest) = c :: lineEnds rest := by
      rw [lineEnds]
      all_goals assumption
    rw [hline, escaped]
    split
    · rename_i hmark
      have hmark : c = '\\' ∨ c = '\x60' ∨ c = '$' := hmark.imp_right (Or.imp_right And.left)
      rw [List.cons_append, List.cons_append, read?_escape hmark, ih]
      rfl
    · rename_i hmark
      push Not at hmark
      obtain ⟨hescape, hclose, hopen⟩ := hmark
      have hopen : ¬ (c = '$' ∧ (escaped rest ++ '\x60' :: more).head? = some '\x7b') := by
        rw [head?_escaped (Or.inl rfl)]
        exact fun h => hopen h.1 h.2
      rw [List.cons_append, read?_cons hclose hescape hreturn hopen, ih]
      rfl
  | case4 => exact read?_close more

/-- **A text in a template literal.** -/
theorem parse?_templateText (text : String) :
    parse? ('\x60' :: (DocumentConstants.templateText text).toList ++ ['\x60']) =
      some ⟨utf16 (lineEnds text.toList), []⟩ := by
  rw [List.cons_append, parse?_eq_some_iff, DocumentConstants.templateText_toList, read?_escaped]

/-- a carriage return has a code unit of its own -/
theorem return_mem_utf16_iff (cs : List Char) : 13 ∈ utf16 cs ↔ '\r' ∈ cs := by
  have hunit : ∀ c : Char, 13 ∈ codeUnits c.toNat ↔ c = '\r' := by
    intro c
    rw [← Char.toNat_inj, show '\r'.toNat = 13 from rfl, codeUnits]
    split
    · rw [List.mem_singleton, eq_comm]
    · simp only [List.mem_cons, List.not_mem_nil, or_false]
      omega
  simp [utf16, hunit]

/-- the line ends of a text make no difference exactly when it has no carriage return -/
theorem utf16_lineEnds_iff (cs : List Char) : utf16 (lineEnds cs) = utf16 cs ↔ '\r' ∉ cs := by
  constructor
  · intro h hreturn
    rw [← return_mem_utf16_iff, ← h, return_mem_utf16_iff] at hreturn
    exact return_not_mem_lineEnds cs hreturn
  · intro h
    rw [lineEnds_eq_self h]

end TemplateLiteral

/-! ## Constants -/

namespace Constant

open DocumentConstants

/-- the printed definitions that a constant holds, each without the white space at its end, on lines of their own -/
def heldText (constant : Constant) : String :=
  String.intercalate "\n" (constant.held.map definitionText)

/-- the constant is one template literal without substitutions, and the text is its value -/
def EvaluatesTo (config : DocumentConstantsOptions) (constant : Constant) (text : String) : Prop :=
  ∃ source, constant.render config = "export const " ++ constant.name ++ " = " ++ source ++ ";" ∧
    parse? source.toList = some ⟨utf16 text.toList, []⟩

variable {config : DocumentConstantsOptions} {constant : Constant}

/-- **What a constant evaluates to** in the mode of texts. -/
theorem evaluatesTo_iff {fragments : List Fragment} (hcontent : constant.content = .text fragments) (text : String) :
    constant.EvaluatesTo config text ↔ utf16 (lineEnds constant.heldText.toList) = utf16 text.toList := by
  have htexts : (constant.definition :: fragments.map Definition.fragment).map definitionText =
      constant.held.map definitionText := by
    rw [held, hcontent]
    rfl
  have hrender : constant.render config = "export const " ++ constant.name ++ " = " ++
      String.ofList ('\x60' :: (templateText constant.heldText).toList ++ ['\x60']) ++ ";" := by
    rw [render, hcontent]
    dsimp only
    rw [htexts]
    apply String.toList_inj.1
    simp [heldText]
  constructor
  · rintro ⟨source, hsource, hparse⟩
    -- the source of the literal is the one that is written
    have hchars := congrArg String.toList (hrender.symm.trans hsource)
    simp only [String.toList_append, String.toList_ofList] at hchars
    have hsame := List.append_cancel_left (List.append_cancel_right hchars)
    rw [← hsame, parse?_templateText] at hparse
    exact congrArg TemplateLiteral.head (Option.some.inj hparse)
  · intro h
    refine ⟨_, hrender, ?_⟩
    rw [String.toList_ofList, parse?_templateText, h]

end Constant

namespace DocumentConstants

variable {config : DocumentConstantsOptions}

/-- **Texts evaluate to what is printed.** A text without carriage returns, escaped and between backticks, is one template
literal without substitutions whose value is the text. So whenever documents become constants in the mode of texts, there is one
for each fragment and named operation, and it is one template literal without substitutions. It holds its own definition and
behind it the fragments that are found for it, and evaluates to these as they are printed, each without the white space at its
end and on lines of its own, exactly when there is no carriage return; otherwise to that with a line feed for every line
end. -/
theorem texts_evaluate :
    (∀ text : String, '\r' ∉ text.toList →
      parse? ('\x60' :: (templateText text).toList ++ ['\x60']) = some ⟨utf16 text.toList, []⟩) ∧
    ∀ {input : PluginView} {ctx after : SharedValues} {contribution : Contribution},
      readConfig input.config = .ok config → config.mode = .text →
      Plugin.documentConstants.generate input ctx = (.ok contribution, after) →
      ∃ constants : List Constant,
        constants.map (fun c => (c.name, c.definition)) = definitions config input.documents ∧
        contribution.content = String.intercalate "\n\n" (constants.map (·.render config)) ∧
        ∀ c ∈ constants, ∃ found, input.fragments.closure c.definition.selections = .ok found ∧
          c.held = c.definition :: found.map (.fragment ·.fragment) ∧
          c.EvaluatesTo config (String.ofList (lineEnds c.heldText.toList)) ∧
          (c.EvaluatesTo config c.heldText ↔ '\r' ∉ c.heldText.toList) := by
  constructor
  · intro text hreturn
    rw [parse?_templateText, lineEnds_eq_self hreturn]
  · intro input ctx after contribution hconfig hm hg
    obtain ⟨made, hmade, hcontent⟩ := constants_of_generate hconfig (by rw [hm]; nofun) hg
    obtain ⟨hdefinitions, hcontents⟩ := constants_eq_ok hmade
    refine ⟨made, hdefinitions, hcontent, fun c hc => ?_⟩
    obtain ⟨found, hfound, hcarried, hkind⟩ := contentOf_carries (Or.inr hm) (hcontents c hc)
    have htext : c.content = .text c.content.carried := by
      rcases hkind with ⟨h, -⟩ | ⟨-, h⟩
      · cases hm.symm.trans h
      · exact h
    refine ⟨found, hfound, ?_, ?_, ?_⟩
    · rw [Constant.held, hcarried, List.map_map]
      rfl
    · rw [Constant.evaluatesTo_iff htext, String.toList_ofList]
    · rw [Constant.evaluatesTo_iff htext, utf16_lineEnds_iff]

/-- the options of constants that are texts, with the standard names -/
def textOptions : DocumentConstantsOptions :=
  ⟨.text, none, none, "", "Document", "", "FragmentDoc"⟩

/-- documents that are to become texts -/
def textView (definitions : List Definition) (fragments : FragmentIndex) : PluginView :=
  ⟨default, [⟨"find.graphql", definitions⟩], fragments, .obj [("documentMode", .str "string")], "find.ts", []⟩

/-- a query with all that is escaped in its text: a backslash before the opening of a substitution, and backticks -/
def markedQuery : Operation :=
  ⟨.keyword .query (some "Find") [] [],
    [.field none "find" [("text", .string "`\\$\x7ba\x7d`")] [] [.spread "Bits" []]], ⟨1, 1⟩⟩

/-- an index of a fragment -/
def bitsIndex : FragmentIndex :=
  ⟨Table.ofList [("Bits", ⟨bitsFragment, "<external>", true⟩)]⟩

/-- the constant of the query -/
def markedConstant : Constant :=
  ⟨"FindDocument", .operation markedQuery, .text [bitsFragment]⟩

theorem texts_evaluate_marked :
    parse? ('\x60' :: (templateText "`\\$\x7ba\x7d`").toList ++ ['\x60']) = some ⟨utf16 "`\\$\x7ba\x7d`".toList, []⟩ ∧
    ∃ (contribution : Contribution) (constants : List Constant),
      Plugin.documentConstants.generate (textView [.operation markedQuery] bitsIndex) .empty = (.ok contribution, .empty) ∧
      constants.map (fun c => (c.name, c.definition)) = [("FindDocument", .operation markedQuery)] ∧
      ∀ c ∈ constants, c.held = markedConstant.held ∧ '\r' ∉ c.heldText.toList ∧
        c.EvaluatesTo textOptions c.heldText := by
  have hconfig : readConfig (textView [.operation markedQuery] bitsIndex).config = .ok textOptions := rfl
  have hconstants : constants textOptions bitsIndex (textView [.operation markedQuery] bitsIndex).documents =
      .ok [markedConstant] := by cbv
  obtain ⟨contribution, houtput⟩ : Succeeds (output (textView [.operation markedQuery] bitsIndex)) :=
    ⟨_, bind_eq_ok_iff.2 ⟨_, hconfig, bind_eq_ok_iff.2 ⟨_, hconstants, rfl⟩⟩⟩
  have hgenerate : Plugin.documentConstants.generate (textView [.operation markedQuery] bitsIndex) .empty =
      (.ok contribution, .empty) := congrArg (Prod.mk · _) houtput
  obtain ⟨hliteral, hgenerated⟩ := @texts_evaluate textOptions
  obtain ⟨constants, hnames, -, hall⟩ := hgenerated hconfig rfl hgenerate
  refine ⟨hliteral _ (by decide), contribution, constants, hgenerate, hnames, fun c hc => ?_⟩
  obtain ⟨found, hfound, hheld, -, hvalue⟩ := hall c hc
  have hdefinition : c.definition = .operation markedQuery := by
    have hentry := List.mem_map_of_mem (f := fun c : Constant => (c.name, c.definition)) hc
    rw [hnames] at hentry
    exact congrArg Prod.snd (List.mem_singleton.1 hentry)
  have hsame : c.held = markedConstant.held := by
    rw [hdefinition] at hheld hfound
    have hclosure : bitsIndex.closure (Definition.operation markedQuery).selections =
        .ok [⟨bitsFragment, "<external>", true⟩] := by cbv
    cases hclosure.symm.trans hfound
    exact hheld
  have hreturn : '\r' ∉ c.heldText.toList := by
    rw [Constant.heldText, hsame]
    decide +kernel
  exact ⟨hsame, hreturn, hvalue.2 hreturn⟩

/-- a query with a string of two lines that has a carriage return within the first one -/
def linesQuery : Operation :=
  ⟨.keyword .query (some "Find") [] [], [.field none "find" [("text", .string "x\ry\nz")] [] []], ⟨1, 1⟩⟩

/-- the constant of the query -/
def linesConstant : Constant :=
  ⟨"FindDocument", .operation linesQuery, .text []⟩

/-- **A carriage return is lost:** the string is printed over several lines, with the carriage return in it, and the constant
does not evaluate to what is printed, with the line feed at its end or without. -/
theorem return_lost :
    FragmentIndex.ofDocuments (textView [.operation linesQuery] .empty).documents [] = .ok .empty ∧
    readConfig (textView [.operation linesQuery] .empty).config = .ok textOptions ∧
    ∃ contribution : Contribution,
      Plugin.documentConstants.generate (textView [.operation linesQuery] .empty) .empty = (.ok contribution, .empty) ∧
      contribution.content = linesConstant.render textOptions ∧
      linesConstant.render textOptions =
        "export const FindDocument = `query Find \x7b\n  find(text: \"\"\"\n    x\ry\n    z\n  \"\"\")\n\x7d`;" ∧
      ¬ linesConstant.EvaluatesTo textOptions linesConstant.heldText ∧
      ¬ linesConstant.EvaluatesTo textOptions linesConstant.definition.print := by
  have hrender : linesConstant.render textOptions =
      "export const FindDocument = `query Find \x7b\n  find(text: \"\"\"\n    x\ry\n    z\n  \"\"\")\n\x7d`;" := by
    decide +kernel
  have hconstants : constants textOptions .empty (textView [.operation linesQuery] .empty).documents =
      .ok [linesConstant] := by cbv
  have houtput : output (textView [.operation linesQuery] .empty) = .ok { content := linesConstant.render textOptions } :=
    bind_eq_ok_iff.2 ⟨textOptions, rfl, bind_eq_ok_iff.2 ⟨_, hconstants, rfl⟩⟩
  refine ⟨rfl, rfl, _, congrArg (Prod.mk · _) houtput, rfl, hrender, ?_, ?_⟩
  · rw [Constant.evaluatesTo_iff rfl]
    decide +kernel
  · rw [Constant.evaluatesTo_iff rfl]
    decide +kernel

end DocumentConstants

end GraphGen
