/-
Constants that carry their fragments.

In the modes of a syntax tree and of a text a constant holds its own definition and fragments behind it (`Constant.held`), and
is written from these definitions alone (`render_of_content`): as the node of a document with their trees, or as a template
literal with their printed texts. `SelfContained` says which fragments these are. A reader of the node gets back from its text a
document that defines what is spread in it, and nothing twice (`closed_held`).

Main result:
- `selfContained_of_generate`: whenever documents have constants in these modes, all of them are self-contained.
-/
import GraphGen.Proofs.Fragments.Reaching
import GraphGen.Proofs.Targets.ShownDefinitions
import GraphGen.Proofs.Text.Escaping

namespace GraphGen

/-- the fragments that a constant carries behind its definition -/
def ConstantContent.carried : ConstantContent → List Fragment
  | .tree fragments | .text fragments => fragments
  | .template _ | .treeWithImports _ => []

/-- the index has the fragment under its name -/
def FragmentIndex.Has (index : FragmentIndex) (fragment : Fragment) : Prop :=
  ∃ entry, index.get? fragment.name = some entry ∧ entry.fragment = fragment

namespace Constant

/-- the definitions that a constant holds -/
def held (constant : Constant) : List Definition :=
  constant.definition :: constant.content.carried.map .fragment

/-- the constant carries, once each, the fragments that its definition reaches, as the index has them; so every spread in it
has one definition there, and a fragment is not repeated -/
structure SelfContained (fragments : FragmentIndex) (constant : Constant) : Prop where
  nodup : (constant.content.carried.map (·.name)).Nodup
  reached : ∀ name, name ∈ constant.content.carried.map (·.name) ↔ fragments.Reaches constant.definition.selections name
  indexed : ∀ fragment ∈ constant.content.carried, fragments.Has fragment
  defined : ∀ d ∈ constant.held, ∀ selection ∈ d.selections, ∀ name, selection.Mentions name →
    constant.held.countP (Definition.defines name) = 1
  unrepeated : ∀ fragment, constant.definition = .fragment fragment →
    constant.held.countP (Definition.defines fragment.name) = 1

end Constant

namespace DocumentConstants

/-- definitions as they are written in a mode that carries fragments along: the node of a document, or escaped text -/
def writeHeld (mode : DocumentMode) (held : List Definition) : String :=
  if mode = .tree then (documentNode held).compress ++ " as unknown as DocumentNode;"
  else "`" ++ String.ofList (escaped (String.intercalate "\n" (held.map fun d => Text.trimEnd d.print)).toList) ++ "`;"

/-- the mode carries fragments along -/
def Carries (mode : DocumentMode) : Prop :=
  mode = .tree ∨ mode = .text

variable {fragments : FragmentIndex} {documents : List LocatedDocument} {external : List Fragment}
  {config : DocumentConstantsOptions}

/-! ## One constant -/

theorem contentOf_carries {mode : DocumentMode} (hm : Carries mode) {selections : SelectionSet}
    {content : ConstantContent} (hc : contentOf mode fragments selections = .ok content) :
    ∃ found, fragments.closure selections = .ok found ∧ content.carried = found.map (·.fragment) ∧
      (mode = .tree ∧ content = .tree content.carried ∨ mode = .text ∧ content = .text content.carried) := by
  rcases hm with rfl | rfl
  all_goals
    obtain ⟨needed, hn, rfl⟩ := map_eq_ok_iff.1 hc
    obtain ⟨found, hf, hn⟩ := bind_eq_ok_iff.1 hn
    cases hn
    exact ⟨found, hf, rfl, by simp [ConstantContent.carried]⟩

theorem templateText_toList (text : String) : (templateText text).toList = escaped text.toList :=
  replace_escaped text

theorem templateText_eq (text : String) : templateText text = String.ofList (escaped text.toList) := by
  rw [← templateText_toList, String.ofList_toList]

/-- **A constant is written from the definitions that it holds.** -/
theorem render_of_content {constant : Constant}
    (h : config.mode = .tree ∧ constant.content = .tree constant.content.carried ∨
      config.mode = .text ∧ constant.content = .text constant.content.carried) :
    constant.render config = "export const " ++ constant.name ++ " = " ++ writeHeld config.mode constant.held := by
  rcases h with ⟨hm, hc⟩ | ⟨hm, hc⟩
  · have htrees : constant.held.map Definition.tree =
        constant.definition.tree :: constant.content.carried.map Fragment.tree := by
      rw [Constant.held, List.map_cons, List.map_map]
      rfl
    rw [writeHeld, if_pos hm, documentNode, htrees, Constant.render, hc]
    simp only [ConstantContent.carried, String.append_assoc]
    rfl
  · rw [writeHeld, if_neg (by rw [hm]; nofun), Constant.held, ← templateText_eq, Constant.render, hc]
    simp only [ConstantContent.carried, String.append_assoc]
    rfl

theorem countP_defines (name : String) (carried : List Fragment) :
    (carried.map Definition.fragment).countP (Definition.defines name) = (carried.map (·.name)).count name := by
  rw [List.countP_map, List.count, List.countP_map]
  rfl

/-- the definitions of a name among those that a constant holds -/
theorem countP_held (name : String) (constant : Constant) :
    constant.held.countP (Definition.defines name) =
      (constant.content.carried.map (·.name)).count name + if constant.definition.defines name then 1 else 0 := by
  rw [Constant.held, List.countP_cons, countP_defines]

/-- the fragments of the documents are in the index -/
theorem has_of_mem_fragments (h : FragmentIndex.ofDocuments documents external = .ok fragments) {source : LocatedDocument}
    {fragment : Fragment} (hs : source ∈ documents) (hf : fragment ∈ source.fragments) : fragments.Has fragment := by
  have hlocal : (⟨fragment, source.location, false⟩ : IndexedFragment) ∈ FragmentIndex.keptFragments documents external :=
    List.mem_append_left _ (List.mem_flatMap.2 ⟨source, hs, List.mem_map.2 ⟨fragment, hf, rfl⟩⟩)
  exact ⟨_, (FragmentIndex.get?_iff_of_entries (FragmentIndex.ofDocuments_ok h).1).2 ⟨hlocal, rfl⟩, rfl⟩

/-- the own definition of a constant is not reached from it: it is an operation, or a fragment that does not spread itself -/
theorem not_reaches_own (h : FragmentIndex.ofDocuments documents external = .ok fragments) {d : Definition}
    (hd : ∀ fragment, d = .fragment fragment → fragments.Has fragment) {name : String} (hdefines : d.defines name = true) :
    ¬ fragments.Reaches d.selections name := by
  cases d with
  | operation op => cases hdefines
  | fragment fragment =>
    obtain ⟨entry, he, rfl⟩ := hd fragment rfl
    rw [← of_decide_eq_true hdefines]
    exact FragmentIndex.not_reaches_itself h he

/-- what a constant defines or reaches has one definition in it, when it carries what it reaches -/
theorem countP_held_eq_one {constant : Constant} (hnodup : (constant.content.carried.map (·.name)).Nodup)
    (hreached : ∀ name, name ∈ constant.content.carried.map (·.name) ↔
      fragments.Reaches constant.definition.selections name)
    (hown : ∀ name, constant.definition.defines name = true → ¬ fragments.Reaches constant.definition.selections name)
    {name : String}
    (hname : constant.definition.defines name = true ∨ fragments.Reaches constant.definition.selections name) :
    constant.held.countP (Definition.defines name) = 1 := by
  rw [countP_held]
  by_cases hdefines : constant.definition.defines name = true
  · have hnot := mt (hreached name).1 (hown name hdefines)
    rw [List.count_eq_zero_of_not_mem hnot, if_pos hdefines]
  · have hmem := (hreached name).2 (hname.resolve_left hdefines)
    rw [List.count_eq_one_of_mem hnodup hmem, if_neg hdefines]

/-- **A constant is self-contained** when it carries the fragments that are found for its definition. The definition is an
operation or a fragment of the index. -/
theorem selfContained_of_closure (h : FragmentIndex.ofDocuments documents external = .ok fragments) {constant : Constant}
    {found : List IndexedFragment} (hd : ∀ fragment, constant.definition = .fragment fragment → fragments.Has fragment)
    (hc : fragments.closure constant.definition.selections = .ok found)
    (hcarried : constant.content.carried = found.map (·.fragment)) : constant.SelfContained fragments := by
  obtain ⟨hnodup, hreached, hindexed⟩ := FragmentIndex.mem_closure_iff h hc
  have hnames : constant.content.carried.map (·.name) = found.map FragmentIndex.nameOf := by
    rw [hcarried, List.map_map]
    rfl
  rw [← hnames] at hnodup hreached
  have hindex : ∀ fragment ∈ constant.content.carried, fragments.Has fragment := by
    intro fragment hf
    rw [hcarried] at hf
    obtain ⟨entry, he, rfl⟩ := List.mem_map.1 hf
    exact ⟨entry, hindexed entry he, rfl⟩
  have honce : ∀ name, constant.definition.defines name = true ∨ fragments.Reaches constant.definition.selections name →
      constant.held.countP (Definition.defines name) = 1 :=
    fun name => countP_held_eq_one hnodup hreached fun name => not_reaches_own h hd
  refine ⟨hnodup, hreached, hindex, fun d hm selection hs name hmention => honce name (Or.inr ?_), ?_⟩
  · rcases List.mem_cons.1 hm with rfl | hm
    · exact .spread hs hmention
    · obtain ⟨fragment, hf, rfl⟩ := List.mem_map.1 hm
      obtain ⟨entry, he, rfl⟩ := hindex fragment hf
      have hreach := (hreached entry.fragment.name).1 (List.mem_map.2 ⟨_, hf, rfl⟩)
      exact .through hreach he hs hmention
  · intro fragment hdef
    refine honce fragment.name (Or.inl ?_)
    rw [hdef]
    exact decide_eq_true rfl

/-- **The tree of a self-contained constant** defines what is spread in it, and nothing twice. -/
theorem closed_held {constant : Constant} (hc : constant.SelfContained fragments) : (documentNode constant.held).Closed := by
  refine ⟨List.nodup_iff_count_le_one.2 fun name => ?_, fun name hname => ?_⟩
  · rw [count_definedFragments]
    by_cases hdefines : constant.definition.defines name = true
    · -- the own definition is the only one of its fragment
      cases hd : constant.definition with
      | operation op => rw [hd] at hdefines; cases hdefines
      | fragment f =>
        rw [hd] at hdefines
        rw [← of_decide_eq_true hdefines, hc.unrepeated f hd]
    · rw [countP_held, if_neg hdefines]
      exact List.nodup_iff_count_le_one.1 hc.nodup name
  · obtain ⟨d, hd, hspread⟩ := mem_spreadNames_documentNode.1 hname
    obtain ⟨selection, hs, hmention⟩ := (Selection.mem_spreadsOf_iff name d.selections).1 hspread
    rw [← List.count_pos_iff, count_definedFragments, hc.defined d hd selection hs name hmention]
    exact Nat.one_pos

/-! ## All constants -/

/-- the definitions that become constants are operations, and fragments of the documents -/
theorem fragment_of_mem_definitions {name : String} {fragment : Fragment}
    (hm : (name, Definition.fragment fragment) ∈ definitions config documents) :
    ∃ source ∈ documents, fragment ∈ source.fragments := by
  rcases List.mem_append.1 hm with hm | hm
  · obtain ⟨other, ho, heq⟩ := List.mem_map.1 hm
    cases heq
    exact List.mem_flatMap.1 ho
  · obtain ⟨op, -, hop⟩ := List.mem_filterMap.1 hm
    obtain ⟨_, -, heq⟩ := Option.map_eq_some_iff.1 hop
    cases heq

theorem constants_eq_ok {made : List Constant} (hc : constants config fragments documents = .ok made) :
    made.map (fun c => (c.name, c.definition)) = definitions config documents ∧
      ∀ c ∈ made, contentOf config.mode fragments c.definition.selections = .ok c.content := by
  have hsteps := mapM_eq_ok_iff.1 hc
  clear hc
  generalize definitions config documents = entries at hsteps
  induction hsteps with
  | nil => simp
  | cons hstep _ ih =>
    obtain ⟨content, hcontent, hc⟩ := bind_eq_ok_iff.1 hstep
    cases hc
    obtain ⟨hmap, hall⟩ := ih
    exact ⟨by rw [List.map_cons, hmap], List.forall_mem_cons.2 ⟨hcontent, hall⟩⟩

/-- **Constants are self-contained.** For documents and fragments from outside whose index was built, whenever documents become
constants in a mode that carries fragments along, there is one for each fragment and named operation, written from the
definitions that it holds: its own, and behind it, once each, the fragments that it reaches. So every spread in a constant has
one definition there, and that of a fragment is not repeated. The node of the document is read back from its text in JSON and says
the same of itself, and the trees and texts of definitions show what they define and spread. -/
theorem selfContained_of_generate {input : PluginView} {config : DocumentConstantsOptions} {ctx after : SharedValues}
    {contribution : Contribution} (h : FragmentIndex.ofDocuments input.documents external = .ok input.fragments)
    (hconfig : readConfig input.config = .ok config) (hm : Carries config.mode)
    (hg : Plugin.documentConstants.generate input ctx = (.ok contribution, after)) :
    ∃ constants : List Constant,
      constants.map (fun c => (c.name, c.definition)) = definitions config input.documents ∧
      contribution.content = String.intercalate "\n\n"
        (constants.map fun c => "export const " ++ c.name ++ " = " ++ writeHeld config.mode c.held) ∧
      ∀ c ∈ constants, c.SelfContained input.fragments ∧ (documentNode c.held).Closed ∧
        Json.ReadsAs (documentNode c.held).compress (documentNode c.held) ∧
        ∀ d ∈ c.held, d.tree.Shows d ∧ d.Printed (Text.trimEnd d.print) := by
  have ho : output input = .ok contribution := congrArg Prod.fst hg
  obtain ⟨read, hread, ho⟩ := bind_eq_ok_iff.1 ho
  cases hconfig.symm.trans hread
  rw [if_neg (by rcases hm with hm | hm <;> rw [hm] <;> nofun)] at ho
  obtain ⟨made, hmade, ho⟩ := bind_eq_ok_iff.1 ho
  cases ho
  obtain ⟨hdefinitions, hcontents⟩ := constants_eq_ok hmade
  have hheld : ∀ c ∈ made, c.SelfContained input.fragments ∧
      c.render config = "export const " ++ c.name ++ " = " ++ writeHeld config.mode c.held := by
    intro c hc
    obtain ⟨found, hfound, hcarried, hcontent⟩ := contentOf_carries hm (hcontents c hc)
    refine ⟨selfContained_of_closure h (fun fragment hdef => ?_) hfound hcarried, render_of_content hcontent⟩
    have hentry : (c.name, c.definition) ∈ definitions config input.documents :=
      hdefinitions ▸ List.mem_map.2 ⟨c, hc, rfl⟩
    rw [hdef] at hentry
    obtain ⟨source, hs, hf⟩ := fragment_of_mem_definitions hentry
    exact has_of_mem_fragments h hs hf
  refine ⟨made, hdefinitions, ?_, fun c hc => ?_⟩
  · exact congrArg (String.intercalate "\n\n") (List.map_congr_left fun c hc => (hheld c hc).2)
  · have hself := (hheld c hc).1
    exact ⟨hself, closed_held hself, readsAs_documentNode c.held, fun d _ => ⟨shows_tree d, printed_print d⟩⟩

/-- a fragment of a document -/
def moreFragment : Fragment :=
  ⟨"More", "User", [], [.spread "Bits" [], .field none "name" [] [] []]⟩

/-- a fragment from outside -/
def bitsFragment : Fragment :=
  ⟨"Bits", "User", [], [.field none "id" [] [] []]⟩

/-- a query that spreads both -/
def meQuery : Operation :=
  ⟨.keyword .query (some "Me") [] [], [.field none "me" [] [] [.spread "More" [], .spread "Bits" []]], ⟨1, 1⟩⟩

/-- the index of a document with the fragment and the query -/
def meIndex : FragmentIndex :=
  ⟨Table.ofList [("More", ⟨moreFragment, "me.graphql", false⟩), ("Bits", ⟨bitsFragment, "<external>", true⟩)]⟩

/-- its constants in a mode -/
def meView (mode : String) : PluginView :=
  ⟨default, [⟨"me.graphql", [.fragment moreFragment, .operation meQuery]⟩], meIndex,
    .obj [("documentMode", .str mode)], "me.ts", []⟩

/-- the text of the fragment from outside -/
def bitsText : String :=
  "fragment Bits on User \x7b\n  id\n\x7d"

/-- the text of the fragment of the document -/
def moreText : String :=
  "fragment More on User \x7b\n  ...Bits\n  name\n\x7d"

/-- the text of the query -/
def meText : String :=
  "query Me \x7b\n  me \x7b\n    ...More\n    ...Bits\n  \x7d\n\x7d"

/-- the module with its constants as texts -/
def meTexts : String :=
  "export const MoreFragmentDoc = `" ++ moreText ++ "\n" ++ bitsText ++ "`;\n\nexport const MeDocument = `" ++ meText ++ "\n"
    ++ moreText ++ "\n" ++ bitsText ++ "`;"

/-- a name in a tree -/
def nameNode (text : String) : Json :=
  .obj [("kind", .str "Name"), ("value", .str text)]

/-- the tree of the fragment from outside -/
def bitsNode : Json :=
  .obj [("kind", .str "FragmentDefinition"), ("name", nameNode "Bits"),
    ("typeCondition", .obj [("kind", .str "NamedType"), ("name", nameNode "User")]), ("directives", .arr []),
    ("selectionSet", .obj [("kind", .str "SelectionSet"), ("selections", .arr [
      .obj [("kind", .str "Field"), ("name", nameNode "id"), ("arguments", .arr []), ("directives", .arr [])]])])]

/-- the tree of the fragment of the document -/
def moreNode : Json :=
  .obj [("kind", .str "FragmentDefinition"), ("name", nameNode "More"),
    ("typeCondition", .obj [("kind", .str "NamedType"), ("name", nameNode "User")]), ("directives", .arr []),
    ("selectionSet", .obj [("kind", .str "SelectionSet"), ("selections", .arr [
      .obj [("kind", .str "FragmentSpread"), ("name", nameNode "Bits"), ("directives", .arr [])],
      .obj [("kind", .str "Field"), ("name", nameNode "name"), ("arguments", .arr []), ("directives", .arr [])]])])]

/-- the tree of the query -/
def meNode : Json :=
  .obj [("kind", .str "OperationDefinition"), ("operation", .str "query"), ("name", nameNode "Me"),
    ("variableDefinitions", .arr []), ("directives", .arr []),
    ("selectionSet", .obj [("kind", .str "SelectionSet"), ("selections", .arr [
      .obj [("kind", .str "Field"), ("name", nameNode "me"), ("arguments", .arr []), ("directives", .arr []),
        ("selectionSet", .obj [("kind", .str "SelectionSet"), ("selections", .arr [
          .obj [("kind", .str "FragmentSpread"), ("name", nameNode "More"), ("directives", .arr [])],
          .obj [("kind", .str "FragmentSpread"), ("name", nameNode "Bits"), ("directives", .arr [])]])])]])])]

/-- the module with its constants as trees -/
def meTrees : String :=
  String.intercalate "\n\n"
    ["export const MoreFragmentDoc = "
        ++ (Json.obj [("kind", .str "Document"), ("definitions", .arr [moreNode, bitsNode])]).compress
        ++ " as unknown as DocumentNode;",
      "export const MeDocument = "
        ++ (Json.obj [("kind", .str "Document"), ("definitions", .arr [meNode, moreNode, bitsNode])]).compress
        ++ " as unknown as DocumentNode;"]

/-- the document of both fragments as it is written -/
def moreTree : String :=
  "\x7b\"kind\":\"Document\",\"definitions\":["
    ++ "\x7b\"kind\":\"FragmentDefinition\",\"name\":\x7b\"kind\":\"Name\",\"value\":\"More\"\x7d,"
    ++ "\"typeCondition\":\x7b\"kind\":\"NamedType\",\"name\":\x7b\"kind\":\"Name\",\"value\":\"User\"\x7d\x7d,\"directives\":[],"
    ++ "\"selectionSet\":\x7b\"kind\":\"SelectionSet\",\"selections\":["
    ++ "\x7b\"kind\":\"FragmentSpread\",\"name\":\x7b\"kind\":\"Name\",\"value\":\"Bits\"\x7d,\"directives\":[]\x7d,"
    ++ "\x7b\"kind\":\"Field\",\"name\":\x7b\"kind\":\"Name\",\"value\":\"name\"\x7d,\"arguments\":[],\"directives\":[]\x7d]\x7d\x7d,"
    ++ "\x7b\"kind\":\"FragmentDefinition\",\"name\":\x7b\"kind\":\"Name\",\"value\":\"Bits\"\x7d,"
    ++ "\"typeCondition\":\x7b\"kind\":\"NamedType\",\"name\":\x7b\"kind\":\"Name\",\"value\":\"User\"\x7d\x7d,\"directives\":[],"
    ++ "\"selectionSet\":\x7b\"kind\":\"SelectionSet\",\"selections\":["
    ++ "\x7b\"kind\":\"Field\",\"name\":\x7b\"kind\":\"Name\",\"value\":\"id\"\x7d,\"arguments\":[],\"directives\":[]\x7d]\x7d\x7d]\x7d"

/-- what the plugin writes with the constants of the document -/
theorem generate_me {mode : String} {config : DocumentConstantsOptions} {made : List Constant}
    (hconfig : readConfig (meView mode).config = .ok config) (hm : Carries config.mode)
    (hmade : constants config meIndex (meView mode).documents = .ok made) :
    Plugin.documentConstants.generate (meView mode) .empty =
      (.ok { prepend := importLines config, content := String.intercalate "\n\n" (made.map (·.render config)) }, .empty) := by
  have houtput : output (meView mode) =
      .ok { prepend := importLines config, content := String.intercalate "\n\n" (made.map (·.render config)) } := by
    refine bind_eq_ok_iff.2 ⟨config, hconfig, ?_⟩
    rw [if_neg (by rcases hm with hm | hm <;> rw [hm] <;> nofun)]
    exact bind_eq_ok_iff.2 ⟨made, hmade, rfl⟩
  exact congrArg (Prod.mk · SharedValues.empty) houtput

theorem generate_meTexts :
    Plugin.documentConstants.generate (meView "string") .empty = (.ok { content := meTexts }, .empty) := by
  have hmade : constants ⟨.text, none, none, "", "Document", "", "FragmentDoc"⟩ meIndex (meView "string").documents =
      .ok [⟨"MoreFragmentDoc", .fragment moreFragment, .text [bitsFragment]⟩,
        ⟨"MeDocument", .operation meQuery, .text [moreFragment, bitsFragment]⟩] := by cbv
  refine (generate_me rfl (Or.inr rfl) hmade).trans ?_
  refine congrArg (fun content => (Except.ok ({ content } : Contribution), SharedValues.empty)) ?_
  cbv

theorem generate_meTrees : Plugin.documentConstants.generate (meView "documentNode") .empty =
    (.ok { prepend := ["import \x7b DocumentNode \x7d from 'graphql';"], content := meTrees }, .empty) := by
  have hmade : constants ⟨.tree, none, none, "", "Document", "", "FragmentDoc"⟩ meIndex (meView "documentNode").documents =
      .ok [⟨"MoreFragmentDoc", .fragment moreFragment, .tree [bitsFragment]⟩,
        ⟨"MeDocument", .operation meQuery, .tree [moreFragment, bitsFragment]⟩] := by cbv
  exact generate_me rfl (Or.inl rfl) hmade

theorem selfContained_of_generate_me :
    (∀ mode, FragmentIndex.ofDocuments (meView mode).documents [bitsFragment] = .ok (meView mode).fragments) ∧
    Plugin.documentConstants.generate (meView "string") .empty = (.ok { content := meTexts }, .empty) ∧
    Plugin.documentConstants.generate (meView "documentNode") .empty =
      (.ok { prepend := ["import \x7b DocumentNode \x7d from 'graphql';"], content := meTrees }, .empty) ∧
    (documentNode [.fragment moreFragment, .fragment bitsFragment]).compress = moreTree ∧
    ∃ texts trees : List Constant,
      texts.map (fun c => (c.name, c.definition)) =
        [("MoreFragmentDoc", .fragment moreFragment), ("MeDocument", .operation meQuery)] ∧
      trees.map (fun c => (c.name, c.definition)) = texts.map (fun c => (c.name, c.definition)) ∧
      ∀ c ∈ texts ++ trees, c.SelfContained meIndex ∧ (documentNode c.held).Closed := by
  have hindex (mode : String) :
      FragmentIndex.ofDocuments (meView mode).documents [bitsFragment] = .ok (meView mode).fragments := rfl
  have hstring : readConfig (meView "string").config = .ok ⟨.text, none, none, "", "Document", "", "FragmentDoc"⟩ := rfl
  have hnode : readConfig (meView "documentNode").config = .ok ⟨.tree, none, none, "", "Document", "", "FragmentDoc"⟩ := rfl
  obtain ⟨texts, hnames, -, hall⟩ := selfContained_of_generate (hindex "string") hstring (Or.inr rfl) generate_meTexts
  obtain ⟨trees, hnames', -, hall'⟩ := selfContained_of_generate (hindex "documentNode") hnode (Or.inl rfl) generate_meTrees
  have htext : (documentNode [.fragment moreFragment, .fragment bitsFragment]).compress = moreTree := by decide +kernel
  refine ⟨hindex, generate_meTexts, generate_meTrees, htext, texts, trees, hnames, hnames'.trans hnames.symm, fun c hc => ?_⟩
  rcases List.mem_append.1 hc with hc | hc
  · exact ⟨(hall c hc).1, (hall c hc).2.1⟩
  · exact ⟨(hall' c hc).1, (hall' c hc).2.1⟩

end DocumentConstants

end GraphGen
