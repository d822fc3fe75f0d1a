/-
The steps of the plugins come back to their level.

Blocks keep the level only where the steps inside them do, and a block may fail otherwise. The plugins that write types and classes
write blocks in blocks, the classes of Kotlin go deeper and back without a block, and those of Java and C# put finished texts into
other steps. All of these steps are put together in ways that come back to the level that they begin at (`Whole`), whatever is
declared, so that what is written is always what a whole run has written.

- `Whole`: the ways that steps are put together.
- `Whole.levels?_eq`: such steps come back to their height, by induction on these ways.
- `whole_declarationSteps`, `whole_itemSteps`, `whole_typeSteps`: the steps of each plugin.
- `Pieces`: the pieces that each plugin writes.

Main result:
- `content_of_whole_steps`: what a plugin writes are the texts of its pieces; each is that of a whole run, which comes back to the
  margin.
-/
import GraphGen.Proofs.Output.Levels
import GraphGen.Proofs.Targets.DeclaredNames
import GraphGen.Targets.CSharpClasses

namespace GraphGen

/-- the ways that steps are put together which come back to their level; a finished text among them is a comment, or that of such
steps -/
inductive Whole : List Step → Prop where
  | nil : Whole []
  | line (text : String) {more : List Step} (h : Whole more) : Whole (.line text :: more)
  | blank {more : List Step} (h : Whole more) : Whole (.blank :: more)
  | comment (description : String) {more : List Step} (h : Whole more) : Whole (.lines (docComment description) :: more)
  | finished {inner more : List Step} (hinner : Whole inner) (h : Whole more) : Whole (.lines (Step.text inner) :: more)
  | block (opening closing : String) {body more : List Step} (hbody : Whole body) (h : Whole more) :
    Whole (.block opening closing body :: more)
  | deeper {body more : List Step} (hbody : Whole body) (h : Whole more) : Whole (.indent :: (body ++ .dedent :: more))

theorem levels?_append (margin : Bool → Option Nat) (inside : Bool) (steps more : List Step) (n : Nat) :
    Step.levels? margin inside (steps ++ more) n =
      (Step.levels? margin inside steps n).bind fun m => Step.levels? margin inside more m := by
  induction steps generalizing n with
  | nil => rfl
  | cons step rest ih =>
    rw [List.cons_append, Step.levels?, Step.levels?, Option.bind_assoc]
    exact Option.bind_congr fun m _ => ih m

namespace Whole

variable {steps more : List Step}

theorem append (h : Whole steps) (hmore : Whole more) : Whole (steps ++ more) := by
  induction h with
  | nil => exact hmore
  | line text _ ih => exact .line text ih
  | blank _ ih => exact .blank ih
  | comment description _ ih => exact .comment description ih
  | finished hinner _ _ ih => exact .finished hinner ih
  | block opening closing hbody _ _ ih => exact .block opening closing hbody ih
  | deeper hbody _ _ ih =>
    rw [List.cons_append, List.append_assoc, List.cons_append]
    exact .deeper hbody ih

theorem flatMap {α : Type} {l : List α} {f : α → List Step} (h : ∀ a ∈ l, Whole (f a)) : Whole (l.flatMap f) := by
  induction l with
  | nil => exact nil
  | cons a l ih =>
    obtain ⟨hfirst, hrest⟩ := List.forall_mem_cons.1 h
    exact hfirst.append (ih hrest)

theorem map_line {α : Type} (l : List α) (f : α → String) : Whole (l.map fun a => .line (f a)) := by
  rw [List.map_eq_flatMap]
  exact flatMap fun a _ => line (f a) nil

/-- **Whole steps come back to the height that they begin at,** whatever it is, inside a block and outside of all. -/
theorem levels?_eq (h : Whole steps) (inside : Bool) (height : Nat) :
    Step.levels? guarded inside steps height = some height := by
  induction h generalizing inside height with
  | nil => rfl
  | line _ _ ih | blank _ ih | comment _ _ ih | finished _ _ _ ih => exact ih inside height
  | block opening closing _ _ ihbody ih =>
    rw [Step.levels?, level?_block_iff.2 ⟨ihbody true (height + 1), rfl⟩, Option.bind_some, ih]
  | deeper _ _ ihbody ih =>
    rw [Step.levels?, Step.level?, Option.bind_some, levels?_append, ihbody, Option.bind_some, Step.levels?, Step.level?,
      Option.bind_some, ih]

/-- **A run of such steps does not fail and comes back to its level,** from every writer. -/
theorem run (h : Whole steps) (w : Writer) : ∃ last, Step.runAll? steps w = some last ∧ last.level = w.level := by
  obtain ⟨bottom, hheld, hbottom⟩ := levels?_of_heights steps w.level (h.levels?_eq true 0)
  rw [hbottom rfl] at hheld
  exact ((landsAt_iff true steps w w.level).2 hheld).runs

/-- **Their text is that of a whole run,** which comes back to the margin. -/
theorem text (h : Whole steps) :
    ∃ last, Step.runAll? steps (.start { }) = some last ∧ Step.text steps = last.text ∧ last.level = 0 := by
  obtain ⟨last, hrun, hlevel⟩ := h.run (.start { })
  exact ⟨last, hrun, by rw [Step.text, Writer.run, hrun, Option.getD_some], hlevel⟩

/-- steps behind a comment -/
theorem commented (comment : Option String) (h : Whole steps) : Whole (commentSteps comment ++ steps) := by
  cases comment with
  | none => exact h
  | some description => exact .comment description h

theorem commaLines (closing : String) : (texts : List String) → Whole (commaLines closing texts)
  | [] => nil
  | [_] => line _ nil
  | _ :: next :: rest => line _ (commaLines closing (next :: rest))

end Whole

/-! ## Declared types -/

theorem TypeScriptTypes.whole_declarationSteps (config : TypeScriptOptions) (d : Declaration) :
    Whole (declarationSteps config d) := by
  refine .commented d.comment ?_
  cases d.body with
  | abbreviation type => exact .line _ .nil
  | object bases properties =>
    exact .block _ _ (.flatMap fun property _ => .commented property.comment (.line _ .nil)) .nil
  | enumeration members =>
    exact .block _ _ (.flatMap fun member _ => .commented member.comment (.line _ .nil)) .nil

theorem FlowTypes.whole_declarationSteps (config : FlowOptions) (d : Declaration) :
    Whole (declarationSteps config d) := by
  refine .commented d.comment ?_
  cases d.body with
  | abbreviation type => exact .line _ .nil
  | object bases properties =>
    exact .block _ _ (.flatMap fun property _ => .commented property.comment (.line _ .nil)) .nil
  | enumeration members => exact .block _ _ (.flatMap fun _ _ => .line _ .nil) (.blank (.line _ .nil))

/-! ## Classes -/

/-- the classes of Java write blocks in blocks -/
theorem JavaClasses.whole_itemSteps (setting : Setting) (item : ClassItem) : Whole (itemSteps setting item) := by
  cases item with
  | enumeration description name values =>
    refine .commented description (.block _ _ ((Whole.commaLines _ _).append ?_) .nil)
    refine .blank (.line _ (.blank (.block _ _ (.line _ .nil) (.blank (.line _ (.blank ?_))))))
    exact .block _ _ (.block _ _ (.line _ .nil) .nil) (.blank (.block _ _ (.line _ .nil) .nil))
  | input decl =>
    have hconstructor : ∀ opening block : String, ∀ assignments, Whole assignments →
        Whole [.blank, .line "@SuppressWarnings(\"unchecked\")", .block opening "\x7d" [.block block "\x7d" assignments]] :=
      fun _ _ _ h => .blank (.line _ (.block _ _ (.block _ _ h .nil) .nil))
    refine .commented decl.description (.block _ _ (.append (.append ?_ ?_) ?_) .nil)
    · exact .flatMap fun field _ => .commented field.description (.line _ .nil)
    · exact hconstructor _ _ _ (.map_line _ _)
    · exact .flatMap fun field _ => .blank (.line _ (.line _ .nil))
  | object description name fields => exact .nil

/-- the texts of items with a blank line between them, inside the class that holds them all -/
theorem JavaClasses.whole_texts (setting : Setting) (items : List ClassItem) :
    Whole ((items.map fun item => Step.lines (Step.text (itemSteps setting item))).intersperse .blank) := by
  induction items with
  | nil => exact .nil
  | cons item rest ih =>
    cases rest with
    | nil => exact .finished (whole_itemSteps setting item) .nil
    | cons next rest => exact .finished (whole_itemSteps setting item) (.blank ih)

/-- the classes of Kotlin go deeper and back by themselves -/
theorem KotlinClasses.whole_itemSteps (setting : Setting) (item : ClassItem) : Whole (itemSteps setting item) := by
  have hhead : ∀ (description : Option String) (name : String) (parameters : List String),
      Whole (headSteps description name parameters) := by
    intro description name parameters
    unfold headSteps
    rw [List.append_assoc, List.append_assoc]
    exact .commented description (.line _ ((Whole.commaLines "" parameters).deeper .nil))
  cases item with
  | enumeration description name values =>
    refine .commented description (.block _ _ ((Whole.commaLines _ _).append ?_) .nil)
    exact .blank (.block _ _ (.line _ (.line _ .nil)) .nil)
  | input decl =>
    refine (hhead _ _ _).append (.block _ _ ?_ .nil)
    exact .line _ (.line _ ((Whole.commaLines "" _).deeper (.line _ .nil)))
  | object description name fields => exact (hhead _ _ _).append (.line _ .nil)

namespace CSharpClasses

theorem whole_summarySteps (description : Option String) : Whole (summarySteps description) := by
  cases description with
  | none => exact .nil
  | some description => exact ((Whole.line _ .nil).append (.map_line _ _)).append (.line _ .nil)

theorem whole_valueSteps : (values : List EnumValue) → Whole (valueSteps values)
  | [] => .nil
  | [value] => (whole_summarySteps value.description).append (.line _ .nil)
  | value :: next :: rest =>
    ((whole_summarySteps value.description).append (.line _ .nil)).append (whole_valueSteps (next :: rest))

theorem whole_region (name : String) {steps : List Step} (h : Whole steps) : Whole (region name steps) :=
  .line _ (h.append (.line _ .nil))

theorem whole_classMemberSteps (setting : Setting) (member : Member) : Whole (classMemberSteps setting member) := by
  have hobsolete : Whole (obsoleteSteps member.deprecation) := by
    cases member.deprecation with
    | none => exact .nil
    | some deprecation => exact .line _ .nil
  have hrequired : Whole (if member.type.isNullable then [] else [.line "[Required]", .line "[JsonRequired]"]) := by
    split
    · exact .nil
    · exact .line _ (.line _ .nil)
  exact ((((whole_summarySteps member.description).append hobsolete).append (.line _ .nil)).append hrequired).append
    (.line _ .nil)

theorem whole_typeSteps {setting : Setting} {type : NamedType} {steps : List Step}
    (h : typeSteps? setting type = some steps) : Whole steps := by
  have hdeclared : ∀ opening : String, ∀ body, Whole body →
      Whole (summarySteps type.description ++ [.block opening "\x7d" body]) :=
    fun opening body hbody => (whole_summarySteps type.description).append (.block opening _ hbody .nil)
  unfold typeSteps? at h
  split at h
  · cases h
  · cases h
    exact hdeclared _ _ (whole_valueSteps type.enumValues)
  · cases h
    exact hdeclared _ _ (whole_region _ (.map_line _ _))
  · cases h
    exact hdeclared _ _ (.flatMap fun member _ => (whole_summarySteps member.description).append (.line _ (.line _ .nil)))
  all_goals
    cases h
    exact hdeclared _ _ (whole_region _ (.flatMap fun member _ => whole_classMemberSteps setting member))

/-- the regions of types stand inside two blocks -/
theorem whole_typeRegion (setting : Setting) (type : NamedType) : Whole (typeRegion setting type) := by
  unfold typeRegion
  split
  · rename_i steps hsteps
    exact .blank (whole_region _ (.finished (whole_typeSteps hsteps) .nil))
  · exact .nil

end CSharpClasses

/-! ## Plugins -/

/-- the steps of the pieces that a plugin writes for a schema, with the configuration that it reads -/
inductive Pieces (view : PluginView) : Plugin → List (List Step) → Prop where
  | typeScriptTypes {config : TypeScriptOptions} (h : TypeScriptOptions.decode view.config = .ok config) :
    Pieces view .typeScriptTypes
      ((TypeScriptTypes.declarations view.schema config).map (TypeScriptTypes.declarationSteps config))
  | flowTypes {config : FlowOptions} (h : FlowOptions.decode view.config = .ok config) :
    Pieces view .flowTypes ((FlowTypes.declarations view.schema config).map (FlowTypes.declarationSteps config))
  | javaClasses {config : JavaOptions} (h : JavaOptions.decode view.config = .ok config) :
    Pieces view .javaClasses
      [[.block ("public class " ++ config.className ++ " \x7b") "\x7d"
        (((classItems false view.schema).map fun item => Step.lines (Step.text
          (JavaClasses.itemSteps ⟨view.schema, ScalarTargets.java.overriddenBy config.scalars⟩ item))).intersperse .blank)]]
  | kotlinClasses {config : KotlinOptions} (h : KotlinOptions.decode view.config = .ok config) :
    Pieces view .kotlinClasses ((classItems config.withTypes view.schema).map
      (KotlinClasses.itemSteps ⟨view.schema, ScalarTargets.kotlin.overriddenBy config.scalars⟩))
  | cSharpClasses {config : CSharpOptions} (h : CSharpOptions.decode view.config = .ok config) :
    Pieces view .cSharpClasses
      [[.block ("namespace " ++ config.namespaceName ++ " \x7b") "\x7d"
        [.block ("public class " ++ config.className ++ " \x7b") "\x7d" (view.schema.ownTypes.flatMap
          (CSharpClasses.typeRegion ⟨view.schema, ScalarTargets.cSharp.overriddenBy config.scalars⟩))]]]

/-- **The steps of every plugin** come back to their level. -/
theorem Pieces.whole {view : PluginView} {plugin : Plugin} {pieces : List (List Step)} (h : Pieces view plugin pieces) :
    ∀ steps ∈ pieces, Whole steps := by
  cases h with
  | typeScriptTypes _ => exact List.forall_mem_map.2 fun d _ => TypeScriptTypes.whole_declarationSteps _ d
  | flowTypes _ => exact List.forall_mem_map.2 fun d _ => FlowTypes.whole_declarationSteps _ d
  | javaClasses _ => exact List.forall_mem_singleton.2 (.block _ _ (JavaClasses.whole_texts _ _) .nil)
  | kotlinClasses _ => exact List.forall_mem_map.2 fun item _ => KotlinClasses.whole_itemSteps _ item
  | cSharpClasses _ =>
    refine List.forall_mem_singleton.2 (.block _ _ (.block _ _ ?_ .nil) .nil)
    exact .flatMap fun type _ => CSharpClasses.whole_typeRegion _ type

/-- what a plugin writes are the texts of its pieces, with blank lines between them -/
theorem exists_pieces {plugin : Plugin} {view : PluginView} {ctx after : SharedValues} {contribution : Contribution}
    (hplugin : plugin ∈ [Plugin.typeScriptTypes, .flowTypes, .javaClasses, .kotlinClasses, .cSharpClasses])
    (hg : plugin.generate view ctx = (.ok contribution, after)) :
    ∃ pieces, Pieces view plugin pieces ∧ contribution.content = String.intercalate "\n\n" (pieces.map Step.text) := by
  simp only [List.mem_cons, List.not_mem_nil, or_false] at hplugin
  rcases hplugin with rfl | rfl | rfl | rfl | rfl
  · obtain ⟨config, hread, hcontent⟩ := types_of_generate hg
    refine ⟨_, .typeScriptTypes hread, ?_⟩
    rw [hcontent, List.map_map]
    rfl
  · obtain ⟨config, hread, hcontent⟩ := FlowTypes.types_of_generate hg
    refine ⟨_, .flowTypes hread, ?_⟩
    rw [hcontent, List.map_map]
    rfl
  · obtain ⟨config, hread, hcontent⟩ := JavaClasses.classes_of_generate hg
    exact ⟨_, .javaClasses hread, hcontent⟩
  · obtain ⟨config, hread, hcontent⟩ := KotlinClasses.classes_of_generate hg
    refine ⟨_, .kotlinClasses hread, ?_⟩
    rw [hcontent, List.map_map]
    rfl
  · obtain ⟨config, hread, ho⟩ := bind_eq_ok_iff.1 (congrArg Prod.fst hg)
    cases ho
    exact ⟨_, .cSharpClasses (Config.read_eq_ok_iff.1 hread), rfl⟩

/-- **What the plugins write is what whole runs have written.** When a plugin that writes a schema as types or classes succeeds, its
content are the texts of its pieces with blank lines between them. A run of the steps of a piece does not fail, and comes back to
the margin; so does a run of the steps whose text is put into others. -/
theorem content_of_whole_steps {plugin : Plugin} {view : PluginView} {ctx after : SharedValues} {contribution : Contribution}
    (hplugin : plugin ∈ [Plugin.typeScriptTypes, .flowTypes, .javaClasses, .kotlinClasses, .cSharpClasses])
    (hg : plugin.generate view ctx = (.ok contribution, after)) :
    ∃ pieces, Pieces view plugin pieces ∧ contribution.content = String.intercalate "\n\n" (pieces.map Step.text) ∧
      ∀ steps ∈ pieces, Whole steps ∧
        ∃ last, Step.runAll? steps (.start { }) = some last ∧ Step.text steps = last.text ∧ last.level = 0 := by
  obtain ⟨pieces, hpieces, hcontent⟩ := exists_pieces hplugin hg
  exact ⟨pieces, hpieces, hcontent, fun steps hsteps => ⟨hpieces.whole steps hsteps, (hpieces.whole steps hsteps).text⟩⟩

end GraphGen
