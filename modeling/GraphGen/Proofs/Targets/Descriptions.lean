/-
Descriptions stay in comments.

A schema without descriptions is written as the same rows without the comments, by each plugin that writes a schema as types or
classes. What stands in the comments is not code, as long as no description has the end of a comment: a description is written
as it is, so that an end of a comment in it ends its own comment, and what follows it is code.

- `SameOutput`: what a plugin writes of a target, with and without descriptions.

Main results:
- `descriptions_stay_in_comments`: the ends of a comment, and what the plugins write when no description has one.
- `description_ends_comment`: a description that becomes code.
-/
import GraphGen.Proofs.Targets.DescribedClasses
import GraphGen.Proofs.Targets.DescribedDeclarations
import GraphGen.Schema.Build

namespace GraphGen

/-- a target whose schema has no descriptions -/
def PluginView.undescribed (input : PluginView) : PluginView :=
  { input with schema := input.schema.undescribed }

/-- both fail alike, or the second writes what the first one writes, with comments put between its rows -/
inductive SameOutput (Comment : List String → Prop) :
    Except Error Contribution × SharedValues → Except Error Contribution × SharedValues → Prop where
  | error (error : Error) (after : SharedValues) : SameOutput Comment (.error error, after) (.error error, after)
  | ok {plain content : String} (prepend append : List String) (after : SharedValues)
    (h : AddsComments Comment plain content) :
    SameOutput Comment (.ok ⟨prepend, plain, append⟩, after) (.ok ⟨prepend, content, append⟩, after)

theorem SameOutput.mono {Comment Other : List String → Prop} {plain written : Except Error Contribution × SharedValues}
    (h : SameOutput Comment plain written) (himp : ∀ rows, Comment rows → Other rows) : SameOutput Other plain written := by
  cases h with
  | error error after => exact .error error after
  | ok prepend append after h => exact .ok prepend append after (h.mono himp)

theorem listOwnTypes_undescribed (ctx : SharedValues) (schema : Schema) :
    ctx.listOwnTypes schema.undescribed = ctx.listOwnTypes schema := by
  rw [SharedValues.listOwnTypes, Schema.ownTypes_undescribed, List.map_map]
  rfl

section Plugins

variable {input : PluginView} (h : Contained input.schema.notes) (ctx : SharedValues)

include h

theorem TypeScriptTypes.sameOutput :
    SameOutput (NoteRows { }) (Plugin.typeScriptTypes.generate input.undescribed ctx)
      (Plugin.typeScriptTypes.generate input ctx) := by
  dsimp only [Plugin.typeScriptTypes, TypeScriptTypes.output, PluginView.undescribed]
  rw [listOwnTypes_undescribed]
  cases Config.read pluginName TypeScriptOptions.decode input.config with
  | error error => exact .error error ctx
  | ok config => exact .ok [] [] _ (addsComments_writeAll config h)

theorem FlowTypes.sameOutput :
    SameOutput (NoteRows { }) (Plugin.flowTypes.generate input.undescribed ctx) (Plugin.flowTypes.generate input ctx) := by
  dsimp only [Plugin.flowTypes, FlowTypes.output, PluginView.undescribed]
  rw [listOwnTypes_undescribed]
  cases Config.read pluginName FlowOptions.decode input.config with
  | error error => exact .error error ctx
  | ok config => exact .ok _ [] _ (addsComments_declarations config h)

theorem JavaClasses.sameOutput :
    SameOutput (NoteRows { }) (Plugin.javaClasses.generate input.undescribed ctx)
      (Plugin.javaClasses.generate input ctx) := by
  dsimp only [Plugin.javaClasses, pureHook, JavaClasses.output, PluginView.undescribed]
  cases Config.read pluginName JavaOptions.decode input.config with
  | error error => exact .error error ctx
  | ok config =>
    let setting : Setting := ⟨input.schema, ScalarTargets.java.overriddenBy config.scalars⟩
    have himports : imports ⟨input.schema.undescribed, ScalarTargets.java.overriddenBy config.scalars⟩
        (classItems false input.schema.undescribed) = imports setting (classItems false input.schema) := by
      rw [classItems_undescribed]
      exact imports_undescribed setting _
    dsimp only [bind, Except.bind]
    rw [himports, classItems_undescribed]
    exact .ok _ [] ctx (addsComments_holder setting config.className (contained_of_mem_classItems h))

theorem KotlinClasses.sameOutput :
    SameOutput (NoteRows { }) (Plugin.kotlinClasses.generate input.undescribed ctx)
      (Plugin.kotlinClasses.generate input ctx) := by
  dsimp only [Plugin.kotlinClasses, pureHook, KotlinClasses.output, PluginView.undescribed]
  cases Config.read pluginName KotlinOptions.decode input.config with
  | error error => exact .error error ctx
  | ok config =>
    let setting : Setting := ⟨input.schema, ScalarTargets.kotlin.overriddenBy config.scalars⟩
    dsimp only [bind, Except.bind]
    rw [classItems_undescribed]
    exact .ok _ [] ctx (addsComments_write setting (contained_of_mem_classItems h))

end Plugins

/-- **Descriptions stay in comments, unless they end them.** A comment has one end, behind all else, and those that its
description has. So, when no description of a schema and no reason of a deprecation has the end of a comment, each plugin that
writes a schema as types or classes writes what it writes of the schema without descriptions, and between the rows of that only
comments, from which a reader takes no code. -/
theorem descriptions_stay_in_comments (description : String) (input : PluginView) (ctx : SharedValues) (nests : Bool)
    (plugin : Plugin) (hplugin : plugin ∈ [Plugin.typeScriptTypes, .flowTypes, .javaClasses, .kotlinClasses]) :
    ((∃ c ∈ description.toList, Text.isBlank c = false) →
      (∃ inner, docComment description = "/**" ++ inner ++ " */") ∧
        terminators (docComment description) = terminators description + 1) ∧
    (Contained input.schema.notes →
      SameOutput (Silent nests) (plugin.generate input.undescribed ctx) (plugin.generate input ctx)) := by
  refine ⟨fun hvisible => terminators_docComment (descriptionLines_ne_nil hvisible), fun h => ?_⟩
  have hsilent : ∀ rows, NoteRows { } rows → Silent nests rows := by
    intro rows hrows
    obtain ⟨text, level, hnone, heq⟩ := hrows
    rw [heq]
    exact silent_comment nests { } level hnone
  rw [List.mem_cons, List.mem_cons, List.mem_cons, List.mem_singleton] at hplugin
  rcases hplugin with rfl | rfl | rfl | rfl
  · exact (TypeScriptTypes.sameOutput h ctx).mono hsilent
  · exact (FlowTypes.sameOutput h ctx).mono hsilent
  · exact (JavaClasses.sameOutput h ctx).mono hsilent
  · exact (KotlinClasses.sameOutput h ctx).mono hsilent

/-- a described user whose name is deprecated, and how users are sorted -/
def describedTypes : SchemaDocument :=
  [.type ⟨some "A user\n\nof the service", "User", [], .object []
      [⟨some "Unique", "id", [], .named "ID", []⟩,
        ⟨none, "name", [], .named "String", [⟨"deprecated", [("reason", .string "Not /* unique")]⟩]⟩]⟩,
    .type ⟨some "How /* users are sorted", "Order", [], .enum [⟨some "The first one first", "UP", []⟩]⟩]

/-- a target with their types -/
def describedView : PluginView where
  schema := (Schema.ofDocument describedTypes).toOption.getD default
  documents := []
  fragments := .empty
  config := .obj []
  filePath := "user.ts"
  pluginNames := ["typescript"]

theorem notes_describedView : describedView.schema.notes =
    ["A user\n\nof the service", "Unique", "Not /* unique", "How /* users are sorted", "The first one first"] :=
  rfl

theorem contained_describedView : Contained describedView.schema.notes := by
  rw [notes_describedView]
  unfold Contained
  decide +kernel

/-- they are written in TypeScript with comments, one of them of several rows -/
theorem descriptions_stay_in_comments_user :
    Schema.ofDocument describedTypes = .ok describedView.schema ∧ Contained describedView.schema.notes ∧
      "A user\n\nof the service" ∈ describedView.schema.notes ∧
      (∃ inner, docComment "A user\n\nof the service" = "/**" ++ inner ++ " */") ∧
      terminators (docComment "A user\n\nof the service") = 1 ∧
      ∃ plain types after, Plugin.typeScriptTypes.generate describedView.undescribed .empty = (.ok plain, after) ∧
        Plugin.typeScriptTypes.generate describedView .empty = (.ok types, after) ∧
        AddsComments (Silent false) plain.content types.content := by
  obtain ⟨hcomment, houtput⟩ := descriptions_stay_in_comments "A user\n\nof the service" describedView .empty false
    .typeScriptTypes List.mem_cons_self
  obtain ⟨hinner, hend⟩ := hcomment ⟨'A', by decide, by decide⟩
  replace houtput := houtput contained_describedView
  obtain ⟨types, after, htypes⟩ : ∃ types after, Plugin.typeScriptTypes.generate describedView .empty = (.ok types, after) :=
    ⟨_, _, rfl⟩
  refine ⟨rfl, contained_describedView, List.mem_cons_self, hinner, hend.trans (by decide +kernel), ?_⟩
  rw [htypes] at houtput ⊢
  generalize Plugin.typeScriptTypes.generate describedView.undescribed .empty = plain at houtput ⊢
  cases houtput with
  | ok _ _ _ h => exact ⟨_, _, _, rfl, rfl, h⟩

/-- **A description ends its comment.** -/
theorem description_ends_comment :
    docComment "a */ b" = "/** a */ b */" ∧ terminators (docComment "a */ b") = 2 ∧
      codeFrom false 0 (docComment "a */ b").toList = ['b', '*', '/'] := by
  decide +kernel

end GraphGen
