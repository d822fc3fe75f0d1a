/-
What generating needs beyond the check.

A check looks at the name of the file and at the configuration. After it, most plugins cannot fail (`needs_nothing`). The
plugins for the types of documents also need shapes and the types of variables, the one for constants needs the fragments that
are spread, and the one for the time a format that can be written. Of all this only the shapes of operations are looked at when
a project is checked; the rest is `PluginView.Ready`.

Main result:
- `standard_needs`: once the operations have shapes, generating succeeds exactly when the view is ready for the plugin.
-/
import GraphGen.Plugin.Standard
import GraphGen.Proofs.Targets.Documents

namespace GraphGen

/-! ## Needs -/

/-- the documents of the view spread their own fragments only -/
def PluginView.SelfContained (view : PluginView) : Prop :=
  FragmentIndex.ofDocuments view.documents [] = .ok view.fragments

/-- once the check accepted a view, generating succeeds exactly when the view has what is needed -/
def Plugin.Needs (plugin : Plugin) (need : PluginView → Prop) : Prop :=
  ∀ view ctx, view.SelfContained → plugin.check view = .ok () → (Succeeds (plugin.generate view ctx).1 ↔ need view)

/-- a check that reads the configuration last shows that it can be read -/
theorem succeeds_of_check {α : Type} {ending : Except Error Unit} {read : Except Error α}
    (h : (do ending; let _ ← read) = Except.ok ()) : Succeeds read := by
  obtain ⟨_, -, h⟩ := bind_eq_ok_iff.1 h
  obtain ⟨config, hc, -⟩ := bind_eq_ok_iff.1 h
  exact ⟨config, hc⟩

/-- a plugin that writes something for every configuration that its check accepts -/
theorem needs_of_read {α : Type} {plugin : Plugin} (read : PluginView → Except Error α)
    (hcheck : ∀ view, plugin.check view = .ok () → Succeeds (read view))
    (hwrite : ∀ view ctx config, read view = .ok config → Succeeds (plugin.generate view ctx).1) :
    plugin.Needs fun _ => True := by
  intro view ctx _ h
  obtain ⟨config, hc⟩ := hcheck view h
  exact iff_of_true (hwrite view ctx config hc) trivial

/-- the plugins that look at no document and tell no time -/
def undemandingPlugins : List Plugin :=
  [.typeScriptTypes, .flowTypes, .insertion, .javaClasses, .cSharpClasses, .kotlinClasses, .introspection, .schemaText,
    .possibleTypes]

/-- **Most plugins cannot fail** once their check accepted the target. -/
theorem needs_nothing {plugin : Plugin} (h : plugin ∈ undemandingPlugins) : plugin.Needs fun _ => True := by
  simp only [undemandingPlugins, List.mem_cons, List.not_mem_nil, or_false] at h
  rcases h with rfl | rfl | rfl | rfl | rfl | rfl | rfl | rfl | rfl
  · refine needs_of_read _ (fun _ h => succeeds_of_check h) fun view ctx config h => ?_
    show Succeeds (TypeScriptTypes.output view ctx).1
    unfold TypeScriptTypes.output
    rw [h]
    exact ⟨_, rfl⟩
  · refine needs_of_read _ (fun _ h => succeeds_of_check h) fun view ctx config h => ?_
    show Succeeds (FlowTypes.output view ctx).1
    unfold FlowTypes.output
    rw [h]
    exact ⟨_, rfl⟩
  · refine needs_of_read _ (fun _ h => @succeeds_of_check _ (pure ()) _ h) fun _ _ config h => ?_
    exact ⟨_, bind_eq_ok_iff.2 ⟨config, h, rfl⟩⟩
  all_goals
    refine needs_of_read _ (fun _ h => succeeds_of_check h) fun _ _ config h => ?_
    exact ⟨_, bind_eq_ok_iff.2 ⟨config, h, rfl⟩⟩

/-! ## Documents -/

open OperationTypes in
/-- a plugin that reads its configuration and renders the types of documents with it -/
theorem needs_of_render {α : Type} {plugin : Plugin} (read : PluginView → Except Error α) (dialect : α → Dialect)
    (common : α → SharedOptions) (options : α → OperationOptions) (contribute : String → Contribution)
    (hcheck : ∀ view, plugin.check view = .ok () → Succeeds (read view))
    (hgenerate : ∀ view ctx, (plugin.generate view ctx).1 = do
      let config ← read view
      pure (contribute (← render (setting view (dialect config) (common config) (options config)) view.documents))) :
    plugin.Needs fun view => ∀ source ∈ view.documents, Typed view.schema view.fragments source := by
  intro view ctx _ h
  obtain ⟨config, hc⟩ := hcheck view h
  rw [hgenerate, hc]
  exact (succeeds_bind_pure_iff fun _ => succeeds_ok _).trans (succeeds_render_iff _ view.documents)

/-- the plugins that write types of documents -/
theorem operations_needs {plugin : Plugin} (h : plugin = .typeScriptOperations ∨ plugin = .flowOperations) :
    plugin.Needs fun view => ∀ source ∈ view.documents, Typed view.schema view.fragments source := by
  rcases h with rfl | rfl
  · exact needs_of_render
      (fun view => Config.read TypeScriptOperations.pluginName TypeScriptOperationsOptions.decode view.config)
      (fun config => .typeScript config.nullMark config.common.immutableTypes) (·.common) (·.options)
      (fun content => { content }) (fun _ h => succeeds_of_check h) fun _ _ => rfl
  · exact needs_of_render (fun view => Config.read FlowOperations.pluginName FlowOperationsOptions.decode view.config)
      (·.flow.dialect) (·.flow.common) (·.options) (fun content => { prepend := [FlowTypes.header], content })
      (fun _ h => succeeds_of_check h) fun _ _ => rfl

open DocumentConstants in
theorem documentConstants_needs : Plugin.documentConstants.Needs fun view =>
    ∀ config, readConfig view.config = .ok config → config.mode ≠ .external →
      ∀ source ∈ view.documents, SpreadsKnown view.fragments source := by
  intro view ctx hself h
  obtain ⟨config, hc⟩ := succeeds_of_check h
  show Succeeds (DocumentConstants.output view) ↔ _
  unfold DocumentConstants.output
  rw [hc]
  show Succeeds (if config.mode = .external then _ else _) ↔ _
  by_cases hmode : config.mode = .external
  · rw [if_pos hmode]
    refine iff_of_true ⟨_, rfl⟩ fun other ho hne => ?_
    rw [hc] at ho
    cases ho
    exact absurd hmode hne
  · rw [if_neg hmode]
    refine (succeeds_bind_pure_iff fun _ => ⟨_, rfl⟩).trans ((succeeds_constants_iff config hself).trans ?_)
    exact ⟨fun hs _ _ _ => hs, fun hs => hs config hc hmode⟩

/-! ## The time -/

theorem succeeds_read_iff {α : Type} {plugin : String} {decode : Config.Decode α} {config : Json} :
    Succeeds (Config.read plugin decode config) ↔ Succeeds (decode config) :=
  exists_congr fun _ => Config.read_eq_ok_iff

open Stamp in
theorem stamp_needs (now : Instant) : (Plugin.stamp now).Needs fun view =>
    ∀ config format, Config.read pluginName StampOptions.decodeFormat view.config = .ok (config, format) →
      format.all TimeFormat.isWritable = true := by
  intro view ctx _ h
  have hdecode := succeeds_map_iff.1 (succeeds_read_iff.1 (@succeeds_of_check _ (pure ()) _ h))
  obtain ⟨⟨config, format⟩, hc⟩ : Succeeds (Config.read pluginName StampOptions.decodeFormat view.config) :=
    succeeds_read_iff.2 hdecode
  show Succeeds (Stamp.output now view) ↔ _
  unfold Stamp.output
  rw [succeeds_bind_iff]
  by_cases hwritable : format.all TimeFormat.isWritable = true
  · have hrender := show format.render? now = some _ from if_pos hwritable
    refine iff_of_true ⟨(config, format), hc, ?_⟩ fun _ other ho => ?_
    · dsimp only
      rw [hrender]
      exact succeeds_ok _
    · rw [hc] at ho
      cases ho
      exact hwritable
  · have hrender : format.render? now = none := if_neg hwritable
    refine iff_of_false ?_ fun hall => hwritable (hall config format hc)
    rintro ⟨_, hread, h⟩
    rw [hc] at hread
    cases hread
    dsimp only at h
    rw [hrender] at h
    exact not_succeeds_error _ h

/-! ## All plugins -/

/-- the names of the plugins that write types of documents -/
def typingPlugins : List String :=
  [TypeScriptOperations.pluginName, FlowOperations.pluginName]

/-- what generating needs that no check looks at, where operations are known to have shapes; each condition is that of the
plugins of some names -/
structure PluginView.Ready (view : PluginView) (schema : Schema) (plugin : String) : Prop where
  /-- the fragments have shapes in the schema -/
  fragmentShapes : plugin ∈ typingPlugins → ∀ source ∈ view.documents, ∀ fragment ∈ source.fragments,
    Selects schema view.fragments fragment.condition fragment.selections
  /-- the types of variables are known to the plugin -/
  variableTypes : plugin ∈ typingPlugins → ∀ source ∈ view.documents, ∀ op ∈ source.operations,
    ∀ v ∈ op.variableDefinitions, KnowsVariable view.schema v
  /-- constants find the fragments that are spread, also where no operation comes to -/
  spreads : plugin = DocumentConstants.pluginName → ∀ config, DocumentConstants.readConfig view.config = .ok config →
    config.mode ≠ .external → ∀ source ∈ view.documents, SpreadsKnown view.fragments source
  /-- the format of the time can be written -/
  format : plugin = Stamp.pluginName → ∀ config format,
    Config.read Stamp.pluginName StampOptions.decodeFormat view.config = .ok (config, format) →
      format.all TimeFormat.isWritable = true

/-- the operations of the view have shapes -/
def PluginView.Resolves (view : PluginView) : Prop :=
  ∀ source ∈ view.documents, ∀ op ∈ source.operations, Succeeds (resolveOperation view.schema view.fragments op)

variable {view : PluginView}

/-- a plugin of another name needs nothing more -/
theorem ready_of_ne {schema : Schema} {plugin : String}
    (h : plugin ∉ DocumentConstants.pluginName :: Stamp.pluginName :: typingPlugins) : view.Ready schema plugin := by
  simp only [List.mem_cons, not_or] at h
  obtain ⟨hconstants, hstamp, htyping⟩ := h
  exact ⟨fun hm => absurd hm htyping, fun hm => absurd hm htyping, fun he => absurd he hconstants,
    fun he => absurd he hstamp⟩

theorem ready_typing_iff {plugin : String} (h : plugin ∈ typingPlugins) (hresolves : view.Resolves) :
    view.Ready view.schema plugin ↔ ∀ source ∈ view.documents, Typed view.schema view.fragments source := by
  have hother : ∀ name ∈ typingPlugins, name ≠ DocumentConstants.pluginName ∧ name ≠ Stamp.pluginName := by decide +kernel
  constructor
  · exact fun hready source hs =>
      ⟨hready.fragmentShapes h source hs, hready.variableTypes h source hs, hresolves source hs⟩
  · exact fun htyped => ⟨fun _ source hs => (htyped source hs).fragmentShapes,
      fun _ source hs => (htyped source hs).variableTypes, fun he => absurd he (hother plugin h).1,
      fun he => absurd he (hother plugin h).2⟩

/-- **What the standard plugins need** beyond their checks and shapes of operations, and nothing else. -/
theorem standard_needs (now : Instant) {plugin : Plugin} (h : plugin ∈ Catalog.standardPlugins now)
    (hself : view.SelfContained) (hresolves : view.Resolves) (hcheck : plugin.check view = .ok ()) (ctx : SharedValues) :
    Succeeds (plugin.generate view ctx).1 ↔ view.Ready view.schema plugin.name := by
  by_cases hundemanding : plugin ∈ undemandingPlugins
  · have hname : plugin.name ∉ DocumentConstants.pluginName :: Stamp.pluginName :: typingPlugins := by
      simp only [undemandingPlugins, List.mem_cons, List.not_mem_nil, or_false] at hundemanding
      rcases hundemanding with rfl | rfl | rfl | rfl | rfl | rfl | rfl | rfl | rfl <;> decide +kernel
    exact iff_of_true ((needs_nothing hundemanding view ctx hself hcheck).2 trivial) (ready_of_ne hname)
  · have hrest : plugin = .typeScriptOperations ∨ plugin = .flowOperations ∨ plugin = .documentConstants ∨
        plugin = .stamp now := by
      unfold Catalog.standardPlugins at h
      unfold undemandingPlugins at hundemanding
      simp only [List.mem_cons, List.not_mem_nil, or_false] at h hundemanding
      tauto
    rcases hrest with rfl | rfl | rfl | rfl
    case inl =>
      exact (operations_needs (Or.inl rfl) view ctx hself hcheck).trans
        (ready_typing_iff List.mem_cons_self hresolves).symm
    case inr.inl =>
      exact (operations_needs (Or.inr rfl) view ctx hself hcheck).trans
        (ready_typing_iff (List.mem_cons_of_mem _ List.mem_cons_self) hresolves).symm
    case inr.inr.inl =>
      have hname : DocumentConstants.pluginName ∉ typingPlugins ∧ DocumentConstants.pluginName ≠ Stamp.pluginName := by
        decide +kernel
      refine (documentConstants_needs view ctx hself hcheck).trans ⟨fun hs => ?_, fun hready => hready.spreads rfl⟩
      exact ⟨fun hm => absurd hm hname.1, fun hm => absurd hm hname.1, fun _ => hs, fun he => absurd he hname.2⟩
    case inr.inr.inr =>
      have hname : Stamp.pluginName ∉ typingPlugins ∧ Stamp.pluginName ≠ DocumentConstants.pluginName := by decide +kernel
      refine (stamp_needs now view ctx hself hcheck).trans ⟨fun hf => ?_, fun hready => hready.format rfl⟩
      exact ⟨fun hm => absurd hm hname.1, fun hm => absurd hm hname.1, fun he => absurd he hname.2, fun _ => hf⟩

end GraphGen
