/-
Checking a target and generating it.

`problemsOf` goes on after a failure and collects everything that keeps a target from being generated; `generate` stops at the
first failure. Both look plugins up, build the schema and the fragments, and ask the plugins, but the one that goes on builds
a schema without the additions of the plugins that are not there.

- `mapM_eq_failures`: a traversal fails with the first of all failures, or gives all values.
- `generate_eq`: generating is checking, and running the generating hooks when nothing was found.
- `Run.Ran`: generating hooks that succeeded one after another, each on the shared values that the one before left.
- `Run.outputs_cases`: a run of the hooks is such a sequence, up to the first that fails if one does.
- `Catalog.SameButHooks`: two catalogs that only differ in how their plugins generate. What such catalogs have in common
  cannot be the doing of a generating hook, since each of their hooks may do anything.

Main result:
- `generate_follows_check`: the first problem is the result, no hook ran and no shared value changed; without problems, the
  outcome is that of the hooks.
-/
import GraphGen.Proofs.Traversal
import GraphGen.Plugin.Run

namespace GraphGen

/-! ## The first failure and all failures -/

/-- a traversal fails with the first of all failures, or else gives all values -/
theorem mapM_eq_failures {α β : Type} (f : α → Except Error β) (l : List α) :
    l.mapM f =
      match failures (l.map f) with
      | error :: _ => .error error
      | [] => .ok (successes (l.map f)) := by
  induction l with
  | nil => rfl
  | cons x l ih =>
    rw [List.mapM_cons, ih, List.map_cons]
    cases hx : f x with
    | error error => rfl
    | ok value =>
      have hfail : failures (Except.ok value :: l.map f) = failures (l.map f) := rfl
      have hgood : successes (Except.ok value :: l.map f) = value :: successes (l.map f) := rfl
      rw [hfail, hgood]
      cases failures (l.map f) <;> rfl

variable {catalog other : Catalog} {target : OutputRequest}

/-- what keeps a target from being generated when these plugins were found for it -/
def refusals (target : OutputRequest) (plugins : List ConfiguredPlugin) : List Error :=
  match target.prepare plugins with
  | .error error => [error]
  | .ok run => run.rejections

theorem problemsOf_eq (catalog : Catalog) (target : OutputRequest) :
    problemsOf catalog target = failures (target.plugins.map (target.lookup catalog)) ++
      refusals target (successes (target.plugins.map (target.lookup catalog))) := rfl

/-- **Generating is checking, and then running the hooks.** The first problem ends it before any hook runs. -/
theorem generate_eq (catalog : Catalog) (target : OutputRequest) (ctx : SharedValues) :
    generate catalog target ctx =
      match problemsOf catalog target with
      | error :: _ => (.error error, ctx)
      | [] =>
        match target.prepare (successes (target.plugins.map (target.lookup catalog))) with
        | .error error => (.error error, ctx)
        | .ok run =>
          match run.outputs run.plugins ctx with
          | (.error error, ctx) => (.error error, ctx)
          | (.ok outputs, ctx) => (.ok (assemble outputs), ctx) := by
  rw [generate, mapM_eq_failures, problemsOf_eq]
  cases failures (target.plugins.map (target.lookup catalog)) with
  | cons error rest => rfl
  | nil =>
    rw [List.nil_append, refusals]
    cases hrun : target.prepare (successes (target.plugins.map (target.lookup catalog))) with
    | error error => simp only [hrun]
    | ok run =>
      cases hrejections : run.rejections with
      | nil =>
        rcases houtputs : run.outputs run.plugins ctx with ⟨outcome, after⟩
        cases outcome <;> simp only [hrun, hrejections, houtputs]
      | cons error rest => simp only [hrun, hrejections]

/-- a prepared target keeps its plugins, and has the schema with their additions and the fragments -/
theorem prepare_ok {plugins : List ConfiguredPlugin} {run : Run} (h : target.prepare plugins = .ok run) :
    run.plugins = plugins ∧ run.target = target ∧
      Schema.parseWith target.schema (plugins.filterMap fun p => p.plugin.schemaAdditions p.config) = .ok run.schema ∧
      FragmentIndex.ofDocuments target.documents target.outsideFragments = .ok run.fragments := by
  obtain ⟨schema, hs, h⟩ := bind_eq_ok_iff.1 h
  obtain ⟨fragments, hf, h⟩ := bind_eq_ok_iff.1 h
  cases h
  exact ⟨rfl, rfl, hs, hf⟩

/-- a target without problems has a plugin for every entry, and is prepared with them -/
theorem prepared_of_no_problems (h : problemsOf catalog target = []) :
    ∃ run, target.plugins.mapM (target.lookup catalog) = .ok run.plugins ∧ target.prepare run.plugins = .ok run ∧
      run.rejections = [] ∧ ∀ ctx, generate catalog target ctx =
        match run.outputs run.plugins ctx with
        | (.error error, ctx) => (.error error, ctx)
        | (.ok outputs, ctx) => (.ok (assemble outputs), ctx) := by
  have hgen := generate_eq catalog target
  rw [h] at hgen
  rw [problemsOf_eq] at h
  obtain ⟨hfail, hrest⟩ := List.append_eq_nil_iff.1 h
  have hlookups := mapM_eq_failures (target.lookup catalog) target.plugins
  rw [hfail] at hlookups
  unfold refusals at hrest
  cases hrun : target.prepare (successes (target.plugins.map (target.lookup catalog))) with
  | error error =>
    rw [hrun] at hrest
    cases hrest
  | ok run =>
    rw [hrun] at hrest hgen
    have hplugins := (prepare_ok hrun).1
    rw [← hplugins] at hlookups hrun
    exact ⟨run, hlookups, hrun, hrest, hgen⟩

/-- the plugins of a target are those that its entries name, with their configurations, in the same order -/
theorem forall₂_of_lookups {plugins : List ConfiguredPlugin} (h : target.plugins.mapM (target.lookup catalog) = .ok plugins) :
    List.Forall₂ (fun use p => catalog.plugins.get? use.name = some p.plugin ∧
      p.config = overlay target.config use.config) target.plugins plugins := by
  refine (mapM_eq_ok_iff.1 h).imp fun use p hp => ?_
  unfold OutputRequest.lookup Catalog.require at hp
  cases hget : catalog.plugins.get? use.name with
  | none =>
    rw [hget] at hp
    cases hp
  | some plugin =>
    rw [hget] at hp
    cases hp
    exact ⟨rfl, rfl⟩

/-! ## Running the hooks -/

namespace Run

variable {run : Run}

/-- the hooks of plugins succeeded one after another, each on the shared values that the one before left -/
inductive Ran (run : Run) : List ConfiguredPlugin → SharedValues → List Contribution → SharedValues → Prop where
  | done {ctx : SharedValues} : Ran run [] ctx [] ctx
  | next {p : ConfiguredPlugin} {rest : List ConfiguredPlugin} {ctx between after : SharedValues}
      {output : Contribution} {outputs : List Contribution}
      (hp : p.plugin.generate (run.input p.config) ctx = (.ok output, between))
      (hr : Ran run rest between outputs after) : Ran run (p :: rest) ctx (output :: outputs) after

/-- the hooks of the plugins before `p` succeeded, and the hook of `p` failed -/
def StopsAt (run : Run) (plugins : List ConfiguredPlugin) (ctx : SharedValues) (p : ConfiguredPlugin) (error : Error)
    (after : SharedValues) : Prop :=
  ∃ before rest outputs between, plugins = before ++ p :: rest ∧ run.Ran before ctx outputs between ∧
    p.plugin.generate (run.input p.config) between = (.error error, after)

/-- **A run of the hooks** succeeds with the outputs of all, or ends with the failure of the first that fails. -/
theorem outputs_cases (run : Run) (plugins : List ConfiguredPlugin) (ctx : SharedValues) :
    (∃ outputs after, run.Ran plugins ctx outputs after ∧ run.outputs plugins ctx = (.ok outputs, after)) ∨
    ∃ p error after, run.StopsAt plugins ctx p error after ∧
      run.outputs plugins ctx = (.error (.pluginGeneration p.plugin.name error), after) := by
  induction plugins generalizing ctx with
  | nil => exact Or.inl ⟨[], ctx, .done, rfl⟩
  | cons p rest ih =>
    rcases hp : p.plugin.generate (run.input p.config) ctx with ⟨outcome, between⟩
    cases outcome with
    | error error =>
      refine Or.inr ⟨p, error, between, ⟨[], rest, [], ctx, rfl, .done, hp⟩, ?_⟩
      rw [outputs, hp]
    | ok output =>
      rcases ih between with ⟨outputs, after, hran, hout⟩ | ⟨q, error, after, hstop, hout⟩
      · refine Or.inl ⟨output :: outputs, after, .next hp hran, ?_⟩
        rw [Run.outputs, hp]
        dsimp only
        rw [hout]
      · obtain ⟨before, later, outputs, middle, rfl, hran, hq⟩ := hstop
        refine Or.inr ⟨q, error, after, ⟨p :: before, later, output :: outputs, middle, rfl, .next hp hran, hq⟩, ?_⟩
        rw [Run.outputs, hp]
        dsimp only
        rw [hout]

/-- hooks that succeed whatever the shared values are, or fail whatever they are, succeed together when each does -/
theorem succeeds_outputs_iff {need : ConfiguredPlugin → Prop} {plugins : List ConfiguredPlugin}
    (h : ∀ p ∈ plugins, ∀ ctx, Succeeds (p.plugin.generate (run.input p.config) ctx).1 ↔ need p) (ctx : SharedValues) :
    Succeeds (run.outputs plugins ctx).1 ↔ ∀ p ∈ plugins, need p := by
  induction plugins generalizing ctx with
  | nil => exact iff_of_true ⟨[], rfl⟩ (by simp)
  | cons p rest ih =>
    rw [List.forall_mem_cons, ← h p List.mem_cons_self ctx, outputs]
    rcases p.plugin.generate (run.input p.config) ctx with ⟨outcome, between⟩
    cases outcome with
    | error error => exact iff_of_false (not_succeeds_error _) fun h => not_succeeds_error _ h.1
    | ok output =>
      have hrest := ih (fun q hq => h q (List.mem_cons_of_mem _ hq)) between
      rw [and_iff_right ⟨output, rfl⟩, ← hrest]
      dsimp only
      rcases run.outputs rest between with ⟨outcome, after⟩
      cases outcome with
      | error error => exact iff_of_false (not_succeeds_error _) (not_succeeds_error _)
      | ok outputs => exact iff_of_true ⟨_, rfl⟩ ⟨_, rfl⟩

/-- a target without problems is generated when all its hooks succeed -/
theorem succeeds_generate_iff (h : problemsOf catalog target = []) :
    ∃ run, target.plugins.mapM (target.lookup catalog) = .ok run.plugins ∧ target.prepare run.plugins = .ok run ∧
      run.rejections = [] ∧
      ∀ ctx, Succeeds (generate catalog target ctx).1 ↔ Succeeds (run.outputs run.plugins ctx).1 := by
  obtain ⟨run, hlookups, hprepare, hrejections, hgenerate⟩ := prepared_of_no_problems h
  refine ⟨run, hlookups, hprepare, hrejections, fun ctx => ?_⟩
  rw [hgenerate]
  rcases run.outputs run.plugins ctx with ⟨outcome, after⟩
  cases outcome with
  | error error => exact iff_of_false (not_succeeds_error _) (not_succeeds_error _)
  | ok outputs => exact iff_of_true (succeeds_ok _) (succeeds_ok _)

/-- plugins that refuse nothing accepted what they see -/
theorem check_of_no_rejections (h : run.rejections = []) :
    ∀ p ∈ run.plugins, p.plugin.check (run.input p.config) = .ok () := by
  intro p hp
  have hnone := List.filterMap_eq_nil_iff.1 h p hp
  unfold rejection? at hnone
  split at hnone
  · assumption
  · cases hnone

end Run

/-! ## Hooks that do not run -/

/-- the plugin with a generating hook that writes nothing -/
def Plugin.mute (plugin : Plugin) : Plugin :=
  { plugin with generate := pureHook fun _ => .ok {} }

/-- a configured plugin whose generating hook writes nothing -/
def ConfiguredPlugin.mute (p : ConfiguredPlugin) : ConfiguredPlugin :=
  { p with plugin := p.plugin.mute }

/-- the catalogs have plugins of the same names, with the same additions and checks; their generating hooks may differ -/
structure Catalog.SameButHooks (catalog other : Catalog) : Prop where
  names : other.names = catalog.names
  plugins : ∀ name, (other.plugins.get? name).map Plugin.mute = (catalog.plugins.get? name).map Plugin.mute

theorem failures_map {α β : Type} (f : α → β) (results : List (Except Error α)) :
    failures (results.map (Except.map f)) = failures results := by
  unfold failures
  rw [List.filterMap_map]
  refine List.filterMap_congr fun result _ => ?_
  cases result <;> rfl

theorem successes_map {α β : Type} (f : α → β) (results : List (Except Error α)) :
    successes (results.map (Except.map f)) = (successes results).map f := by
  unfold successes
  rw [List.filterMap_map, List.map_filterMap]
  refine List.filterMap_congr fun result _ => ?_
  cases result <;> rfl

/-- what refuses a target does not depend on the generating hooks of its plugins -/
theorem refusals_mute (target : OutputRequest) (plugins : List ConfiguredPlugin) :
    refusals target (plugins.map ConfiguredPlugin.mute) = refusals target plugins := by
  have hadditions : (plugins.map ConfiguredPlugin.mute).filterMap (fun p => p.plugin.schemaAdditions p.config) =
      plugins.filterMap fun p => p.plugin.schemaAdditions p.config := by
    rw [List.filterMap_map]
    rfl
  unfold refusals OutputRequest.prepare
  dsimp only
  rw [hadditions]
  cases Schema.parseWith target.schema (plugins.filterMap fun p => p.plugin.schemaAdditions p.config) with
  | error error => rfl
  | ok schema =>
    cases FragmentIndex.ofDocuments target.documents target.outsideFragments with
    | error error => rfl
    | ok fragments =>
      show (plugins.map ConfiguredPlugin.mute).filterMap _ = plugins.filterMap _
      rw [List.filterMap_map]
      rfl

theorem lookup_mute (h : catalog.SameButHooks other) (use : PluginUse) :
    (target.lookup other use).map ConfiguredPlugin.mute = (target.lookup catalog use).map ConfiguredPlugin.mute := by
  have hp := h.plugins use.name
  unfold OutputRequest.lookup Catalog.require
  rw [h.names]
  cases hget : other.plugins.get? use.name with
  | none =>
    rw [hget] at hp
    rw [Option.map_eq_none_iff.1 hp.symm]
  | some plugin =>
    rw [hget] at hp
    obtain ⟨found, hfound, hmute⟩ := Option.map_eq_some_iff.1 hp.symm
    rw [hfound]
    show Except.ok _ = Except.ok _
    unfold ConfiguredPlugin.mute
    rw [hmute]

/-- **Checking never looks at a generating hook.** -/
theorem problemsOf_sameButHooks (h : catalog.SameButHooks other) : problemsOf other target = problemsOf catalog target := by
  have hlookups : (target.plugins.map (target.lookup other)).map (Except.map ConfiguredPlugin.mute) =
      (target.plugins.map (target.lookup catalog)).map (Except.map ConfiguredPlugin.mute) := by
    rw [List.map_map, List.map_map]
    exact List.map_congr_left fun use _ => lookup_mute h use
  rw [problemsOf_eq, problemsOf_eq, ← failures_map ConfiguredPlugin.mute, hlookups, failures_map, ← refusals_mute,
    ← successes_map, hlookups, successes_map, refusals_mute]

/-! ## Checking and generating -/

/-- **Checking and generating agree.** Let a target have problems. Then the first of them is the result, and the shared values
are what they were; and this is so whatever the generating hooks of the plugins are, so that none of them ran. Let it have
none. Then each entry of the target has its plugin, the target is prepared with them, and either all their hooks succeed, in
the order of the entries, or the first that fails ends the run: its error is the result, wrapped with the plugin's name. -/
theorem generate_follows_check (catalog : Catalog) (target : OutputRequest) (ctx : SharedValues) :
    (∀ error rest, problemsOf catalog target = error :: rest →
      generate catalog target ctx = (.error error, ctx) ∧
        ∀ other, catalog.SameButHooks other → generate other target ctx = (.error error, ctx)) ∧
    (problemsOf catalog target = [] →
      ∃ run, target.prepare run.plugins = .ok run ∧
        List.Forall₂ (fun use p => catalog.plugins.get? use.name = some p.plugin ∧
          p.config = overlay target.config use.config) target.plugins run.plugins ∧
        ((∃ outputs after, run.Ran run.plugins ctx outputs after ∧
            generate catalog target ctx = (.ok (assemble outputs), after)) ∨
          ∃ p error after, run.StopsAt run.plugins ctx p error after ∧
            generate catalog target ctx = (.error (.pluginGeneration p.plugin.name error), after))) := by
  constructor
  · intro error rest hproblems
    refine ⟨?_, fun other hsame => ?_⟩
    · rw [generate_eq, hproblems]
    · rw [generate_eq, problemsOf_sameButHooks hsame, hproblems]
  · intro hproblems
    obtain ⟨run, hlookups, hprepare, -, hgen⟩ := prepared_of_no_problems hproblems
    refine ⟨run, hprepare, forall₂_of_lookups hlookups, ?_⟩
    rw [hgen]
    rcases run.outputs_cases run.plugins ctx with ⟨outputs, after, hran, hout⟩ | ⟨p, error, after, hstop, hout⟩
    · exact Or.inl ⟨outputs, after, hran, by rw [hout]⟩
    · exact Or.inr ⟨p, error, after, hstop, by rw [hout]⟩

/-- a plugin that notes that it generated -/
def notingPlugin : Plugin where
  name := "noting"
  generate := fun _ ctx => (.ok { content := "noted" }, ctx.insert "noted" (.bool true))

/-- a plugin that refuses every target -/
def strictPlugin : Plugin where
  name := "strict"
  check := fun _ => .error (.custom "not today")
  generate := pureHook fun _ => .ok {}

/-- the plugin that refuses comes last -/
def strictRequest : OutputRequest where
  filename := "dates.txt"
  schema := "scalar Date"
  documents := []
  outsideFragments := []
  plugins := [⟨"noting", .null⟩, ⟨"strict", .null⟩]
  config := .null

theorem generate_follows_check_strict :
    problemsOf (.ofList [notingPlugin, strictPlugin]) strictRequest =
        [.pluginValidation "strict" (.custom "not today")] ∧
      ∀ hook, generate (.ofList [{ notingPlugin with generate := hook }, strictPlugin]) strictRequest .empty =
        (.error (.pluginValidation "strict" (.custom "not today")), .empty) := by
  have hproblems : problemsOf (.ofList [notingPlugin, strictPlugin]) strictRequest =
      [.pluginValidation "strict" (.custom "not today")] := by decide +kernel
  have h := (generate_follows_check (.ofList [notingPlugin, strictPlugin]) strictRequest .empty).1 _ _ hproblems
  have hentries : ∀ hook, (Catalog.ofList [{ notingPlugin with generate := hook }, strictPlugin]).plugins.entries =
      [("noting", { notingPlugin with generate := hook }), ("strict", strictPlugin)] := by
    intro hook
    simp [Catalog.ofList, Catalog.add, Catalog.empty, Table.insert, Table.empty, insertEntry, notingPlugin, strictPlugin]
  refine ⟨hproblems, fun hook => h.2 _ ⟨?_, fun name => ?_⟩⟩
  · simp only [Catalog.names, Table.keys, hentries]
    rfl
  · simp only [Table.get?, hentries, lookup_cons_ite]
    split <;> rfl

end GraphGen
