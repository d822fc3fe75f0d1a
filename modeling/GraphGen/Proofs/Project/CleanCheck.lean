/-
Checking a project without errors, and generating.

A check looks at the operations against the schema of the project, and asks the plugins of every target. Generating sees the
schema with what plugins add to it, all fragments, and the types of variables. What has been checked stays right in the bigger
schema (`resolves_of_grows`), but fragments that no operation reaches, spreads on types that never apply, the types of
variables, and formats of the time that are read but cannot be written are first looked at when a plugin generates.

- `Project.Checked`: what holds of a project after a check without errors (`checked_of_clean`).
- `selects_of_grows`: selections have shapes in the bigger schema when they have some in the checked one.

Main result:
- `generates_iff`: after a check without errors a target is generated exactly when it is ready for each of its plugins.
-/
import GraphGen.Proofs.Plugin.Needs
import GraphGen.Proofs.Plugin.Standard

namespace GraphGen

/-! ## Diagnostics without errors -/

namespace Diagnostic

theorem anyError_append (diagnostics more : List Diagnostic) :
    anyError (diagnostics ++ more) = (anyError diagnostics || anyError more) :=
  List.any_append

theorem anyError_inSource (error : Error) (source : String) (more : List Diagnostic) :
    anyError (inSource error source :: more) = true := rfl

end Diagnostic

open Diagnostic

theorem succeeds_of_failureIn {α : Type} {source : String} {result : Except Error α}
    (h : anyError (failureIn source result) = false) : Succeeds result := by
  cases result with
  | ok value => exact ⟨value, rfl⟩
  | error error =>
    rw [failureIn, anyError_inSource] at h
    cases h

/-- a condition on the errors of a list that is made piece by piece -/
theorem anyError_flatMap {α : Type} {l : List α} {f : α → List Diagnostic} (h : anyError (l.flatMap f) = false) :
    ∀ x ∈ l, anyError (f x) = false := by
  intro x hx
  unfold anyError at h ⊢
  rw [List.any_flatMap] at h
  have := List.any_eq_false.1 h x hx
  exact Bool.eq_false_iff.2 this

theorem resolves_of_findings {schema : Schema} {fragments : FragmentIndex} {location : String} {op : Operation}
    (h : anyError (findingsOf schema fragments location op) = false) : Succeeds (resolveOperation schema fragments op) := by
  unfold findingsOf at h
  rw [anyError_append, Bool.or_eq_false_iff] at h
  cases hr : resolveOperation schema fragments op with
  | ok value => exact ⟨value, rfl⟩
  | error error =>
    rw [hr] at h
    cases h.2

theorem mapM_of_failures {documents : List ReadDocument} (h : anyError (documents.flatMap ReadDocument.failure) = false) :
    documents.mapM (·.result) = .ok (successes (documents.map (·.result))) := by
  have hnone : failures (documents.map (·.result)) = [] := by
    refine List.filterMap_eq_nil_iff.2 fun result hr => ?_
    obtain ⟨document, hd, rfl⟩ := List.mem_map.1 hr
    obtain ⟨source, hs⟩ := succeeds_of_failureIn (anyError_flatMap h document hd)
    rw [hs]
  rw [mapM_eq_failures, hnone]

theorem problemsOf_eq_nil_of_findings {catalog : Catalog} {targets : List OutputRequest}
    (h : anyError (requestFindings catalog targets) = false) : ∀ target ∈ targets, problemsOf catalog target = [] := by
  intro target ht
  have hproblems := anyError_flatMap h target ht
  cases hp : problemsOf catalog target with
  | nil => rfl
  | cons error rest =>
    rw [hp, List.map_cons, anyError_inSource] at hproblems
    cases hproblems

/-! ## What a check establishes -/

/-- what a check without errors establishes -/
structure Project.Checked (project : Project) (catalog : Catalog) (sdl : String) (sources : List LocatedDocument)
    (schema : Schema) (fragments : FragmentIndex) : Prop where
  read : Schema.parse sdl = .ok schema
  built : FragmentIndex.ofDocuments sources [] = .ok fragments
  resolved : ∀ source ∈ sources, ∀ op ∈ source.operations, Succeeds (resolveOperation schema fragments op)
  accepted : ∀ target ∈ project.targets sdl sources, problemsOf catalog target = []

variable {project : Project} {catalog : Catalog} {sdl : String} {documents : List ReadDocument}

/-- **A check without errors** has read the schema and all documents, and looked at every operation and every target. -/
theorem Project.checked_of_clean (h : anyError (project.diagnose catalog sdl documents).diagnostics = false) :
    ∃ sources schema fragments, documents.mapM (·.result) = .ok sources ∧
      project.Checked catalog sdl sources schema fragments ∧
      (project.diagnose catalog sdl documents).targets = project.targets sdl sources := by
  generalize hsources : successes (documents.map (·.result)) = sources
  unfold diagnose at h ⊢
  rw [hsources] at h ⊢
  dsimp only at h ⊢
  cases hschema : Schema.parse sdl with
  | error error =>
    rw [hschema] at h
    dsimp only at h
    rw [anyError_append, anyError_append, failureIn, anyError_inSource] at h
    cases h
  | ok schema =>
    cases hfragments : FragmentIndex.ofDocuments sources [] with
    | error error =>
      rw [hschema, hfragments] at h
      dsimp only at h
      rw [anyError_append, Bool.or_eq_false_iff] at h
      cases h.2
    | ok fragments =>
      rw [hschema, hfragments] at h
      simp only [failureIn, List.nil_append, List.append_nil] at h ⊢
      by_cases hunread : anyError (documents.flatMap ReadDocument.failure) = true
      · rw [if_pos hunread, hunread] at h
        cases h
      by_cases hoperations : anyError (operationFindings schema fragments sources) = true
      · rw [if_neg hunread, if_pos hoperations, anyError_append, hoperations, Bool.or_true] at h
        cases h
      rw [if_neg hunread, if_neg hoperations] at h ⊢
      rw [Bool.not_eq_true] at hunread hoperations
      rw [anyError_append, Bool.or_eq_false_iff] at h
      have hread := hsources ▸ mapM_of_failures hunread
      refine ⟨sources, schema, fragments, hread, ⟨hschema, hfragments, fun source hs op ho => ?_, ?_⟩, rfl⟩
      · exact resolves_of_findings (anyError_flatMap (anyError_flatMap hoperations source hs) op ho)
      · exact problemsOf_eq_nil_of_findings h.2

/-! ## The schema with what plugins add -/

variable {schema : Schema} {fragments : FragmentIndex}

theorem selects_of_grows {run : Run} (hs : Schema.parse sdl = .ok schema) (hg : schema.Grows run.schema)
    (parent : String) (selections : SelectionSet) :
    Selects run.schema fragments parent selections ↔ Selects schema fragments parent selections := by
  obtain ⟨document, -, hdocument⟩ := Schema.parse_ok hs
  have hwidens : ShapeContext.Widens ⟨schema, fragments, .plain⟩ ⟨run.schema, fragments, .plain⟩ := ⟨rfl, hg⟩
  exact (hwidens.alike hdocument).succeeds_resolve parent [selections]

/-- what was checked stays right -/
theorem resolves_of_grows {run : Run} (hs : Schema.parse sdl = .ok schema) (hg : schema.Grows run.schema) (op : Operation) :
    Succeeds (resolveOperation run.schema fragments op) ↔ Succeeds (resolveOperation schema fragments op) := by
  have hroot : run.schema.rootName? op.kind = schema.rootName? op.kind := by
    unfold Schema.rootName?
    rw [hg.roots]
  rw [succeeds_resolveOperation_iff, succeeds_resolveOperation_iff, hroot]
  exact exists_congr fun root => and_congr_right fun _ => selects_of_grows hs hg root op.selections

theorem ready_of_grows {run : Run} (hs : Schema.parse sdl = .ok schema) (hg : schema.Grows run.schema)
    {view : PluginView} {plugin : String} : view.Ready run.schema plugin ↔ view.Ready schema plugin := by
  constructor
  · exact fun h => ⟨fun hp source hm fragment hf => (selects_of_grows hs hg _ _).1 (h.fragmentShapes hp source hm fragment hf),
      h.variableTypes, h.spreads, h.format⟩
  · exact fun h => ⟨fun hp source hm fragment hf => (selects_of_grows hs hg _ _).2 (h.fragmentShapes hp source hm fragment hf),
      h.variableTypes, h.spreads, h.format⟩

/-! ## Generating -/

/-- the standard plugins are found under their names, and no others -/
theorem standard_of_lookups {now : Instant} {target : OutputRequest} {plugins : List ConfiguredPlugin}
    (h : target.plugins.mapM (target.lookup (.standard now)) = .ok plugins) :
    ∀ p ∈ plugins, p.plugin ∈ Catalog.standardPlugins now := by
  intro p hp
  obtain ⟨use, -, hget, -⟩ := exists_of_forall₂ (forall₂_of_lookups h) p hp
  exact (Catalog.mem_of_get? hget).1

open Catalog in
/-- **After a check without errors**, at whatever time, the schema, the documents and their fragments are read, and the targets
of the project are prepared with the plugins that they name. A target is generated, at whatever time and from whatever shared
values, exactly when it is ready for each of its plugins: where types of documents are written, all fragments have shapes in the
schema and the types of variables are known; where constants are written, all spreads in fragments and named operations are of
known fragments; and the format of a time can be written. -/
theorem Project.generates_iff (project : Project) (now : Instant) (sdl : String) (documents : List ReadDocument)
    (h : anyError (project.diagnose (.standard now) sdl documents).diagnostics = false) :
    ∃ sources schema fragments, documents.mapM (·.result) = .ok sources ∧ Schema.parse sdl = .ok schema ∧
      FragmentIndex.ofDocuments sources [] = .ok fragments ∧
      (project.diagnose (.standard now) sdl documents).targets = project.targets sdl sources ∧
      ∀ target ∈ project.targets sdl sources, ∀ later, ∃ run,
        target.plugins.mapM (target.lookup (.standard later)) = .ok run.plugins ∧
        target.prepare run.plugins = .ok run ∧ run.fragments = fragments ∧
        ∀ ctx, Succeeds (generate (.standard later) target ctx).1 ↔
          ∀ use ∈ target.plugins, (run.input (overlay target.config use.config)).Ready schema use.name := by
  obtain ⟨sources, schema, fragments, hread, hchecked, htargets⟩ := checked_of_clean h
  refine ⟨sources, schema, fragments, hread, hchecked.read, hchecked.built, htargets, fun target ht later => ?_⟩
  have hproblems : problemsOf (.standard later) target = [] :=
    (problemsOf_sameButHooks (standard_sameButHooks now later)).trans (hchecked.accepted target ht)
  obtain ⟨run, hlookups, hprepare, hrejections, hgenerate⟩ := Run.succeeds_generate_iff hproblems
  obtain ⟨⟨filename, output⟩, -, rfl⟩ := List.mem_map.1 ht
  obtain ⟨-, htarget, -, hfragments⟩ := prepare_ok hprepare
  have hsame : run.fragments = fragments := Except.ok.inj (hfragments.symm.trans hchecked.built)
  refine ⟨run, hlookups, hprepare, hsame, fun ctx => ?_⟩
  have hentries := forall₂_of_lookups hlookups
  have hstandard := standard_of_lookups hlookups
  have hgrows : schema.Grows run.schema := grows_of_prepare hchecked.read hstandard hprepare
  -- what each plugin needs, in the schema that was checked
  have hneeds : ∀ p ∈ run.plugins, ∀ ctx, Succeeds (p.plugin.generate (run.input p.config) ctx).1 ↔
      (run.input p.config).Ready schema p.plugin.name := by
    intro p hp ctx
    refine (standard_needs later (hstandard p hp) ?_ ?_ (Run.check_of_no_rejections hrejections p hp) ctx).trans
      (ready_of_grows hchecked.read hgrows)
    · show FragmentIndex.ofDocuments run.target.documents [] = .ok run.fragments
      rw [htarget, hsame]
      exact hchecked.built
    · show ∀ source ∈ run.target.documents, ∀ op ∈ source.operations,
        Succeeds (resolveOperation run.schema run.fragments op)
      rw [htarget, hsame]
      exact fun source hs op ho => (resolves_of_grows hchecked.read hgrows op).2 (hchecked.resolved source hs op ho)
  rw [hgenerate, Run.succeeds_outputs_iff hneeds ctx]
  refine (forall_mem_iff_of_forall₂ hentries fun use p hp => ?_).symm
  rw [hp.2, (mem_of_get? hp.1).2]

/-- a project with one output -/
def singleOutput (filename plugin : String) : Project where
  root := ""
  config :=
    { schema := ["schema.graphql"]
      documents := ["ops"]
      config := .null
      generates := Table.ofList [(filename, ⟨[⟨plugin, .null⟩], .null⟩)] }

/-- a user under an identifier -/
def partsTypes : String :=
  "type Query \x7b user(id: ID!): User \x7d\ntype User \x7b id: ID! name: String \x7d"

/-- a query with a variable, and a fragment that it spreads -/
def partsQuery : ReadDocument :=
  .ofText "ops/user.graphql"
    "query User($id: ID!) \x7b user(id: $id) \x7b ...Parts \x7d \x7d\nfragment Parts on User \x7b id name \x7d"

/-- the schema of users -/
def partsSchema : Schema :=
  (Schema.parse partsTypes).toOption.getD default

/-- the document with the query and the fragment -/
def partsSource : LocatedDocument :=
  partsQuery.result.toOption.getD default

/-- the index of the fragment -/
def partsFragments : FragmentIndex :=
  (FragmentIndex.ofDocuments [partsSource] []).toOption.getD default

/-- a result that is there -/
theorem eq_ok_of_isOk {ε α : Type} [Inhabited α] {outcome : Except ε α} (h : outcome.isOk = true) :
    outcome = .ok (outcome.toOption.getD default) := by
  cases outcome with
  | ok value => rfl
  | error error => cases h

theorem read_partsQuery : partsQuery.result = .ok partsSource :=
  eq_ok_of_isOk (by decide +kernel)

theorem parse_partsTypes : Schema.parse partsTypes = .ok partsSchema :=
  eq_ok_of_isOk (by decide +kernel)

theorem built_partsFragments : FragmentIndex.ofDocuments [partsSource] [] = .ok partsFragments :=
  eq_ok_of_isOk (by decide +kernel)

/-- the query and the fragment have all that plugins for documents need -/
theorem ready_parts {view : PluginView} (hg : partsSchema.Grows view.schema) (hd : view.documents = [partsSource])
    (hf : view.fragments = partsFragments) {plugin : String} (hp : plugin ≠ Stamp.pluginName) :
    view.Ready partsSchema plugin := by
  have hshapes : (partsSource.fragments.all fun fragment =>
      (ShapeContext.resolve ⟨partsSchema, partsFragments, .plain⟩ fragment.condition [fragment.selections]).result.isOk) = true := by
    decide +kernel
  have hvariables : (partsSource.operations.all fun op => op.variableDefinitions.all fun v =>
      (partsSchema.type? (WrappedType.ofExpr v.type).name).isSome) = true := by decide +kernel
  have hspreads : (partsSource.fragments.all fun fragment => fragment.selections.spreads.all fun name =>
      partsFragments.entries.keys.contains name) = true := by decide +kernel
  have hnamed : (partsSource.operations.all fun op => op.selections.spreads.all fun name =>
      partsFragments.entries.keys.contains name) = true := by decide +kernel
  simp only [List.all_eq_true, List.contains_iff_mem] at hshapes hvariables hspreads hnamed
  refine ⟨fun _ => ?_, fun _ => ?_, fun _ _ _ _ => ?_, fun h => absurd h hp⟩
  all_goals rw [hd, List.forall_mem_singleton]
  · intro fragment hfragment
    rw [hf]
    exact ⟨_, eq_ok_of_isOk (hshapes fragment hfragment)⟩
  · intro op hop v hv
    obtain ⟨type, htype⟩ := Option.isSome_iff_exists.1 (hvariables op hop v hv)
    exact ⟨type, hg.type?_of_some htype⟩
  · rw [hf]
    exact ⟨hspreads, fun op hop _ => hnamed op hop⟩

/-- the types and the constants of documents can be generated at any time -/
theorem generates_iff_types :
    partsSource.fragments.map (·.name) = ["Parts"] ∧ partsSource.operations.map (·.name) = [some "User"] ∧
    ∀ plugin ∈ ["typescript-operations", "typescript-documents"],
      anyError ((singleOutput "user.ts" plugin).diagnose (.standard ⟨0, 0⟩) partsTypes [partsQuery]).diagnostics = false ∧
      [partsQuery].mapM (·.result) = .ok [partsSource] ∧
      ∃ target, (singleOutput "user.ts" plugin).targets partsTypes [partsSource] = [target] ∧
        ∀ later ctx, Succeeds (generate (.standard later) target ctx).1 := by
  refine ⟨by decide +kernel, by decide +kernel, fun plugin hplugin => ?_⟩
  have hclean : ∀ plugin ∈ ["typescript-operations", "typescript-documents"],
      anyError ((singleOutput "user.ts" plugin).diagnose (.standard ⟨0, 0⟩) partsTypes [partsQuery]).diagnostics = false := by
    decide +kernel
  have hstamp : ∀ plugin ∈ ["typescript-operations", "typescript-documents"], plugin ≠ Stamp.pluginName := by decide +kernel
  have hread : [partsQuery].mapM (·.result) = .ok [partsSource] := by
    rw [List.mapM_cons, read_partsQuery]
    rfl
  obtain ⟨sources, schema, fragments, hsources, hschema, hbuilt, -, hall⟩ :=
    (singleOutput "user.ts" plugin).generates_iff ⟨0, 0⟩ partsTypes [partsQuery] (hclean plugin hplugin)
  rw [Except.ok.inj (hsources.symm.trans hread)] at hbuilt hall
  rw [Except.ok.inj (hschema.symm.trans parse_partsTypes), Except.ok.inj (hbuilt.symm.trans built_partsFragments)] at hall
  refine ⟨hclean plugin hplugin, hread, _, rfl, fun later ctx => ?_⟩
  obtain ⟨run, hlookups, hprepare, hfragments, hiff⟩ := hall _ List.mem_cons_self later
  refine (hiff ctx).2 fun use hu => ?_
  have huse : use = ⟨plugin, .null⟩ := List.mem_singleton.1 hu
  have hdocuments : run.target.documents = [partsSource] := by
    rw [(prepare_ok hprepare).2.1]
    rfl
  refine ready_parts (grows_of_prepare ?_ (standard_of_lookups hlookups) hprepare) hdocuments hfragments
    (huse ▸ hstamp plugin hplugin)
  exact parse_partsTypes

/-- a fragment that no operation reaches selects a field that its type does not have: the check finds no error, and the types of
documents cannot be generated -/
theorem unreached_fragment_fails :
    let found := (singleOutput "ops.ts" "typescript-operations").diagnose (.standard ⟨0, 0⟩)
      "type Query { user: User }\ntype User { id: ID! name: String }"
      [.ofText "ops/user.graphql" "fragment Parts on User { age }"]
    found.diagnostics = [] ∧ found.targets.map (fun target => (generate (.standard ⟨0, 0⟩) target .empty).1) =
      [.error (.pluginGeneration "typescript-operations" (.unknownField "User" "age"))] := by
  decide +kernel

end GraphGen
