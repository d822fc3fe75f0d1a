/-
The standard catalog.

- `mem_of_get?`: what a catalog of some plugins has under a name is one of them.
- `standard_sameButHooks`: the time of generation is a matter of the generating hooks only, so that checking does not depend on
  it.
- `additions_of_standard`: what standard plugins add to a schema are scalars and directives.

Main result:
- `grows_of_prepare`: preparing a target of standard plugins gives the schema of its text, with further scalars.
-/
import GraphGen.Plugin.Standard
import GraphGen.Proofs.Plugin.Checking
import GraphGen.Proofs.Schema.Growth
import GraphGen.Proofs.Sdl.Appending
import Mathlib.Data.List.Induction

namespace GraphGen

namespace Catalog

/-! ## Registered plugins -/

theorem get?_add (catalog : Catalog) (plugin : Plugin) (name : String) :
    (catalog.add plugin).plugins.get? name =
      if name = plugin.name then some plugin else catalog.plugins.get? name :=
  Table.get?_insert _ _ _ _

theorem names_add (catalog : Catalog) (plugin : Plugin) :
    (catalog.add plugin).names =
      if plugin.name ∈ catalog.names then catalog.names else catalog.names ++ [plugin.name] :=
  Table.keys_insert _ _ _

/-- what stands under a name was registered, and has the name -/
theorem mem_of_get? {plugins : List Plugin} {name : String} {plugin : Plugin}
    (h : (ofList plugins).plugins.get? name = some plugin) : plugin ∈ plugins ∧ plugin.name = name := by
  induction plugins using List.reverseRecOn with
  | nil => cases h
  | append_singleton plugins last ih =>
    rw [ofList, List.foldl_append, List.foldl_cons, List.foldl_nil, get?_add] at h
    split at h
    · rename_i hname
      cases h
      exact ⟨by simp, hname.symm⟩
    · obtain ⟨hm, hname⟩ := ih h
      exact ⟨List.mem_append_left _ hm, hname⟩

theorem SameButHooks.add {catalog other : Catalog} (h : catalog.SameButHooks other) {plugin next : Plugin}
    (hp : next.mute = plugin.mute) : (catalog.add plugin).SameButHooks (other.add next) := by
  have hname : next.mute.name = plugin.mute.name := congrArg Plugin.name hp
  change next.name = plugin.name at hname
  constructor
  · rw [names_add, names_add, h.names, hname]
  · intro name
    rw [get?_add, get?_add, hname]
    split
    · exact congrArg some hp
    · exact h.plugins name

/-- plugins that only differ in how they generate make such catalogs -/
theorem sameButHooks_ofList {plugins others : List Plugin}
    (h : List.Forall₂ (fun plugin other => other.mute = plugin.mute) plugins others) :
    (ofList plugins).SameButHooks (ofList others) := by
  have hfold : ∀ {catalog other : Catalog}, catalog.SameButHooks other →
      (plugins.foldl add catalog).SameButHooks (others.foldl add other) := by
    induction h with
    | nil => exact id
    | cons hp _ ih => exact fun hc => ih (hc.add hp)
  exact hfold ⟨rfl, fun _ => rfl⟩

theorem stamp_mute (now : Instant) :
    (Plugin.stamp now).mute =
      { name := Stamp.pluginName, check := Stamp.check, generate := pureHook fun _ => .ok {} } := rfl

/-- **The time of generation** is a matter of the generating hooks only. -/
theorem standard_sameButHooks (now later : Instant) : (standard now).SameButHooks (standard later) := by
  refine sameButHooks_ofList ?_
  have hstamp : (Plugin.stamp later).mute = (Plugin.stamp now).mute := (stamp_mute later).trans (stamp_mute now).symm
  unfold standardPlugins
  simp only [List.forall₂_cons, hstamp, List.Forall₂.nil, and_self]

end Catalog

/-! ## Additions to the schema -/

/-- the federation definitions are additions, and begin with a scalar -/
theorem federationDefinitions_eq :
    (SchemaDocument.parse? TypeScriptTypes.federationDefinitions).map (·.all SchemaDefinition.isAddition) = some true ∧
      ((Token.lex TypeScriptTypes.federationDefinitions).bind List.head?).map Lexeme.token = some (.name "scalar") := by
  decide +kernel

theorem exists_continues_federation : ∃ document, SchemaDocument.Continues TypeScriptTypes.federationDefinitions document ∧
    ∀ d ∈ document, d.isAddition = true := by
  obtain ⟨hparse, hlex⟩ := federationDefinitions_eq
  obtain ⟨document, hdocument, hall⟩ := Option.map_eq_some_iff.1 hparse
  obtain ⟨first, hfirst, htoken⟩ := Option.map_eq_some_iff.1 hlex
  obtain ⟨lexemes, hlexemes, hhead⟩ := Option.bind_eq_some_iff.1 hfirst
  refine ⟨document, ⟨hdocument, lexemes, hlexemes, first.position, lexemes.tail, ?_⟩, List.all_eq_true.1 hall⟩
  obtain ⟨rest, rfl⟩ := List.head?_eq_some_iff.1 hhead
  rw [← htoken]
  rfl

/-- what standard plugins add are the federation definitions -/
theorem additions_of_standard {now : Instant} {plugin : Plugin} (h : plugin ∈ Catalog.standardPlugins now) {config : Json}
    {text : String} (ha : plugin.schemaAdditions config = some text) : text = TypeScriptTypes.federationDefinitions := by
  unfold Catalog.standardPlugins at h
  simp only [List.mem_cons, List.not_mem_nil, or_false] at h
  rcases h with rfl | rfl | rfl | rfl | rfl | rfl | rfl | rfl | rfl | rfl | rfl | rfl | rfl
  · change TypeScriptTypes.schemaAdditions config = some text at ha
    unfold TypeScriptTypes.schemaAdditions at ha
    split at ha
    · cases ha
      rfl
    · cases ha
  all_goals cases ha

theorem Schema.parse_ok {text : String} {schema : Schema} (h : Schema.parse text = .ok schema) :
    ∃ document, SchemaDocument.parse? text = some document ∧ Schema.ofDocument document = .ok schema := by
  unfold Schema.parse at h
  split at h
  · exact ⟨_, by assumption, h⟩
  · cases h

/-- **Preparing a target** of standard plugins gives the schema of its text, with further scalars. -/
theorem grows_of_prepare {now : Instant} {target : OutputRequest} {plugins : List ConfiguredPlugin} {run : Run}
    {schema : Schema} (hs : Schema.parse target.schema = .ok schema)
    (hp : ∀ p ∈ plugins, p.plugin ∈ Catalog.standardPlugins now) (hrun : target.prepare plugins = .ok run) :
    schema.Grows run.schema := by
  obtain ⟨-, -, hbigger, -⟩ := prepare_ok hrun
  obtain ⟨document, hdocument, hs⟩ := Schema.parse_ok hs
  obtain ⟨whole, hwhole, hbigger⟩ := Schema.parse_ok hbigger
  obtain ⟨federation, hcontinues, hadditions⟩ := exists_continues_federation
  generalize htexts : (plugins.filterMap fun p => p.plugin.schemaAdditions p.config) = texts at hwhole
  have hcontinue : List.Forall₂ SchemaDocument.Continues texts (texts.map fun _ => federation) := by
    rw [List.forall₂_map_right_iff, List.forall₂_same]
    intro text hm
    rw [← htexts] at hm
    obtain ⟨p, hplugin, ha⟩ := List.mem_filterMap.1 hm
    rw [additions_of_standard (hp p hplugin) ha]
    exact hcontinues
  have heq := SchemaDocument.parse?_intercalate hdocument hcontinue hwhole
  subst heq
  refine Schema.grows_of_ofDocument (fun d hd => ?_) hs hbigger
  obtain ⟨definitions, hm, hd⟩ := List.mem_flatten.1 hd
  obtain ⟨_, -, rfl⟩ := List.mem_map.1 hm
  exact hadditions d hd

end GraphGen
