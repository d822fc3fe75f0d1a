/-
When documents have types and constants.

- `succeeds_render_iff`: documents have types when all that fragments and operations select has shapes, and the types of
  variables are known.
- `succeeds_constants_iff`: documents have constants when the spreads in fragments and named operations are of fragments that
  are there. In the modes that carry fragments along, all fragments that are reached are needed; but each of them has a
  constant of its own, so that it comes to the same.
-/
import GraphGen.Project.Check
import GraphGen.Proofs.Fragments.Closure
import GraphGen.Proofs.Shape.Widening
import GraphGen.Targets.DocumentConstants
import GraphGen.Targets.OperationTypes

namespace GraphGen

/-! ## Types of documents -/

/-- the selections have shapes on the type -/
def Selects (schema : Schema) (fragments : FragmentIndex) (parent : String) (selections : SelectionSet) : Prop :=
  Succeeds (ShapeContext.resolve ⟨schema, fragments, .plain⟩ parent [selections]).result

/-- an operation resolves when there is a root type of its kind, and its selections have shapes there -/
theorem succeeds_resolveOperation_iff {schema : Schema} {fragments : FragmentIndex} {op : Operation} :
    Succeeds (resolveOperation schema fragments op) ↔
      ∃ root, schema.rootName? op.kind = some root ∧ Selects schema fragments root op.selections := by
  unfold resolveOperation
  cases schema.rootName? op.kind with
  | none => exact iff_of_false (not_succeeds_error _) (by simp)
  | some root =>
    refine succeeds_map_iff.trans ⟨fun h => ⟨root, rfl, h⟩, ?_⟩
    rintro ⟨_, ⟨⟩, h⟩
    exact h

/-- the type of the variable is known -/
def KnowsVariable (schema : Schema) (v : VariableDefinition) : Prop :=
  schema.Knows (WrappedType.ofExpr v.type).name

namespace OperationTypes.Setting

variable (setting : Setting)

theorem succeeds_shapeType_iff (parent : String) (selections : SelectionSet) :
    Succeeds (setting.shapeType parent selections) ↔
      Selects setting.target.schema setting.fragments parent selections := by
  have halike : ShapeContext.Alike ⟨setting.target.schema, setting.fragments, .plain⟩
      ⟨setting.target.schema, setting.fragments, setting.target.options⟩ := ShapeContext.alike_of_eq rfl rfl
  exact (succeeds_bind_pure_iff fun _ => succeeds_ok _).trans (halike.succeeds_resolve parent [selections])

theorem succeeds_fragmentDeclaration_iff (fragment : Fragment) :
    Succeeds (setting.fragmentDeclaration fragment) ↔
      Selects setting.target.schema setting.fragments fragment.condition fragment.selections :=
  (succeeds_bind_pure_iff fun _ => succeeds_ok _).trans (setting.succeeds_shapeType_iff _ _)

theorem succeeds_variableProperty_iff (v : VariableDefinition) :
    Succeeds (setting.variableProperty v) ↔ KnowsVariable setting.target.schema v := by
  refine (succeeds_bind_pure_iff fun _ => succeeds_ok _).trans ?_
  unfold KnowsVariable Schema.Knows Schema.requireType
  cases setting.target.schema.type? (WrappedType.ofExpr v.type).name with
  | none => exact iff_of_false (not_succeeds_error _) (by simp)
  | some type => exact iff_of_true ⟨_, rfl⟩ ⟨type, rfl⟩

theorem succeeds_variablesType_iff (declared : List VariableDefinition) :
    Succeeds (setting.variablesType declared) ↔ ∀ v ∈ declared, KnowsVariable setting.target.schema v := by
  refine (succeeds_bind_pure_iff fun _ => succeeds_ok _).trans (succeeds_mapM_iff.trans ?_)
  exact forall₂_congr fun v _ => setting.succeeds_variableProperty_iff v

theorem succeeds_operationDeclarations_iff (base : String) (op : Operation) :
    Succeeds (setting.operationDeclarations base op) ↔
      (∀ v ∈ op.variableDefinitions, KnowsVariable setting.target.schema v) ∧
        Succeeds (resolveOperation setting.target.schema setting.fragments op) := by
  have hlater : ∀ root, Succeeds (do
        let declared ← setting.variablesType op.variableDefinitions
        let result ← setting.shapeType root op.selections
        pure [setting.declare (base ++ "Variables") declared, setting.declare base result]) ↔
      (∀ v ∈ op.variableDefinitions, KnowsVariable setting.target.schema v) ∧
        Selects setting.target.schema setting.fragments root op.selections := by
    intro root
    rw [← succeeds_variablesType_iff, ← succeeds_shapeType_iff]
    exact succeeds_bind_and_iff fun _ => succeeds_bind_pure_iff fun _ => succeeds_ok _
  rw [succeeds_resolveOperation_iff, operationDeclarations, rootName]
  cases setting.target.schema.rootName? op.kind with
  | none => exact iff_of_false (not_succeeds_error _) (by simp)
  | some root =>
    refine (hlater root).trans (and_congr_right fun _ => ⟨fun h => ⟨root, rfl, h⟩, ?_⟩)
    rintro ⟨_, ⟨⟩, h⟩
    exact h

end OperationTypes.Setting

/-- the operations and fragments of a document can be given types -/
structure Typed (schema : Schema) (fragments : FragmentIndex) (source : LocatedDocument) : Prop where
  fragmentShapes : ∀ fragment ∈ source.fragments, Selects schema fragments fragment.condition fragment.selections
  variableTypes : ∀ op ∈ source.operations, ∀ v ∈ op.variableDefinitions, KnowsVariable schema v
  operationShapes : ∀ op ∈ source.operations, Succeeds (resolveOperation schema fragments op)

namespace OperationTypes

/-- every operation is named -/
theorem map_snd_nameOperations (dedupe : Bool) (before : Nat) (operations : List Operation) :
    (nameOperations dedupe before operations).map Prod.snd = operations := by
  induction operations generalizing before with
  | nil => rfl
  | cons op rest ih => rw [nameOperations, List.map_cons, ih]

theorem Setting.succeeds_declarations_iff (setting : Setting) (documents : List LocatedDocument) :
    Succeeds (setting.declarations documents) ↔
      ∀ source ∈ documents, Typed setting.target.schema setting.fragments source := by
  unfold declarations
  generalize 0 = before
  induction documents generalizing before with
  | nil => exact iff_of_true ⟨_, rfl⟩ (by simp)
  | cons source rest ih =>
    rw [declarationsFrom, List.forall_mem_cons]
    refine (succeeds_bind_and_iff fun fragments => (succeeds_bind_and_iff fun operations =>
      (succeeds_bind_pure_iff fun _ => succeeds_ok _).trans (ih _))).trans ?_
    rw [succeeds_mapM_iff, succeeds_mapM_iff, ← and_assoc]
    refine and_congr_left fun _ => ?_
    simp only [succeeds_fragmentDeclaration_iff, succeeds_operationDeclarations_iff]
    have hnamed := map_snd_nameOperations setting.options.dedupeSuffix before source.operations
    constructor
    · rintro ⟨hfragments, hoperations⟩
      have hpair : ∀ op ∈ source.operations,
          ∃ pair ∈ nameOperations setting.options.dedupeSuffix before source.operations, pair.2 = op :=
        fun op ho => List.mem_map.1 (hnamed.symm ▸ ho)
      refine ⟨hfragments, fun op ho => ?_, fun op ho => ?_⟩
      · obtain ⟨pair, hp, rfl⟩ := hpair op ho
        exact (hoperations pair hp).1
      · obtain ⟨pair, hp, rfl⟩ := hpair op ho
        exact (hoperations pair hp).2
    · rintro ⟨hfragments, hvariables, hoperations⟩
      refine ⟨hfragments, fun pair hp => ?_⟩
      have ho : pair.2 ∈ source.operations := hnamed ▸ List.mem_map_of_mem hp
      exact ⟨hvariables _ ho, hoperations _ ho⟩

/-- **When documents have types.** -/
theorem succeeds_render_iff (setting : Setting) (documents : List LocatedDocument) :
    Succeeds (render setting documents) ↔ ∀ source ∈ documents, Typed setting.target.schema setting.fragments source :=
  (succeeds_bind_pure_iff fun _ => succeeds_ok _).trans (setting.succeeds_declarations_iff documents)

end OperationTypes

/-! ## Constants -/

/-- every spread in a fragment or in a named operation is of a fragment that is there -/
structure SpreadsKnown (fragments : FragmentIndex) (source : LocatedDocument) : Prop where
  inFragments : ∀ fragment ∈ source.fragments, ∀ name ∈ fragment.selections.spreads, fragments.Known name
  inNamed : ∀ op ∈ source.operations, op.name.isSome = true → ∀ name ∈ op.selections.spreads, fragments.Known name

namespace DocumentConstants

open FragmentIndex

variable {fragments : FragmentIndex}

theorem succeeds_require_iff {name : String} : Succeeds (fragments.require name) ↔ fragments.Known name := by
  rw [Known, Table.mem_keys_iff]
  unfold require FragmentIndex.get?
  cases fragments.entries.get? name with
  | none => exact iff_of_false (not_succeeds_error _) (by simp)
  | some entry => exact iff_of_true ⟨entry, rfl⟩ ⟨entry, rfl⟩

theorem succeeds_directFragments_iff (selections : SelectionSet) :
    Succeeds (directFragments fragments selections) ↔ ∀ name ∈ selections.spreads, fragments.Known name := by
  refine succeeds_foldlM_iff (fun met => ∀ name ∈ met, fragments.Known name) (fun met name hmet => ?_)
    (fun met name next hmet h => ?_) selections.spreads (by simp)
  · rw [← succeeds_require_iff]
    split
    · rename_i hm
      exact iff_of_true (succeeds_ok met) (succeeds_require_iff.2 (hmet name (List.contains_iff_mem.1 hm)))
    · split
      · rename_i entry hr
        exact iff_of_true (succeeds_ok _) ⟨entry, hr⟩
      · rename_i error hr
        rw [hr]
        exact iff_of_false (not_succeeds_error _) (not_succeeds_error _)
  · split at h
    · cases h
      exact hmet
    · split at h
      · rename_i entry hr
        cases h
        exact List.forall_mem_append.2 ⟨hmet, List.forall_mem_singleton.2 (succeeds_require_iff.1 ⟨entry, hr⟩)⟩
      · cases h

variable {documents : List LocatedDocument}

/-- the definitions that become constants spread known names when the documents do, and conversely -/
theorem definitions_spread_iff (config : DocumentConstantsOptions) :
    (∀ entry ∈ definitions config documents, ∀ name ∈ entry.2.selections.spreads, fragments.Known name) ↔
      ∀ source ∈ documents, SpreadsKnown fragments source := by
  unfold definitions
  rw [List.forall_mem_append, List.forall_mem_map]
  constructor
  · rintro ⟨hfragments, hnamed⟩ source hs
    refine ⟨fun fragment hf => hfragments fragment (List.mem_flatMap.2 ⟨source, hs, hf⟩), fun op ho hname => ?_⟩
    obtain ⟨opName, hn⟩ := Option.isSome_iff_exists.1 hname
    refine hnamed (config.documentName opName, .operation op) (List.mem_filterMap.2 ⟨op, ?_, ?_⟩)
    · exact List.mem_flatMap.2 ⟨source, hs, ho⟩
    · unfold namedOperation?
      rw [hn]
      rfl
  · intro h
    refine ⟨fun fragment hf => ?_, fun entry he => ?_⟩
    · obtain ⟨source, hs, hf⟩ := List.mem_flatMap.1 hf
      exact (h source hs).inFragments fragment hf
    · obtain ⟨op, ho, he⟩ := List.mem_filterMap.1 he
      obtain ⟨source, hs, ho⟩ := List.mem_flatMap.1 ho
      obtain ⟨opName, hn, rfl⟩ := Option.map_eq_some_iff.1 he
      exact (h source hs).inNamed op ho (by rw [hn]; rfl)

theorem succeeds_neededFragments_iff (selections : SelectionSet) :
    Succeeds (neededFragments fragments selections) ↔ Succeeds (fragments.closure selections) :=
  succeeds_bind_pure_iff fun _ => succeeds_ok _

/-- a constant shows that the spreads of its definition are known -/
theorem known_of_contentOf (h : FragmentIndex.ofDocuments documents [] = .ok fragments) {mode : DocumentMode}
    {selections : SelectionSet} (hc : Succeeds (contentOf mode fragments selections)) :
    ∀ name ∈ selections.spreads, fragments.Known name := by
  cases mode <;> have hc := succeeds_map_iff.1 hc
  case template | external | treeWithImports => exact (succeeds_directFragments_iff selections).1 hc
  case tree | text => exact known_of_closure h ((succeeds_neededFragments_iff selections).1 hc)

/-- a definition has a constant when it and all fragments spread known names -/
theorem succeeds_contentOf (h : FragmentIndex.ofDocuments documents [] = .ok fragments)
    (hk : ∀ entry ∈ keptFragments documents [], ∀ name ∈ entry.spreads, fragments.Known name) (mode : DocumentMode)
    {selections : SelectionSet} (hs : ∀ name ∈ selections.spreads, fragments.Known name) :
    Succeeds (contentOf mode fragments selections) := by
  cases mode <;> refine succeeds_map_iff.2 ?_
  case template | external | treeWithImports => exact (succeeds_directFragments_iff selections).2 hs
  case tree | text => exact (succeeds_neededFragments_iff selections).2 (succeeds_closure h hk hs)

/-- the fragments of an index without fragments from outside are those of the documents -/
theorem spreads_of_kept (hs : ∀ source ∈ documents, SpreadsKnown fragments source) :
    ∀ entry ∈ keptFragments documents [], ∀ name ∈ entry.spreads, fragments.Known name := by
  intro entry he
  rw [keptFragments, unclaimed, List.map_nil, List.append_nil] at he
  obtain ⟨source, hsource, he⟩ := List.mem_flatMap.1 he
  obtain ⟨fragment, hf, rfl⟩ := List.mem_map.1 he
  exact (hs source hsource).inFragments fragment hf

/-- **When documents have constants.** -/
theorem succeeds_constants_iff (config : DocumentConstantsOptions)
    (h : FragmentIndex.ofDocuments documents [] = .ok fragments) :
    Succeeds (constants config fragments documents) ↔ ∀ source ∈ documents, SpreadsKnown fragments source := by
  have hcontents : Succeeds (constants config fragments documents) ↔
      ∀ entry ∈ definitions config documents, Succeeds (contentOf config.mode fragments entry.2.selections) :=
    succeeds_mapM_iff.trans (forall₂_congr fun _ _ => succeeds_bind_pure_iff fun _ => succeeds_ok _)
  rw [hcontents]
  constructor
  · exact fun hc => (definitions_spread_iff config).1 fun entry he => known_of_contentOf h (hc entry he)
  · exact fun hs entry he =>
      succeeds_contentOf h (spreads_of_kept hs) config.mode ((definitions_spread_iff config).2 hs entry he)

end DocumentConstants

end GraphGen
