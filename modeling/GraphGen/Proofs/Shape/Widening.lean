/-
Selections that have shapes in two schemas.

Whether selections have shapes on a type depends on which types get a shape of their own and on what is collected on them. Two
contexts where this is the same are alike (`Alike`):
- `gather_same`, `specializes_same`: the walks are compared step by step, in parallel with their recursion, given that all
  conditions and fields are the same on a concrete type (`SameOn`).
- `alike_of_eq`: how type names and nullable fields are treated does not matter.
- `Widens.alike`: it does not matter either that the schema grows by scalars. Only types that were there get a shape of their
  own (`knows_of_shapeTypes`), and on these every condition holds as before.

Main result:
- `Alike.succeeds_resolve`: the same selections have shapes.
-/
import GraphGen.Proofs.Schema.Growth
import GraphGen.Proofs.Shape.CollectFields

namespace GraphGen

namespace ShapeContext

variable {ctx other : ShapeContext} {concrete : String}

/-! ## Collecting the same -/

/-- the contexts have the same fragments, and the same conditions and fields on a concrete type -/
structure SameOn (ctx other : ShapeContext) (concrete : String) : Prop where
  fragments : other.fragments = ctx.fragments
  condition : ∀ condition, other.conditionHolds concrete condition = ctx.conditionHolds concrete condition
  content : ∀ provenance name selections,
    other.fieldContent concrete provenance name selections = ctx.fieldContent concrete provenance name selections

mutual

theorem gatherSelection_same (h : SameOn ctx other concrete) {expand : String → Table Slot → Except Error (Table Slot)}
    {provenance : Provenance} : (selection : Selection) → (out : Table Slot) →
    gatherSelection other expand concrete provenance out selection =
      gatherSelection ctx expand concrete provenance out selection
  | .field aliasName name _ _ selections, out => by rw [gatherSelection, gatherSelection, h.content]
  | .inline condition _ selections, out => by
    have hcondition : other.conditionHolds concrete = ctx.conditionHolds concrete := funext h.condition
    rw [gatherSelection, gatherSelection, hcondition, gatherSelections_same h selections out]
  | .spread name _, out => by rw [gatherSelection, gatherSelection]

theorem gatherSelections_same (h : SameOn ctx other concrete) {expand : String → Table Slot → Except Error (Table Slot)}
    {provenance : Provenance} : (selections : List Selection) → (out : Table Slot) →
    gatherSelections other expand concrete provenance out selections =
      gatherSelections ctx expand concrete provenance out selections
  | [], out => by rw [gatherSelections, gatherSelections]
  | selection :: rest, out => by
    rw [gatherSelections, gatherSelections, gatherSelection_same h selection out]
    split
    · rfl
    · exact gatherSelections_same h rest _

end

theorem openFragment_same (h : other.fragments = ctx.fragments) (stack : List String) (name : String) :
    other.openFragment stack name = ctx.openFragment stack name := by
  unfold openFragment
  rw [h]

theorem gatherSet_same (h : SameOn ctx other concrete) (fuel : Nat) (stack : List String) (set : TaggedSet)
    (out : Table Slot) : other.gatherSet concrete fuel stack set out = ctx.gatherSet concrete fuel stack set out := by
  induction fuel generalizing stack set out with
  | zero => rfl
  | succ fuel ih =>
    rw [gatherSet, gatherSet, gatherSelections_same h]
    congr 1
    funext name out
    rw [openFragment_same h.fragments]
    split
    · rfl
    · rw [h.condition, ih]

/-- **The same is collected.** -/
theorem gather_same (h : SameOn ctx other concrete) (sets : List TaggedSet) :
    other.gather concrete sets = ctx.gather concrete sets := by
  unfold gather
  rw [h.fragments]
  congr 1
  funext out set
  exact gatherSet_same h _ _ set out

/-! ## The same types -/

theorem specializesSet_same (h : other.fragments = ctx.fragments) (parent : String) (fuel : Nat) (stack : List String)
    (selections : SelectionSet) :
    other.specializesSet parent fuel stack selections = ctx.specializesSet parent fuel stack selections := by
  induction fuel generalizing stack selections with
  | zero => rfl
  | succ fuel ih =>
    rw [specializesSet, specializesSet]
    congr 1
    funext name
    rw [openFragment_same h]
    split
    · rfl
    · rw [ih]

theorem specializes_same (h : other.fragments = ctx.fragments) (parent : String) (sets : List TaggedSet) :
    other.specializes parent sets = ctx.specializes parent sets := by
  induction sets with
  | nil => rfl
  | cons set rest ih => rw [specializes, specializes, h, specializesSet_same h, ih]

/-! ## Contexts that are alike -/

/-- the contexts give the same types a shape, and collect the same on them -/
structure Alike (ctx other : ShapeContext) : Prop where
  fragments : other.fragments = ctx.fragments
  types : ∀ parent sets concretes,
    other.shapeTypes parent sets = .ok concretes ↔ ctx.shapeTypes parent sets = .ok concretes
  gather : ∀ parent sets concretes, ctx.shapeTypes parent sets = .ok concretes → ∀ concrete ∈ concretes,
    other.gather concrete sets = ctx.gather concrete sets

theorem Alike.succeeds_shapesUpTo (h : ctx.Alike other) (fuel : Nat) (parent : String) (sets : List TaggedSet) :
    Succeeds (other.shapesUpTo fuel parent sets).result ↔ Succeeds (ctx.shapesUpTo fuel parent sets).result := by
  induction fuel generalizing parent sets with
  | zero => exact iff_of_false (not_succeeds_error _) (not_succeeds_error _)
  | succ fuel ih =>
    rw [succeeds_shapesUpTo_iff, succeeds_shapesUpTo_iff]
    refine exists_congr fun concretes => ?_
    rw [h.types]
    refine and_congr_right fun hconcretes => forall₂_congr fun concrete hm => exists_congr fun collected => ?_
    rw [h.gather parent sets concretes hconcretes concrete hm]
    exact and_congr_right fun _ => forall₂_congr fun _ _ => forall₂_congr fun field links => imp_congr_right fun _ =>
      ih field.type.name links

/-- **The same selections have shapes.** -/
theorem Alike.succeeds_resolve (h : ctx.Alike other) (parent : String) (sets : List SelectionSet) :
    Succeeds (other.resolve parent sets).result ↔ Succeeds (ctx.resolve parent sets).result := by
  unfold resolve resolveTagged levels
  rw [h.fragments]
  exact h.succeeds_shapesUpTo _ parent _

/-- how type names and nullable fields are treated does not matter -/
theorem alike_of_eq (hs : other.schema = ctx.schema) (hf : other.fragments = ctx.fragments) : ctx.Alike other where
  fragments := hf
  types parent sets concretes := by
    unfold shapeTypes
    rw [hs, specializes_same hf]
  gather parent sets concretes _ concrete _ := by
    refine gather_same ⟨hf, fun condition => ?_, fun provenance name selections => ?_⟩ sets
    · unfold conditionHolds
      rw [hs]
    · unfold fieldContent
      rw [hs]

/-! ## A schema that grew -/

/-- the other context has the same fragments, and a schema that grew -/
structure Widens (ctx other : ShapeContext) : Prop where
  fragments : other.fragments = ctx.fragments
  schema : ctx.schema.Grows other.schema

variable {document : SchemaDocument}

/-- on a type that was there, conditions and fields are what they were -/
theorem Widens.sameOn (h : ctx.Widens other) (hs : Schema.ofDocument document = .ok ctx.schema)
    (hk : ctx.schema.Knows concrete) : SameOn ctx other concrete where
  fragments := h.fragments
  condition condition := by
    obtain ⟨type, ht⟩ := hk
    unfold conditionHolds
    rw [h.schema.fits_eq ht, h.schema.possibleTypes_eq]
  content provenance name selections := by
    obtain ⟨type, ht⟩ := hk
    unfold fieldContent
    rw [h.schema.requireField_eq ht]
    split
    · rfl
    · cases hf : ctx.schema.requireField concrete name with
      | error error => rfl
      | ok field =>
        obtain ⟨fieldType, hft⟩ := Schema.knows_of_requireField hs hf
        dsimp only
        rw [h.schema.isLeaf_eq hft]

theorem Widens.shapeTypes_eq (h : ctx.Widens other) {parent : String} (hk : ctx.schema.Knows parent)
    (sets : List TaggedSet) : other.shapeTypes parent sets = ctx.shapeTypes parent sets := by
  obtain ⟨type, ht⟩ := hk
  unfold shapeTypes
  rw [h.schema.requireType_eq ht, h.schema.possibleTypes_eq, specializes_same h.fragments]

theorem knows_of_mem_possibleTypes (hs : Schema.ofDocument document = .ok ctx.schema) {name : String}
    (h : concrete ∈ ctx.schema.possibleTypes name) : ctx.schema.Knows concrete := by
  rcases Schema.applies_of_mem_possibleTypes hs h with rfl | ⟨-, type, ht, -⟩ | ⟨-, type, ht, hm⟩
  · unfold Schema.possibleTypes at h
    split at h
    · cases h
    · exact ⟨_, by assumption⟩
  · exact ⟨type, ht⟩
  · exact Schema.knows_of_kind? (Schema.object_of_mem hs ht hm)

/-- every type with a shape of its own was there -/
theorem knows_of_shapeTypes (hs : Schema.ofDocument document = .ok ctx.schema) {parent : String} {sets : List TaggedSet}
    {concretes : List String} (h : ctx.shapeTypes parent sets = .ok concretes) :
    ∀ concrete ∈ concretes, ctx.schema.Knows concrete := by
  have hpossible : ∀ concrete ∈ ctx.schema.possibleTypes parent, ctx.schema.Knows concrete :=
    fun concrete hm => knows_of_mem_possibleTypes hs hm
  unfold shapeTypes Schema.requireType at h
  cases ht : ctx.schema.type? parent with
  | none =>
    rw [ht] at h
    cases h
  | some type =>
    have hself : ∀ concrete ∈ [type.name], ctx.schema.Knows concrete := by
      intro concrete hm
      rw [List.mem_singleton.1 hm, Schema.name_eq hs ht]
      exact ⟨type, ht⟩
    rw [ht] at h
    dsimp only at h
    cases hk : type.kind <;> rw [hk] at h <;> dsimp only at h
    case object =>
      cases h
      exact hself
    case union =>
      cases h
      exact hpossible
    case interface =>
      split at h
      · cases h
        exact hself
      · split at h
        · cases h
        · cases h
          split
          · exact hpossible
          · exact hself
    all_goals cases h

/-- an unknown type has no shapes -/
theorem not_shapeTypes_of_unknown {parent : String} (h : ctx.schema.type? parent = none) (sets : List TaggedSet) :
    ¬ Succeeds (ctx.shapeTypes parent sets) := by
  rintro ⟨concretes, hc⟩
  unfold shapeTypes Schema.requireType at hc
  rw [h] at hc
  cases hc

/-- a scalar has no shapes -/
theorem not_shapeTypes_of_scalar {parent : String} {type : NamedType} (ht : ctx.schema.type? parent = some type)
    (hc : type.content = .scalar) (sets : List TaggedSet) : ¬ Succeeds (ctx.shapeTypes parent sets) := by
  rintro ⟨concretes, h⟩
  unfold shapeTypes Schema.requireType at h
  rw [ht] at h
  dsimp only at h
  rw [NamedType.kind, hc] at h
  cases h

/-- **A schema that grew by scalars** gives the same types a shape, and collects the same on them. -/
theorem Widens.alike (h : ctx.Widens other) (hs : Schema.ofDocument document = .ok ctx.schema) : ctx.Alike other where
  fragments := h.fragments
  types parent sets concretes := by
    cases ht : ctx.schema.type? parent with
    | some type => rw [h.shapeTypes_eq ⟨type, ht⟩]
    | none =>
      refine iff_of_false (fun hc => ?_) fun hc => not_shapeTypes_of_unknown ht sets ⟨_, hc⟩
      rcases h.schema.type?_eq parent with he | ⟨-, type, hbig, hscalar⟩
      · exact not_shapeTypes_of_unknown (he.trans ht) sets ⟨_, hc⟩
      · exact not_shapeTypes_of_scalar hbig hscalar sets ⟨_, hc⟩
  gather parent sets concretes hconcretes concrete hm :=
    gather_same (h.sameOn hs (knows_of_shapeTypes hs hconcretes concrete hm)) sets

end ShapeContext

end GraphGen
