/-
The names in shapes.

Response keys come from selections; types, fields and the values of enums have the names that the schema gives them. So names of
the syntax stay such in the shapes of a result, at every depth.

- `Schema.Named`: the types, the fields and the values of enums have names of the syntax.
- `TypeShape.Named`: so have the types, keys and fields of a shape and of all shapes in it.

Main result:
- `named_of_shapesUpTo`: shapes are named when the schema is, and all response keys are names.
-/
import GraphGen.Proofs.Shape.EveryField
import GraphGen.Proofs.Shape.Terms
import GraphGen.Proofs.Shape.Widening

namespace GraphGen

/-! ## Named schemas and shapes -/

/-- the type, its fields and its enum values have names of the syntax -/
structure NamedType.Named (type : NamedType) : Prop where
  own : Token.isName type.name = true
  fields : ∀ field ∈ type.fields.values, Token.isName field.name = true
  values : ∀ value ∈ type.enumValues, Token.isName value.name = true

/-- whether these are names of the syntax is computed -/
instance (type : NamedType) : Decidable type.Named :=
  decidable_of_iff (Token.isName type.name = true ∧ (∀ field ∈ type.fields.values, Token.isName field.name = true) ∧
    ∀ value ∈ type.enumValues, Token.isName value.name = true)
    ⟨fun h => ⟨h.1, h.2.1, h.2.2⟩, fun h => ⟨h.own, h.fields, h.values⟩⟩

/-- all types are named -/
def Schema.Named (schema : Schema) : Prop :=
  ∀ type ∈ schema.types.values, type.Named

mutual

/-- the type and the fields of the shape are named, at any depth -/
inductive TypeShape.Named : TypeShape → Prop where
  | mk {type : String} {fields : List ShapeField} (ht : Token.isName type = true)
      (hf : ∀ field ∈ fields, ShapeField.Named field) : TypeShape.Named (.mk type fields)

/-- key, field and type names are names of the syntax, and nested shapes are named -/
inductive ShapeField.Named : ShapeField → Prop where
  | typename {key : String} {names : List String} {optional : Bool} (hk : Token.isName key = true)
      (hn : ∀ name ∈ names, Token.isName name = true) : ShapeField.Named (.typename key names optional)
  | leaf {key : String} {field : Field} (hk : Token.isName key = true) (hf : Token.isName field.name = true) :
      ShapeField.Named (.leaf key field)
  | link {key : String} {field : Field} {shapes : List TypeShape} (hk : Token.isName key = true)
      (hs : ∀ shape ∈ shapes, TypeShape.Named shape) : ShapeField.Named (.link key field shapes)

end

/-- whether the response key is a name of the syntax -/
def namedKey (key _name : String) : Bool :=
  Token.isName key

namespace ShapeContext

variable {ctx : ShapeContext} {document : SchemaDocument}

/-! ## Names through resolving -/

theorem isName_of_knows (hs : Schema.ofDocument document = .ok ctx.schema) (hn : ctx.schema.Named) {name : String}
    (hk : ctx.schema.Knows name) : Token.isName name = true := by
  obtain ⟨type, ht⟩ := hk
  rw [← Schema.name_eq hs ht]
  exact (hn type (Schema.mem_values_of_type? ht)).own

/-- the type name of a value is a name -/
theorem isName_of_typenames (hs : Schema.ofDocument document = .ok ctx.schema) (hn : ctx.schema.Named) {concrete : String}
    (hk : ctx.schema.Knows concrete) : ∀ name ∈ ctx.typenames concrete, Token.isName name = true := by
  intro name hm
  unfold typenames at hm
  dsimp only at hm
  have hown : ∀ name ∈ [concrete], Token.isName name = true := by
    intro name hm
    rw [List.mem_singleton.1 hm]
    exact isName_of_knows hs hn hk
  split at hm
  · split at hm
    · exact hown name hm
    · exact isName_of_knows hs hn (knows_of_mem_possibleTypes hs hm)
  · exact hown name hm

/-- the type name that is added in front is named -/
theorem named_of_implicitTypename (hs : Schema.ofDocument document = .ok ctx.schema) (hn : ctx.schema.Named)
    {concrete : String} (hk : ctx.schema.Knows concrete) (collected : Table Slot) :
    ∀ field ∈ ctx.implicitTypename concrete collected, field.Named := by
  intro field hm
  unfold implicitTypename at hm
  dsimp only at hm
  split at hm
  · cases hm
  · rw [List.mem_singleton.1 hm]
    exact .typename (by decide) (isName_of_typenames hs hn hk)

/-- **A level with named keys** has named shapes when those of its links are. -/
theorem named_of_shapeResult (hs : Schema.ofDocument document = .ok ctx.schema) (hn : ctx.schema.Named)
    {descend : String → List TaggedSet → Except Error (List TypeShape)} (parent : String) {sets : List TaggedSet}
    (hsets : ctx.EveryField namedKey sets)
    (hd : ∀ child shapes, ctx.Calls child (parent, sets) → descend child.1 child.2 = .ok shapes →
      ∀ shape ∈ shapes, shape.Named)
    {concrete : String} (hk : ctx.schema.Knows concrete) {shape : TypeShape}
    (h : ctx.shapeResult descend sets concrete = .ok shape) : shape.Named := by
  obtain ⟨htype, collected, selected, hg, hf, hfields⟩ := shapeResult_ok h
  obtain ⟨type, fields⟩ := shape
  obtain rfl : type = concrete := htype
  obtain rfl : fields = ctx.implicitTypename type collected ++ selected := hfields
  refine .mk (isName_of_knows hs hn hk) fun field hm => ?_
  rcases List.mem_append.1 hm with hm | hm
  · exact named_of_implicitTypename hs hn hk collected field hm
  · obtain ⟨⟨key, slot⟩, hentry, hfield⟩ := exists_of_mem_mapM hf _ hm
    obtain ⟨_, hkey⟩ := hsets.of_key hg hentry
    unfold fieldResult at hfield
    split at hfield
    · cases hfield
      exact .typename hkey (isName_of_typenames hs hn hk)
    · rename_i leaf hv
      cases hfield
      obtain ⟨found, ht, hmem⟩ := hasField_of_gather hg hentry hv
      exact .leaf hkey ((hn found (Schema.mem_values_of_type? ht)).fields _ hmem)
    · rename_i link links hv
      obtain ⟨shapes, hnested, rfl⟩ := map_eq_ok_iff.1 hfield
      exact .link hkey (hd (link.type.name, links) shapes ⟨type, collected, key, slot, link, hg, hentry, hv, rfl⟩ hnested)

/-- **Shapes are named** when the schema is, and all response keys are names. -/
theorem named_of_shapesUpTo (hs : Schema.ofDocument document = .ok ctx.schema) (hn : ctx.schema.Named) {fuel : Nat}
    {parent : String} {sets : List TaggedSet} (hsets : ctx.EveryField namedKey sets) {shapes : List TypeShape}
    (hr : (ctx.shapesUpTo fuel parent sets).result = .ok shapes) : ∀ shape ∈ shapes, shape.Named := by
  induction fuel generalizing parent sets shapes with
  | zero => cases hr
  | succ fuel ih =>
    intro shape hm
    rw [result_shapesUpTo_succ] at hr
    obtain ⟨concretes, hconcretes, hshapes⟩ := bind_eq_ok_iff.1 hr
    obtain ⟨concrete, hc, hshape⟩ := exists_of_mem_mapM hshapes shape hm
    refine named_of_shapeResult hs hn parent hsets (fun child nested hcall hnested => ?_)
      (knows_of_shapeTypes hs hconcretes concrete hc) hshape
    exact ih (hsets.of_calls hcall) hnested

end ShapeContext

end GraphGen
