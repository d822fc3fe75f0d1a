/-
The types that resolving writes in Flow.

Every text that resolving and writing go through is an operand of the question mark or a bare union of literals, so that the
scanner that looks for operators is right about each of them.

- `Wrapping.stages`: the texts between a named type and the type in all its wrappers.
- `Target.WritesOn`: the types that one shape is written with, down to the literals.
- `Target.Builds`: the types that are written for selection sets on a type: those of the shapes at this level, and of every level
  that is reached over links, whether or not all of them have shapes. In particular those that the shapes of a result are written
  with, at any depth (`builds_of_within`).
- `Target.InFlow`: a target of Flow for a schema with names of the syntax, where scalars and type names become operands.
- `FlatShape.Written`: keys have names, and nested types are written. What such a shape is written with is written too
  (`isWritten_of_writesOn`), and a tree with names is flattened to one (`written_flatten`).
- `isWritten_of_builds`: so whatever is built is an operand or a bare union of literals, by induction on the levels.

Main result:
- `nullable_covers_type`: whatever type is built, its brackets are balanced, the scanner finds an operator exactly in bare unions
  of literals, and with parentheses around these the question mark covers the type.
-/
import GraphGen.Proofs.Dialect.Operands
import GraphGen.Proofs.Shape.NamedShapes

namespace GraphGen

open Dialect

/-! ## What is built -/

namespace Wrapping

/-- the type, and its lists without and with their marks -/
def listStages (encoder : Encoder) (type : String) : List Bool → List String
  | [] => [type]
  | required :: rest => type :: encoder.list type :: listStages encoder (mark encoder required (encoder.list type)) rest

/-- the texts that a named type goes through on its way into the wrappers -/
def stages (w : Wrapping) (base : String) (encoder : Encoder) : List String :=
  base :: listStages encoder (mark encoder w.innerRequired base) w.lists

/-- what lists and marks preserve holds on the way -/
theorem forall_listStages {encoder : Encoder} {P : String → Prop} (hlist : ∀ type, P type → P (encoder.list type))
    (hmark : ∀ required type, P type → P (mark encoder required type)) {type : String} (h : P type) (lists : List Bool) :
    ∀ text ∈ listStages encoder type lists, P text := by
  induction lists generalizing type with
  | nil => simpa [listStages] using h
  | cons required rest ih =>
    rw [listStages, List.forall_mem_cons, List.forall_mem_cons]
    exact ⟨h, hlist _ h, ih (hmark _ _ (hlist _ h))⟩

theorem forall_stages {encoder : Encoder} {P : String → Prop} (hlist : ∀ type, P type → P (encoder.list type))
    (hmark : ∀ required type, P type → P (mark encoder required type)) {base : String} (h : P base) (w : Wrapping) :
    ∀ text ∈ w.stages base encoder, P text :=
  List.forall_mem_cons.2 ⟨h, forall_listStages hlist hmark (hmark _ _ h) w.lists⟩

theorem foldl_mem_listStages (encoder : Encoder) (type : String) (lists : List Bool) :
    lists.foldl (fun type required => mark encoder required (encoder.list type)) type ∈ listStages encoder type lists := by
  induction lists generalizing type with
  | nil => exact List.mem_singleton_self type
  | cons required rest ih => exact List.mem_cons_of_mem _ (List.mem_cons_of_mem _ (ih _))

/-- the type in all its wrappers is the last of them -/
theorem wrap_mem_stages (w : Wrapping) (base : String) (encoder : Encoder) : w.wrap base encoder ∈ w.stages base encoder :=
  List.mem_cons_of_mem _ (foldl_mem_listStages encoder _ w.lists)

end Wrapping

namespace Target

/-- the parts that a shape is written as -/
def parts (target : Target) : Strategy → FlatShape → List ShapePart
  | .pick, shape => target.pickParts shape
  | .inline, shape => [target.inlinePart shape]

/-- the wrappers that are written around the type of a field: under an optional key that admits `null`, without the
outermost mark -/
def writtenWrapping (target : Target) : Strategy → WrappedType → Wrapping
  | .pick, type => type.wrapping
  | .inline, type =>
    if target.isOptional type && target.dialect.nullUnderOptionalKey then type.wrapping.requireOuter else type.wrapping

/-- the texts that the type of a field goes through -/
def fieldStages (target : Target) : Strategy → FlatField → List String
  | _, .typename _ literal _ => [literal]
  | .pick, .leaf _ _ => []
  | .inline, .leaf _ field =>
    (target.writtenWrapping .inline field.type).stages (target.writtenLeaf field.type.name) target.dialect.encoder
  | strategy, .link _ field shape => (target.writtenWrapping strategy field.type).stages shape target.dialect.encoder

variable {target : Target}

/-- the type of a member is the last of the stages -/
theorem inlineField_type_mem (field : FlatField) : (target.inlineField field).type ∈ target.fieldStages .inline field := by
  have hproperty : ∀ (key base : String) (type : WrappedType), (target.inlineProperty key type base).type ∈
      (target.writtenWrapping .inline type).stages base target.dialect.encoder := by
    intro key base type
    dsimp only [inlineProperty, writtenWrapping]
    split
    · exact Wrapping.wrap_mem_stages _ _ _
    · exact Wrapping.wrap_mem_stages _ _ _
  cases field with
  | typename key literal optional => exact List.mem_singleton_self _
  | leaf key field => exact hproperty _ _ _
  | link key field shape => exact hproperty _ _ _

theorem linkField?_type_mem {field : FlatField} {member : ObjectMember} (h : target.linkField? field = some member) :
    member.type ∈ target.fieldStages .pick field := by
  cases field <;> cases h
  exact Wrapping.wrap_mem_stages _ _ _

/-- the types that a shape with written nested shapes is written with -/
inductive WritesOn (target : Target) (strategy : Strategy) (shape : FlatShape) : String → Prop where
  | whole : WritesOn target strategy shape (target.renderFlat strategy shape)
  | part {part : ShapePart} (hp : part ∈ target.parts strategy shape) :
      WritesOn target strategy shape (part.write target.dialect)
  | member {members : List ObjectMember} {member : ObjectMember} (hp : .object members ∈ target.parts strategy shape)
      (hm : member ∈ members) : WritesOn target strategy shape member.type
  | stage {field : FlatField} {text : String} (hf : field ∈ shape.fields) (hs : text ∈ target.fieldStages strategy field) :
      WritesOn target strategy shape text
  | value {key : String} {field : Field} {type : NamedType} {value : EnumValue} (hf : .leaf key field ∈ shape.fields)
      (ht : target.schema.type? field.type.name = some type) (hv : value ∈ type.enumValues) :
      WritesOn target strategy shape (target.dialect.stringLiteral value.name)

/-- the types that are written for selection sets on a type, however many levels deep -/
inductive Builds (target : Target) (fragments : FragmentIndex) (strategy : Strategy) :
    String × List TaggedSet → String → Prop where
  /-- the name of a type that gets a shape, or of one of the types that an interface stands for -/
  | literal {level : String × List TaggedSet} {concretes : List String} {concrete name : String}
      (hc : (target.context fragments).shapeTypes level.1 level.2 = .ok concretes) (hm : concrete ∈ concretes)
      (hn : name ∈ (target.context fragments).typenames concrete) :
      Builds target fragments strategy level (target.dialect.stringLiteral name)
  /-- all these names -/
  | typename {level : String × List TaggedSet} {concretes : List String} {concrete : String}
      (hc : (target.context fragments).shapeTypes level.1 level.2 = .ok concretes) (hm : concrete ∈ concretes) :
      Builds target fragments strategy level (target.literals ((target.context fragments).typenames concrete))
  /-- what a shape is written with -/
  | shape {level : String × List TaggedSet} {fuel : Nat} {shapes : List TypeShape} {shape : TypeShape} {text : String}
      (hr : ((target.context fragments).shapesUpTo fuel level.1 level.2).result = .ok shapes) (hm : shape ∈ shapes)
      (hw : target.WritesOn strategy (target.flatten strategy shape) text) : Builds target fragments strategy level text
  /-- all shapes together -/
  | union {level : String × List TaggedSet} {fuel : Nat} {shapes : List TypeShape}
      (hr : ((target.context fragments).shapesUpTo fuel level.1 level.2).result = .ok shapes) :
      Builds target fragments strategy level (target.renderUnion strategy shapes)
  /-- what is built for a link that is collected -/
  | link {level child : String × List TaggedSet} {text : String} (hc : (target.context fragments).Calls child level)
      (hb : Builds target fragments strategy child text) : Builds target fragments strategy level text

/-- **Every shape of a result** is written with built types, at any depth. -/
theorem builds_of_within {fragments : FragmentIndex} {strategy : Strategy} {fuel : Nat} {parent : String}
    {sets : List TaggedSet} {shapes : List TypeShape}
    (hr : ((target.context fragments).shapesUpTo fuel parent sets).result = .ok shapes) {outer inner : TypeShape}
    (hm : outer ∈ shapes) (hw : inner.Within outer) {text : String}
    (ht : target.WritesOn strategy (target.flatten strategy inner) text) :
    target.Builds fragments strategy (parent, sets) text := by
  induction hw generalizing fuel parent sets shapes with
  | self => exact .shape hr hm ht
  | nested hl hb _ ih =>
    cases fuel with
    | zero => cases hr
    | succ fuel =>
      obtain ⟨concrete, hs⟩ := ShapeContext.exists_shapeResult hr hm
      obtain ⟨child, hcall, hchild⟩ := ShapeContext.calls_of_link parent hs hl
      exact .link hcall (ih hchild hb)

/-! ## Targets of Flow -/

/-- a target of Flow for a schema with names of the syntax, where scalars and names become operands -/
structure InFlow (target : Target) : Prop where
  dialect : ∃ exact readOnly, target.dialect = .flow exact readOnly
  schema : target.schema.Named
  scalars : ∀ name, Flow.Operand (target.scalarType name)
  types : ∀ name, Token.isName name = true → Flow.Operand (target.typeName name)

end Target

/-- the key is a name, and the type is written -/
structure ObjectMember.Written (member : ObjectMember) : Prop where
  key : Token.isName member.key = true
  type : Flow.IsWritten member.type

/-- so is every member of an object type, and fields are picked by names -/
def ShapePart.Written : ShapePart → Prop
  | object members => ∀ member ∈ members, member.Written
  | pick type names => Flow.Operand type ∧ ∀ name ∈ names, Token.isName name = true

/-- keys and fields have names, and nested types are written -/
def FlatField.Written : FlatField → Prop
  | typename key literal _ => Token.isName key = true ∧ Flow.IsWritten literal
  | leaf key field => Token.isName key = true ∧ Token.isName field.name = true
  | link key _ shape => Token.isName key = true ∧ Flow.Operand shape

/-- the type has a name, and all fields are written -/
structure FlatShape.Written (shape : FlatShape) : Prop where
  type : Token.isName shape.type = true
  fields : ∀ field ∈ shape.fields, field.Written

namespace Target

variable {target : Target} {strategy : Strategy}

namespace InFlow

/-! ## What the dialect writes -/

section

variable (h : target.InFlow)
include h

theorem writes : Flow.WritesOperands target.dialect := by
  obtain ⟨exact, readOnly, hd⟩ := h.dialect
  rw [hd]
  exact Flow.writesOperands exact readOnly

theorem isWritten_mark (required : Bool) {type : String} (ht : Flow.IsWritten type) :
    Flow.IsWritten (Wrapping.mark target.dialect.encoder required type) := by
  cases required
  · exact .inl (h.writes.nullable ht)
  · exact h.writes.required ht

/-- **Wrapping** keeps types written, at every stage. -/
theorem isWritten_stages {base : String} (hb : Flow.IsWritten base) (w : Wrapping) :
    ∀ text ∈ w.stages base target.dialect.encoder, Flow.IsWritten text :=
  Wrapping.forall_stages (P := Flow.IsWritten) (fun _ ht => .inl (h.writes.list ht))
    (fun required _ ht => h.isWritten_mark required ht) hb w

theorem operand_write {part : ShapePart} (hp : part.Written) : Flow.Operand (part.write target.dialect) := by
  cases part with
  | object members => exact h.writes.object fun member hm => ⟨(hp member hm).key, (hp member hm).type⟩
  | pick type names => exact h.writes.pick hp.1 hp.2

/-- the values of an enum have names -/
theorem isName_of_enumValue {name : String} {type : NamedType} {value : EnumValue}
    (ht : target.schema.type? name = some type) (hv : value ∈ type.enumValues) : Token.isName value.name = true :=
  (h.schema type (Schema.mem_values_of_type? ht)).values value hv

/-- a scalar is an operand, and an enum a literal or a union of them -/
theorem isWritten_writtenLeaf (name : String) : Flow.IsWritten (target.writtenLeaf name) := by
  unfold writtenLeaf
  split
  · rename_i type ht
    split
    · exact .inl (h.scalars name)
    · refine h.writes.literals fun text hm => ?_
      obtain ⟨value, hv, rfl⟩ := List.mem_map.1 hm
      exact h.isName_of_enumValue ht hv
  · exact .inl (h.scalars name)

/-- every stage of a written field is written -/
theorem isWritten_fieldStages {field : FlatField} (hf : field.Written) :
    ∀ text ∈ target.fieldStages strategy field, Flow.IsWritten text := by
  intro text hm
  cases field with
  | typename key literal optional =>
    simp only [fieldStages, List.mem_singleton] at hm
    rw [hm]
    exact hf.2
  | leaf key field =>
    cases strategy with
    | pick => cases hm
    | inline => exact h.isWritten_stages (h.isWritten_writtenLeaf _) _ text hm
  | link key field shape =>
    simp only [fieldStages] at hm
    exact h.isWritten_stages (.inl hf.2) _ text hm

end

/-! ## Picks -/

theorem written_objectPart {member? : FlatField → Option ObjectMember}
    (hmember : ∀ field, field.Written → ∀ member, member? field = some member → member.Written) {fields : List FlatField}
    (hf : ∀ field ∈ fields, field.Written) : ∀ part ∈ objectPart (fields.filterMap member?), part.Written := by
  intro part hp
  unfold objectPart at hp
  split at hp
  · cases hp
  · rw [List.mem_singleton.1 hp]
    intro member hm
    obtain ⟨field, hfield, heq⟩ := List.mem_filterMap.1 hm
    exact hmember field (hf field hfield) member heq

theorem written_typenameField? {field : FlatField} (hf : field.Written) (member : ObjectMember)
    (hm : typenameField? field = some member) : member.Written := by
  cases field <;> cases hm
  exact ⟨hf.1, hf.2⟩

theorem isName_of_pickedName? {field : FlatField} (hf : field.Written) {name : String} (hn : pickedName? field = some name) :
    Token.isName name = true := by
  cases field with
  | leaf key field =>
    simp only [pickedName?] at hn
    split at hn <;> cases hn
    exact hf.2
  | _ => cases hn

theorem written_pickPart {type : String} (ht : Flow.Operand type) {fields : List FlatField}
    (hf : ∀ field ∈ fields, field.Written) : ∀ part ∈ pickPart type (fields.filterMap pickedName?), part.Written := by
  intro part hp
  unfold pickPart at hp
  split at hp
  · cases hp
  · rw [List.mem_singleton.1 hp]
    refine ⟨ht, fun name hm => ?_⟩
    obtain ⟨field, hfield, heq⟩ := List.mem_filterMap.1 hm
    exact isName_of_pickedName? (hf field hfield) heq

section

variable (h : target.InFlow)
include h

theorem written_renamedField? {type : String} (ht : Flow.Operand type) {field : FlatField} (hf : field.Written)
    (member : ObjectMember) (hm : target.renamedField? type field = some member) : member.Written := by
  cases field with
  | leaf key field =>
    simp only [renamedField?] at hm
    split at hm <;> cases hm
    exact ⟨hf.1, .inl (h.writes.propertyType ht hf.2)⟩
  | _ => cases hm

theorem written_linkField? {field : FlatField} (hf : field.Written) (member : ObjectMember)
    (hm : target.linkField? field = some member) : member.Written := by
  refine ⟨?_, h.isWritten_fieldStages hf _ (linkField?_type_mem hm)⟩
  cases field <;> cases hm
  exact hf.1

theorem written_pickParts {shape : FlatShape} (hs : shape.Written) : ∀ part ∈ target.pickParts shape, part.Written := by
  have ht : Flow.Operand (target.typeName shape.type) := h.types _ hs.type
  intro part hp
  simp only [pickParts, List.mem_append] at hp
  rcases hp with ((hp | hp) | hp) | hp
  · exact written_objectPart (fun _ => written_typenameField?) hs.fields part hp
  · exact written_pickPart ht hs.fields part hp
  · exact written_objectPart (fun _ => h.written_renamedField? ht) hs.fields part hp
  · exact written_objectPart (fun _ => h.written_linkField?) hs.fields part hp

/-! ## Inlined types -/

theorem written_inlineField {field : FlatField} (hf : field.Written) : (target.inlineField field).Written := by
  refine ⟨?_, h.isWritten_fieldStages hf _ (inlineField_type_mem field)⟩
  cases field <;> exact hf.1

theorem written_inlinePart {shape : FlatShape} (hs : shape.Written) : (target.inlinePart shape).Written := by
  intro member hm
  obtain ⟨field, hf, rfl⟩ := List.mem_map.1 hm
  exact h.written_inlineField (hs.fields field hf)

/-! ## Shapes -/

theorem written_parts {shape : FlatShape} (hs : shape.Written) : ∀ part ∈ target.parts strategy shape, part.Written := by
  cases strategy with
  | pick => exact h.written_pickParts hs
  | inline =>
    intro part hp
    rw [List.mem_singleton.1 hp]
    exact h.written_inlinePart hs

/-- **The type of a shape** is an operand. -/
theorem operand_renderFlat {shape : FlatShape} (hs : shape.Written) : Flow.Operand (target.renderFlat strategy shape) := by
  cases strategy with
  | pick =>
    refine h.writes.intersection fun text hm => ?_
    obtain ⟨part, hp, rfl⟩ := List.mem_map.1 hm
    exact h.operand_write (h.written_pickParts hs part hp)
  | inline => exact h.operand_write (h.written_inlinePart hs)

/-- and what it is made of is written -/
theorem isWritten_of_writesOn {shape : FlatShape} (hs : shape.Written) {text : String}
    (hw : target.WritesOn strategy shape text) : Flow.IsWritten text := by
  cases hw with
  | whole => exact .inl (h.operand_renderFlat hs)
  | part hp => exact .inl (h.operand_write (h.written_parts hs _ hp))
  | member hp hm => exact (h.written_parts hs _ hp _ hm).type
  | stage hf hm => exact h.isWritten_fieldStages (hs.fields _ hf) text hm
  | value _ ht hv => exact .inl (h.writes.stringLiteral (h.isName_of_enumValue ht hv))

end

/-! ## Levels -/

mutual

/-- **A tree with names** is flattened to a written shape. -/
theorem written_flatten (h : target.InFlow) : (shape : TypeShape) → shape.Named → (target.flatten strategy shape).Written
  | .mk _ fields, .mk ht hf => by
    rw [flatten]
    exact ⟨ht, written_flattenFields h fields hf⟩

theorem operand_renderShapes (h : target.InFlow) : (shapes : List TypeShape) → (∀ shape ∈ shapes, shape.Named) →
    ∀ text ∈ target.renderShapes strategy shapes, Flow.Operand text
  | [], _ => by
    rw [renderShapes]
    exact nofun
  | shape :: rest, hn => by
    rw [List.forall_mem_cons] at hn
    rw [renderShapes, List.forall_mem_cons]
    exact ⟨h.operand_renderFlat (written_flatten h shape hn.1), operand_renderShapes h rest hn.2⟩

theorem written_flattenField (h : target.InFlow) : (field : ShapeField) → field.Named →
    (target.flattenField strategy field).Written
  | .typename _ _ _, .typename hk hn => by
    rw [flattenField]
    exact ⟨hk, h.writes.literals hn⟩
  | .leaf _ _, .leaf hk hf => by
    rw [flattenField]
    exact ⟨hk, hf⟩
  | .link _ _ shapes, .link hk hs => by
    rw [flattenField]
    exact ⟨hk, h.writes.union (operand_renderShapes h shapes hs)⟩

theorem written_flattenFields (h : target.InFlow) : (fields : List ShapeField) → (∀ field ∈ fields, field.Named) →
    ∀ field ∈ target.flattenFields strategy fields, field.Written
  | [], _ => by
    rw [flattenFields]
    exact nofun
  | field :: rest, hn => by
    rw [List.forall_mem_cons] at hn
    rw [flattenFields, List.forall_mem_cons]
    exact ⟨written_flattenField h field hn.1, written_flattenFields h rest hn.2⟩

end

variable {document : SchemaDocument} {fragments : FragmentIndex}

/-- **Whatever is built is written**, by induction on the levels: all keys on them are names. -/
theorem isWritten_of_builds (h : target.InFlow) (hs : Schema.ofDocument document = .ok target.schema)
    {level : String × List TaggedSet} {text : String} (hb : target.Builds fragments strategy level text)
    (hkeys : (target.context fragments).EveryField namedKey level.2) : Flow.IsWritten text := by
  -- the names of types that get shapes
  have htypenames : ∀ {level : String × List TaggedSet} {concretes : List String} {concrete : String},
      (target.context fragments).shapeTypes level.1 level.2 = .ok concretes → concrete ∈ concretes →
      ∀ name ∈ (target.context fragments).typenames concrete, Token.isName name = true :=
    fun hc hm => ShapeContext.isName_of_typenames hs h.schema (ShapeContext.knows_of_shapeTypes hs hc _ hm)
  induction hb with
  | literal hc hm hn => exact .inl (h.writes.stringLiteral (htypenames hc hm _ hn))
  | typename hc hm => exact h.writes.literals (htypenames hc hm)
  | shape hr hm hw =>
    have hnamed := ShapeContext.named_of_shapesUpTo hs h.schema hkeys hr
    exact h.isWritten_of_writesOn (written_flatten h _ (hnamed _ hm)) hw
  | union hr =>
    have hnamed := ShapeContext.named_of_shapesUpTo hs h.schema hkeys hr
    exact .inl (h.writes.union (operand_renderShapes h _ hnamed))
  | link hc _ ih => exact ih (hkeys.of_calls hc)

end InFlow

/-! ## The main result -/

/-- **The question mark covers the type.** A target of Flow is given, with any flags, for a schema whose names are names of the
syntax; scalars and type names become operands, and all response keys are names. Then for every type that is built for
selection sets on a type: its brackets are balanced, and the scanner never meets one that it has not opened. It finds an operator
exactly in bare unions of several literals, so that these and no others get parentheses; and in any case the question mark stands
in front of an operand. -/
theorem nullable_covers_type {document : SchemaDocument} {fragments : FragmentIndex} (h : target.InFlow)
    (hs : Schema.ofDocument document = .ok target.schema)
    (hfragments : ∀ name entry, fragments.get? name = some entry →
      Selection.everyFieldOf namedKey entry.fragment.selections = true)
    {parent : String} {sets : List SelectionSet} (hsets : ∀ set ∈ sets, Selection.everyFieldOf namedKey set = true)
    {text : String} (hb : target.Builds fragments strategy (parent, sets.map (⟨·, .inPlace⟩)) text) :
    Text.Balanced text ∧ Flow.neverClamped 0 text.toList = true ∧
      (Flow.needsParentheses text = true ↔ Flow.LiteralUnion text) ∧
      (Flow.LiteralUnion text → target.dialect.encoder.nullable text = "?(" ++ text ++ ")") ∧
      (¬ Flow.LiteralUnion text → target.dialect.encoder.nullable text = "?" ++ text) ∧
      ∃ operand, target.dialect.encoder.nullable text = "?" ++ operand ∧ Flow.Operand operand := by
  have hkeys : (target.context fragments).EveryField namedKey (sets.map (⟨·, .inPlace⟩)) := by
    refine ⟨fun set hm => ?_, hfragments⟩
    obtain ⟨selections, hselections, rfl⟩ := List.mem_map.1 hm
    exact hsets selections hselections
  obtain ⟨exact, readOnly, hd⟩ := h.dialect
  rw [hd]
  exact (h.isWritten_of_builds hs hb hkeys).spec

/-- animals have colours -/
def animalSchema : SchemaDocument :=
  [.type ⟨none, "Animal", [], .interface [] [⟨none, "colours", [], .list (.named "Colour"), []⟩]⟩,
    .type ⟨none, "Cat", [], .object ["Animal"] [⟨none, "colours", [], .list (.named "Colour"), []⟩]⟩,
    .type ⟨none, "Dog", [], .object ["Animal"] [⟨none, "colours", [], .list (.named "Colour"), []⟩]⟩,
    .type ⟨none, "Colour", [], .enum [⟨none, "BLACK", []⟩, ⟨none, "WHITE", []⟩]⟩]

/-- the colours under another key -/
def furSelections : SelectionSet := [.field (some "fur") "colours" [] [] []]

/-- a target of Flow with exact objects, and strings for all scalars -/
def stringsInFlow (schema : Schema) : Target := ⟨schema, .flow true false, fun _ => "string", id, .plain⟩

/-- the type of animals with their colours -/
def animalType : String := "\x7b| __typename?: 'Cat' | 'Dog', fur?: ?Array<?('BLACK' | 'WHITE')> |\x7d"

theorem inFlow_stringsInFlow {schema : Schema} (hn : schema.Named) : (stringsInFlow schema).InFlow where
  dialect := ⟨true, false, rfl⟩
  schema := hn
  scalars _ := .of_plain (show "string".toList.all Flow.isPlain = true from rfl)
  types _ := .of_isName

theorem nullable_covers_type_animal :
    ∃ schema, Schema.ofDocument animalSchema = .ok schema ∧
      (stringsInFlow schema).Builds .empty .inline ("Animal", [furSelections].map (⟨·, .inPlace⟩)) "'Cat' | 'Dog'" ∧
      Flow.nullable "'Cat' | 'Dog'" = "?('Cat' | 'Dog')" ∧
      (stringsInFlow schema).Builds .empty .inline ("Animal", [furSelections].map (⟨·, .inPlace⟩)) animalType ∧
      Flow.nullable animalType = "?" ++ animalType := by
  obtain ⟨schema, shapes, hs, hn, hconcretes, htypename, hr, hwhole⟩ : ∃ schema shapes,
      Schema.ofDocument animalSchema = .ok schema ∧ (∀ type ∈ schema.types.values, type.Named) ∧
      ((stringsInFlow schema).context .empty).shapeTypes "Animal" [⟨furSelections, .inPlace⟩] = .ok ["Animal"] ∧
      (stringsInFlow schema).literals (((stringsInFlow schema).context .empty).typenames "Animal") = "'Cat' | 'Dog'" ∧
      (((stringsInFlow schema).context .empty).shapesUpTo 1 "Animal" [⟨furSelections, .inPlace⟩]).result = .ok shapes ∧
      (stringsInFlow schema).renderUnion .inline shapes = animalType :=
    ⟨_, _, rfl, by decide, rfl, by decide, rfl, by decide⟩
  have hfragments : ∀ name entry, FragmentIndex.empty.get? name = some entry →
      Selection.everyFieldOf namedKey entry.fragment.selections = true := fun _ _ h => by cases h
  have hsets : ∀ set ∈ [furSelections], Selection.everyFieldOf namedKey set = true := by decide
  have htypenameBuilt : (stringsInFlow schema).Builds .empty .inline ("Animal", [furSelections].map (⟨·, .inPlace⟩))
      "'Cat' | 'Dog'" := htypename ▸ .typename hconcretes (List.mem_singleton_self _)
  have hwholeBuilt : (stringsInFlow schema).Builds .empty .inline ("Animal", [furSelections].map (⟨·, .inPlace⟩))
      animalType := hwhole ▸ .union hr
  obtain ⟨-, -, -, hcovered, -⟩ := nullable_covers_type (inFlow_stringsInFlow hn) hs hfragments hsets htypenameBuilt
  obtain ⟨-, -, hfinds, -, hbare, -⟩ := nullable_covers_type (inFlow_stringsInFlow hn) hs hfragments hsets hwholeBuilt
  refine ⟨schema, hs, htypenameBuilt, ?_, hwholeBuilt, ?_⟩
  · exact hcovered ⟨["Cat", "Dog"], by decide, by decide, by decide⟩
  · exact hbare (mt hfinds.2 (by decide))

end Target

end GraphGen
