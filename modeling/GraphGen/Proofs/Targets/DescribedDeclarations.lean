/-
Descriptions in declared types.

The plugins that write a schema as types put descriptions in front of types and in front of what is in them; in TypeScript
reasons of deprecations stand there too. Without descriptions they declare the same types, as the same rows without the comments.

- `DeclarationFor`: a declared type, and the same with comments; `forall₂_declarations` says that the declarations of a schema are
  such, for both languages.
- `textsAlike_write`: how such types are written.
- `addsComments_writeAll`, `addsComments_declarations`: the whole schema.
-/
import GraphGen.Proofs.Schema.Undescribed
import GraphGen.Targets.FlowTypes
import GraphGen.Targets.TypeScriptTypes

namespace GraphGen

/-! ## Declared types -/

/-- a property, and the same with a comment -/
def PropertyFor (plain property : Property) : Prop :=
  ∃ comment, property = { plain with comment } ∧ CommentFor plain.comment comment

/-- a value of an enum, and the same with a comment -/
def EnumMemberFor (plain member : EnumMember) : Prop :=
  ∃ comment, member = { plain with comment } ∧ CommentFor plain.comment comment

/-- what a name is declared as, and the same with comments -/
inductive DeclarationBodyFor : DeclarationBody → DeclarationBody → Prop where
  | same (body : DeclarationBody) : DeclarationBodyFor body body
  | object (bases : List String) {plain properties : List Property} (h : List.Forall₂ PropertyFor plain properties) :
    DeclarationBodyFor (.object bases plain) (.object bases properties)
  | enumeration {plain members : List EnumMember} (h : List.Forall₂ EnumMemberFor plain members) :
    DeclarationBodyFor (.enumeration plain) (.enumeration members)

/-- a declared type, and the same with comments -/
def DeclarationFor (plain d : Declaration) : Prop :=
  ∃ comment body, d = { plain with comment, body } ∧ CommentFor plain.comment comment ∧ DeclarationBodyFor plain.body body

theorem DeclarationFor.refl (d : Declaration) : DeclarationFor d d :=
  ⟨d.comment, d.body, rfl, .inl rfl, .same d.body⟩

namespace TypeScriptTypes

theorem described_propertySteps {plain property : Property} (h : PropertyFor plain property) :
    Described { } (propertySteps plain) (propertySteps property) := by
  obtain ⟨comment, rfl, hcomment⟩ := h
  exact .commentSteps hcomment (.refl _)

theorem described_memberSteps {plain member : EnumMember} (h : EnumMemberFor plain member) :
    Described { } (memberSteps plain) (memberSteps member) := by
  obtain ⟨comment, rfl, hcomment⟩ := h
  exact .commentSteps hcomment (.refl _)

theorem textsAlike_write (config : TypeScriptOptions) {plain d : Declaration} (h : DeclarationFor plain d) :
    TextsAlike (NoteRows { }) (write config plain) (write config d) := by
  obtain ⟨comment, body, rfl, hcomment, hbody⟩ := h
  obtain ⟨plainComment, name, parameters, plainBody⟩ := plain
  have hobject : EndsVisibly "\x7d;" := ⟨';', rfl, by decide⟩
  cases hbody with
  | same =>
    cases plainBody with
    | abbreviation type => exact .of_comment hcomment (.refl _) rfl rfl (endsVisibly_append _ ⟨';', rfl, by decide⟩)
    | object bases properties => exact .of_comment hcomment (.refl _) rfl rfl hobject
    | enumeration members => exact .of_comment hcomment (.refl _) rfl rfl endsVisibly_brace
  | object bases h =>
    exact .of_comment hcomment (.block_singleton _ _ (.flatMap (fun _ _ hp => described_propertySteps hp) h)) rfl rfl hobject
  | enumeration h =>
    exact .of_comment hcomment (.block_singleton _ _ (.flatMap (fun _ _ hm => described_memberSteps hm) h)) rfl rfl
      endsVisibly_brace

end TypeScriptTypes

namespace FlowTypes

theorem described_propertySteps {plain property : Property} (h : PropertyFor plain property) :
    Described { } (propertySteps plain) (propertySteps property) := by
  obtain ⟨comment, rfl, hcomment⟩ := h
  exact .commentSteps hcomment (.refl _)

theorem described_memberSteps {plain member : EnumMember} (h : EnumMemberFor plain member) :
    Described { } (memberSteps plain) (memberSteps member) := by
  obtain ⟨comment, rfl, -⟩ := h
  exact .refl _

theorem textsAlike_write (config : FlowOptions) {plain d : Declaration} (h : DeclarationFor plain d) :
    TextsAlike (NoteRows { }) (write config plain) (write config d) := by
  obtain ⟨comment, body, rfl, hcomment, hbody⟩ := h
  obtain ⟨plainComment, name, parameters, plainBody⟩ := plain
  have hobject : EndsVisibly (if config.exactObjects then "|\x7d;" else "\x7d;") := by
    split
    · exact ⟨';', rfl, by decide⟩
    · exact ⟨';', rfl, by decide⟩
  cases hbody with
  | same =>
    cases plainBody with
    | abbreviation type => exact .of_comment hcomment (.refl _) rfl rfl (endsVisibly_append _ ⟨';', rfl, by decide⟩)
    | object bases properties => exact .of_comment hcomment (.refl _) rfl rfl hobject
    | enumeration members => exact .of_comment hcomment (.refl _) rfl rfl (endsVisibly_append _ ⟨';', rfl, by decide⟩)
  | object bases h =>
    exact .of_comment hcomment (.block_singleton _ _ (.flatMap (fun _ _ hp => described_propertySteps hp) h)) rfl rfl hobject
  | enumeration h =>
    exact .of_comment hcomment (.block _ _ (.flatMap (fun _ _ hm => described_memberSteps hm) h) (.refl _)) rfl rfl
      (endsVisibly_append _ ⟨';', rfl, by decide⟩)

end FlowTypes

/-! ## Declarations of a schema -/

/-- lists that are made of a list, and of the same list without descriptions -/
theorem forall₂_flatMap_map {α β γ : Type} {R : β → γ → Prop} {f : α → α} {F : α → List β} {G : α → List γ} {l : List α}
    (h : ∀ a ∈ l, List.Forall₂ R (F (f a)) (G a)) : List.Forall₂ R ((l.map f).flatMap F) (l.flatMap G) := by
  induction l with
  | nil => exact .nil
  | cons a l ih =>
    obtain ⟨hfirst, hrest⟩ := List.forall_mem_cons.1 h
    exact List.rel_append hfirst (ih hrest)

theorem forall₂_map_map {α β γ : Type} {R : β → γ → Prop} {f : α → α} {F : α → β} {G : α → γ} {l : List α}
    (h : ∀ a ∈ l, R (F (f a)) (G a)) : List.Forall₂ R ((l.map f).map F) (l.map G) := by
  induction l with
  | nil => exact .nil
  | cons a l ih =>
    obtain ⟨hfirst, hrest⟩ := List.forall_mem_cons.1 h
    exact .cons hfirst (ih hrest)

theorem DeclarationFor.described {description : Option String} (h : Contained description.toList) (name : String)
    {plain body : DeclarationBody} (hbody : DeclarationBodyFor plain body) :
    DeclarationFor { name, body := plain } { comment := description, name, body } :=
  ⟨description, body, rfl, .of_contained h, hbody⟩

namespace SchemaScope

/-- what references are written with, without descriptions -/
def undescribed (scope : SchemaScope) : SchemaScope :=
  { scope with schema := scope.schema.undescribed }

variable (scope : SchemaScope)

theorem reference_undescribed (type : WrappedType) : scope.undescribed.reference type = scope.reference type := by
  have hname : scope.undescribed.namedReference type.name = scope.namedReference type.name := by
    unfold namedReference
    rw [undescribed, Schema.kind?_undescribed]
    rfl
  rw [reference, reference, hname]
  rfl

theorem typenameProperties_undescribed (type : NamedType) :
    scope.undescribed.typenameProperties type.undescribed = scope.typenameProperties type := by
  unfold typenameProperties
  rw [NamedType.kind_undescribed]
  rfl

theorem propertyFor_field {plain comment : Option String} (h : CommentFor plain comment) (field : Field) :
    PropertyFor (scope.undescribed.fieldProperty plain field.undescribed) (scope.fieldProperty comment field) := by
  refine ⟨comment, ?_, h⟩
  unfold fieldProperty
  rw [reference_undescribed]
  rfl

theorem inputProperty_undescribed (comment : Option String) (value : InputValue) :
    scope.undescribed.inputProperty comment value.undescribed = scope.inputProperty comment value := by
  unfold inputProperty
  rw [reference_undescribed]
  rfl

theorem propertyFor_input {plain comment : Option String} (h : CommentFor plain comment) (value : InputValue) :
    PropertyFor (scope.undescribed.inputProperty plain value.undescribed) (scope.inputProperty comment value) := by
  rw [inputProperty_undescribed]
  exact ⟨comment, rfl, h⟩

theorem scalarsDeclaration_undescribed (scalars : ScalarTargets) (types : List NamedType) :
    scalarsDeclaration scalars (types.map NamedType.undescribed) = scalarsDeclaration scalars types := by
  rw [scalarsDeclaration, List.map_map]
  rfl

theorem memberUnion_undescribed (type : NamedType) : scope.undescribed.memberUnion type.undescribed = scope.memberUnion type := by
  rw [memberUnion, NamedType.members_undescribed]
  rfl

end SchemaScope

namespace TypeScriptTypes

/-- a field without descriptions is written behind an empty comment -/
theorem commentFor_commentText {description : Option String} {deprecation : Option Deprecation}
    (h : Contained (description.toList ++ deprecation.toList.map Deprecation.text)) :
    CommentFor (some (commentText none none)) (some (commentText description deprecation)) := by
  obtain ⟨hdescription, hdeprecation⟩ := List.forall_mem_append.1 h
  refine .inr ⟨.inr rfl, fun text htext => ?_⟩
  cases htext
  have htext : terminators (description.getD "") = 0 := by
    cases description with
    | none => rfl
    | some text => exact hdescription text List.mem_cons_self
  cases deprecation with
  | none => exact htext
  | some deprecation =>
    have hreason : terminators ("@deprecated " ++ deprecation.text) = 0 :=
      (terminators_append_space "@deprecated" deprecation.text).trans
        ((Nat.zero_add _).trans (hdeprecation _ List.mem_cons_self))
    unfold commentText
    dsimp only
    split
    · rwa [String.empty_append]
    · rw [String.append_assoc, terminators_append_feed, htext, hreason]

theorem ownFields_undescribed (config : TypeScriptOptions) (type : NamedType) :
    ownFields config type.undescribed = (ownFields config type).map Field.undescribed := by
  unfold ownFields
  rw [NamedType.fields_undescribed, Table.values_mapValues, List.filter_map]
  congr 1
  refine List.filter_congr fun field _ => ?_
  rw [Function.comp_apply, Field.carries_undescribed]

variable (config : TypeScriptOptions) (scope : SchemaScope) {type : NamedType}

theorem forall₂_inputProperties {values : List InputValue} (h : ∀ value ∈ values, Contained value.notes) :
    List.Forall₂ PropertyFor (inputProperties scope.undescribed (values.map InputValue.undescribed))
      (inputProperties scope values) :=
  forall₂_map_map fun value hvalue => scope.propertyFor_input (.of_contained (h value hvalue)) value

theorem contained_of_mem_ownFields (h : Contained type.notes) {field : Field} (hfield : field ∈ ownFields config type) :
    Contained field.notes :=
  (contained_type_iff.1 h).2.1 field (List.mem_filter.1 hfield).1

theorem forall₂_objectProperties (h : Contained type.notes) :
    List.Forall₂ PropertyFor (objectProperties scope.undescribed config type.undescribed)
      (objectProperties scope config type) := by
  rw [objectProperties, objectProperties, SchemaScope.typenameProperties_undescribed, ownFields_undescribed]
  refine List.rel_append (List.forall₂_same.2 fun property _ => ⟨property.comment, rfl, .inl rfl⟩) ?_
  refine forall₂_map_map fun field hfield => ?_
  have hnotes := contained_field_iff.1 (contained_of_mem_ownFields config h hfield)
  exact scope.propertyFor_field (commentFor_commentText hnotes.1) field

theorem forall₂_argumentDeclarations (h : Contained type.notes) :
    List.Forall₂ DeclarationFor (argumentDeclarations scope.undescribed config type.undescribed)
      (argumentDeclarations scope config type) := by
  rw [argumentDeclarations, argumentDeclarations, ownFields_undescribed, filter_arguments_undescribed]
  refine forall₂_map_map fun field hfield => ?_
  have hnotes := contained_field_iff.1 (contained_of_mem_ownFields config h (List.mem_filter.1 hfield).1)
  exact ⟨none, _, rfl, .inl rfl, .object [] (forall₂_inputProperties scope hnotes.2)⟩

theorem declarationBodyFor_enumBody (h : Contained type.notes) :
    DeclarationBodyFor (enumBody scope.undescribed config type.undescribed) (enumBody scope config type) := by
  unfold enumBody
  rw [NamedType.enumValues_undescribed]
  split
  · rw [List.map_map]
    exact .same _
  · refine .enumeration (forall₂_map_map fun value hvalue => ⟨_, rfl, ?_⟩)
    exact commentFor_commentText ((contained_type_iff.1 h).2.2.2 value hvalue)

theorem forall₂_typeDeclarations (h : Contained type.notes) :
    List.Forall₂ DeclarationFor (typeDeclarations scope.undescribed config type.undescribed)
      (typeDeclarations scope config type) := by
  have hdescription := (contained_type_iff.1 h).1
  have hobject : List.Forall₂ DeclarationFor
      ({ comment := none
         name := scope.typeName type.name
         body := .object (type.undescribed.interfaces.map scope.typeName)
           (objectProperties scope.undescribed config type.undescribed) }
        :: argumentDeclarations scope.undescribed config type.undescribed)
      ({ comment := type.description
         name := scope.typeName type.name
         body := .object (type.interfaces.map scope.typeName) (objectProperties scope config type) }
        :: argumentDeclarations scope config type) := by
    rw [NamedType.interfaces_undescribed]
    exact .cons (.described hdescription _ (.object _ (forall₂_objectProperties config scope h)))
      (forall₂_argumentDeclarations config scope h)
  unfold typeDeclarations
  rw [NamedType.kind_undescribed]
  cases type.kind with
  | scalar => exact .nil
  | object => exact hobject
  | interface => exact hobject
  | inputObject =>
    dsimp only
    rw [NamedType.inputFields_undescribed, Table.values_mapValues]
    exact .cons (.described hdescription _ (.object [] (forall₂_inputProperties scope (contained_type_iff.1 h).2.2.1))) .nil
  | enum => exact .cons (.described hdescription _ (declarationBodyFor_enumBody config scope h)) .nil
  | union =>
    dsimp only
    rw [SchemaScope.memberUnion_undescribed]
    exact .cons (.described hdescription _ (.same _)) .nil

/-- **The declarations of a schema without descriptions are those of the schema,** without comments. -/
theorem forall₂_declarations (schema : Schema) (h : Contained schema.notes) :
    List.Forall₂ DeclarationFor (declarations schema.undescribed config) (declarations schema config) := by
  have hscalars : listedScalars schema.undescribed config = (listedScalars schema config).map NamedType.undescribed := by
    unfold listedScalars
    rw [Schema.ofKind_undescribed, List.filter_map]
    rfl
  unfold declarations
  dsimp only
  rw [hscalars, SchemaScope.scalarsDeclaration_undescribed, Schema.ownTypes_undescribed]
  refine .cons (.refl _) (.cons (.refl _) (forall₂_flatMap_map fun type htype => ?_))
  exact forall₂_typeDeclarations config (scope schema config) fun note hnote =>
    h note (schema.notes_subset_of_mem_ownTypes htype note hnote)

/-- **The schema** is written without descriptions as the same rows without comments. -/
theorem addsComments_writeAll {schema : Schema} (h : Contained schema.notes) :
    AddsComments (NoteRows { }) (writeAll config (declarations schema.undescribed config))
      (writeAll config (declarations schema config)) :=
  .intercalate (List.forall₂_map_left_iff.2 (List.forall₂_map_right_iff.2 ((forall₂_declarations config schema h).imp
    fun _ _ hd => .ofTextsAlike (textsAlike_write config hd))))

end TypeScriptTypes

namespace FlowTypes

variable (scope : SchemaScope) {type : NamedType}

/-- input fields and arguments have no comments -/
theorem inputProperties_undescribed (values : List InputValue) :
    inputProperties scope.undescribed (values.map InputValue.undescribed) = inputProperties scope values := by
  have hproperty : scope.undescribed.inputProperty none ∘ InputValue.undescribed = scope.inputProperty none :=
    funext (scope.inputProperty_undescribed none)
  rw [inputProperties, inputProperties, List.map_map, hproperty]

theorem argumentDeclarations_undescribed :
    argumentDeclarations scope.undescribed type.undescribed = argumentDeclarations scope type := by
  rw [argumentDeclarations, argumentDeclarations, NamedType.fields_undescribed, Table.values_mapValues,
    filter_arguments_undescribed, List.map_map]
  refine List.map_congr_left fun field _ => ?_
  rw [Function.comp_apply, ← inputProperties_undescribed scope field.arguments]
  rfl

theorem forall₂_typeDeclarations (h : Contained type.notes) :
    List.Forall₂ DeclarationFor (typeDeclarations scope.undescribed type.undescribed) (typeDeclarations scope type) := by
  obtain ⟨hdescription, hfields, -, -⟩ := contained_type_iff.1 h
  have hproperties : List.Forall₂ PropertyFor
      (scope.undescribed.typenameProperties type.undescribed ++ type.undescribed.fields.values.map fun field =>
        scope.undescribed.fieldProperty field.description field)
      (scope.typenameProperties type ++ type.fields.values.map fun field => scope.fieldProperty field.description field) := by
    rw [SchemaScope.typenameProperties_undescribed, NamedType.fields_undescribed, Table.values_mapValues]
    refine List.rel_append (List.forall₂_same.2 fun property _ => ⟨property.comment, rfl, .inl rfl⟩) ?_
    refine forall₂_map_map fun field hfield => scope.propertyFor_field (.of_contained ?_) field
    exact (List.forall_mem_append.1 (contained_field_iff.1 (hfields field hfield)).1).1
  have hobject : List.Forall₂ DeclarationFor
      ({ comment := none
         name := scope.typeName type.name
         body := .object (type.undescribed.interfaces.map scope.typeName)
           (scope.undescribed.typenameProperties type.undescribed ++ type.undescribed.fields.values.map fun field =>
             scope.undescribed.fieldProperty field.description field) }
        :: argumentDeclarations scope.undescribed type.undescribed)
      ({ comment := type.description
         name := scope.typeName type.name
         body := .object (type.interfaces.map scope.typeName)
           (scope.typenameProperties type ++ type.fields.values.map fun field =>
             scope.fieldProperty field.description field) }
        :: argumentDeclarations scope type) := by
    rw [NamedType.interfaces_undescribed, argumentDeclarations_undescribed]
    exact .cons (.described hdescription _ (.object _ hproperties)) (List.forall₂_same.2 fun d _ => .refl d)
  unfold typeDeclarations
  rw [NamedType.kind_undescribed]
  cases type.kind with
  | scalar => exact .nil
  | object => exact hobject
  | interface => exact hobject
  | inputObject =>
    dsimp only
    rw [NamedType.inputFields_undescribed, Table.values_mapValues, inputProperties_undescribed]
    exact .cons (.described hdescription _ (.same _)) .nil
  | enum =>
    dsimp only
    rw [NamedType.enumValues_undescribed, List.map_map]
    exact .cons (.described hdescription _ (.same _)) .nil
  | union =>
    dsimp only
    rw [SchemaScope.memberUnion_undescribed]
    exact .cons (.refl _) .nil

/-- **The declarations of a schema without descriptions are those of the schema,** without comments. -/
theorem forall₂_declarations (schema : Schema) (config : FlowOptions) (h : Contained schema.notes) :
    List.Forall₂ DeclarationFor (declarations schema.undescribed config) (declarations schema config) := by
  unfold declarations
  dsimp only
  rw [Schema.ofKind_undescribed, SchemaScope.scalarsDeclaration_undescribed, Schema.ownTypes_undescribed]
  refine .cons (.refl _) (forall₂_flatMap_map fun type htype => ?_)
  exact forall₂_typeDeclarations (scope schema config) fun note hnote =>
    h note (schema.notes_subset_of_mem_ownTypes htype note hnote)

/-- **The schema** is written without descriptions as the same rows without comments. -/
theorem addsComments_declarations (config : FlowOptions) {schema : Schema} (h : Contained schema.notes) :
    AddsComments (NoteRows { }) (String.intercalate "\n\n" ((declarations schema.undescribed config).map (write config)))
      (String.intercalate "\n\n" ((declarations schema config).map (write config))) :=
  .intercalate (List.forall₂_map_left_iff.2 (List.forall₂_map_right_iff.2 ((forall₂_declarations schema config h).imp
    fun _ _ hd => .ofTextsAlike (textsAlike_write config hd))))

end FlowTypes

end GraphGen
