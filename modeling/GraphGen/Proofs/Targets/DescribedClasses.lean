/-
Descriptions in classes.

The plugins that write enums and input types as classes put descriptions in front of them. Without descriptions they write the
same items (`classItems_undescribed`), as the same rows without the comments.

- `ClassItem.undescribed`: an item without descriptions; `ClassItem.notes`: the descriptions that classes tell.
- `JavaClasses.addsComments_holder`: the class that holds all others; items are written into it line by line.
- `KotlinClasses.addsComments_write`: classes one behind the other.
-/
import GraphGen.Proofs.Schema.Undescribed
import GraphGen.Targets.JavaClasses
import GraphGen.Targets.KotlinClasses

namespace GraphGen

/-! ## Classes of a schema -/

/-- a class without descriptions -/
def InputClass.undescribed (decl : InputClass) : InputClass :=
  ⟨none, decl.name, decl.fields.map InputValue.undescribed⟩

/-- an item without descriptions -/
def ClassItem.undescribed : ClassItem → ClassItem
  | enumeration _ name values => enumeration none name (values.map EnumValue.undescribed)
  | input decl => input decl.undescribed
  | object _ name fields => object none name (fields.map Field.undescribed)

/-- what is said about an item, as far as classes tell it -/
def ClassItem.notes : ClassItem → List String
  | enumeration description _ _ => description.toList
  | input decl => decl.description.toList ++ decl.fields.flatMap InputValue.notes
  | object description _ _ => description.toList

theorem typeItems_undescribed (withObjects : Bool) (type : NamedType) :
    typeItems withObjects type.undescribed = (typeItems withObjects type).map ClassItem.undescribed := by
  have harguments :
      ((type.undescribed.fields.values.filter (!·.arguments.isEmpty)).map fun field =>
        ClassItem.input (.ofArguments type.name field)) =
      ((type.fields.values.filter (!·.arguments.isEmpty)).map fun field =>
        ClassItem.input (.ofArguments type.name field)).map ClassItem.undescribed := by
    rw [NamedType.fields_undescribed, Table.values_mapValues, filter_arguments_undescribed, List.map_map, List.map_map]
    rfl
  unfold typeItems
  rw [NamedType.kind_undescribed]
  cases type.kind with
  | scalar => rfl
  | union => rfl
  | interface => exact harguments
  | object =>
    dsimp only
    rw [List.map_append]
    refine congr_arg₂ (· ++ ·) harguments ?_
    rw [NamedType.fields_undescribed, Table.values_mapValues]
    cases withObjects <;> rfl
  | enum =>
    dsimp only
    rw [NamedType.enumValues_undescribed]
    rfl
  | inputObject =>
    dsimp only
    rw [NamedType.inputFields_undescribed, Table.values_mapValues]
    rfl

/-- **The items of a schema without descriptions are those of the schema,** without descriptions. -/
theorem classItems_undescribed (withObjects : Bool) (schema : Schema) :
    classItems withObjects schema.undescribed = (classItems withObjects schema).map ClassItem.undescribed := by
  rw [classItems, classItems, Schema.ownTypes_undescribed, List.flatMap_map, List.map_flatMap]
  exact congrArg (schema.ownTypes.flatMap ·) (funext (typeItems_undescribed withObjects))

theorem contained_of_mem_classItems {withObjects : Bool} {schema : Schema} (h : Contained schema.notes) :
    ∀ item ∈ classItems withObjects schema, Contained item.notes := by
  intro item hitem
  obtain ⟨type, htype, hitem⟩ := List.mem_flatMap.1 hitem
  obtain ⟨hdescription, hfields, hinputs, -⟩ := contained_type_iff.1 fun note hnote =>
    h note (schema.notes_subset_of_mem_ownTypes htype note hnote)
  have harguments : ∀ item ∈ (type.fields.values.filter (!·.arguments.isEmpty)).map fun field =>
      ClassItem.input (.ofArguments type.name field), Contained item.notes := by
    rw [List.forall_mem_map]
    intro field hfield
    exact contained_flatMap_iff.2 (contained_field_iff.1 (hfields field (List.mem_filter.1 hfield).1)).2
  unfold typeItems at hitem
  split at hitem
  · rw [List.mem_singleton.1 hitem]
    exact hdescription
  · rw [List.mem_singleton.1 hitem]
    exact List.forall_mem_append.2 ⟨hdescription, contained_flatMap_iff.2 hinputs⟩
  · exact harguments item hitem
  · rcases List.mem_append.1 hitem with hitem | hitem
    · exact harguments item hitem
    · split at hitem
      · rw [List.mem_singleton.1 hitem]
        exact hdescription
      · cases hitem
  · cases hitem
  · cases hitem

section HostTypes

variable (schema : Schema) (scalars : ScalarTargets)

theorem hostType_undescribed (encoder : Encoder) (type : WrappedType) :
    hostType schema.undescribed scalars encoder type = hostType schema scalars encoder type := by
  unfold hostType hostName
  rw [Schema.kind?_undescribed]

end HostTypes

namespace JavaClasses

/-- what types are written with, without descriptions -/
def Setting.undescribed (setting : Setting) : Setting :=
  { setting with schema := setting.schema.undescribed }

variable (setting : Setting)

theorem fieldType_undescribed (type : WrappedType) : setting.undescribed.fieldType type = setting.fieldType type :=
  hostType_undescribed setting.schema setting.scalars annotated type

theorem uncheckedType_undescribed (type : WrappedType) : setting.undescribed.uncheckedType type = setting.uncheckedType type :=
  hostType_undescribed setting.schema setting.scalars unannotated type

theorem conversion_undescribed (type : WrappedType) :
    conversion setting.undescribed.schema type = conversion setting.schema type := by
  unfold conversion
  rw [Setting.undescribed, Schema.kind?_undescribed]

theorem readArgument_undescribed (value : InputValue) :
    readArgument setting.undescribed value.undescribed = readArgument setting value := by
  unfold readArgument
  rw [uncheckedType_undescribed]
  dsimp only [InputValue.undescribed]
  rw [conversion_undescribed]

theorem described_fieldSteps {value : InputValue} (h : Contained value.notes) :
    Described { } (fieldSteps setting.undescribed value.undescribed) (fieldSteps setting value) := by
  have hsame : fieldSteps setting.undescribed value.undescribed =
      commentSteps none ++ [.line ("private " ++ setting.fieldType value.type ++ " " ++ value.name ++ ";")] := by
    rw [fieldSteps, fieldType_undescribed]
    rfl
  rw [hsame]
  exact .commentSteps (.of_contained h) (.refl _)

theorem accessorSteps_undescribed (value : InputValue) :
    accessorSteps setting.undescribed value.undescribed = accessorSteps setting value := by
  unfold accessorSteps
  rw [fieldType_undescribed]
  rfl

theorem textsAlike_item {item : ClassItem} (h : Contained item.notes) :
    TextsAlike (NoteRows { }) (Step.text (itemSteps setting.undescribed item.undescribed))
      (Step.text (itemSteps setting item)) := by
  cases item with
  | enumeration description name values =>
    have hsame : itemSteps setting.undescribed (ClassItem.undescribed (.enumeration description name values)) =
        enumSteps none name values := by
      dsimp only [ClassItem.undescribed, itemSteps]
      rw [enumSteps, List.map_map]
      rfl
    rw [hsame]
    exact .of_comment (.of_contained h) (.refl _) rfl rfl endsVisibly_brace
  | input decl =>
    obtain ⟨hdescription, hfields⟩ := List.forall_mem_append.1 h
    have hassignments : (decl.undescribed.fields.map fun field =>
        Step.line ("this." ++ field.name ++ " = " ++ readArgument setting.undescribed field ++ ";")) =
        decl.fields.map fun field => .line ("this." ++ field.name ++ " = " ++ readArgument setting field ++ ";") := by
      rw [InputClass.undescribed, List.map_map]
      refine List.map_congr_left fun field _ => ?_
      rw [Function.comp_apply, readArgument_undescribed]
      rfl
    have haccessors : decl.undescribed.fields.flatMap (accessorSteps setting.undescribed) =
        decl.fields.flatMap (accessorSteps setting) := by
      rw [InputClass.undescribed, List.flatMap_map]
      exact congrArg decl.fields.flatMap (funext (accessorSteps_undescribed setting))
    have hdeclared : Described { } (decl.undescribed.fields.flatMap (fieldSteps setting.undescribed))
        (decl.fields.flatMap (fieldSteps setting)) :=
      .flatMap_map fun field hfield => described_fieldSteps setting (contained_flatMap_iff.1 hfields field hfield)
    dsimp only [ClassItem.undescribed, itemSteps]
    rw [inputSteps, inputSteps, hassignments, haccessors]
    exact .of_comment (.of_contained hdescription) (.block_singleton _ _ ((hdeclared.append (.refl _)).append (.refl _)))
      rfl rfl endsVisibly_brace
  | object description name fields => exact .empty

/-- the texts of items with a blank line between them, as lines of another text -/
theorem described_texts {items : List ClassItem} (h : ∀ item ∈ items, Contained item.notes) :
    Described { }
      (((items.map ClassItem.undescribed).map fun item =>
        Step.lines (Step.text (itemSteps setting.undescribed item))).intersperse .blank)
      ((items.map fun item => Step.lines (Step.text (itemSteps setting item))).intersperse .blank) := by
  induction items with
  | nil => exact .nil
  | cons item rest ih =>
    obtain ⟨hfirst, hrest⟩ := List.forall_mem_cons.1 h
    have hlines := (textsAlike_item setting hfirst).lines
    cases rest with
    | nil => exact .lines hlines .nil
    | cons next rest => exact .lines hlines (.step .blank (ih hrest))

/-- **The class that holds all others** is written without descriptions as the same rows without comments. -/
theorem addsComments_holder (className : String) {items : List ClassItem} (h : ∀ item ∈ items, Contained item.notes) :
    AddsComments (NoteRows { }) (holder setting.undescribed className (items.map ClassItem.undescribed))
      (holder setting className items) :=
  .ofTextsAlike ((Described.block_singleton _ _ (described_texts setting h)).text rfl rfl endsVisibly_brace)

theorem itemImports_undescribed (item : ClassItem) :
    itemImports setting.undescribed item.undescribed = itemImports setting item := by
  cases item with
  | enumeration description name values => rfl
  | object description name fields => rfl
  | input decl =>
    have hnullable : (fun field : InputValue => Text.hasPiece "@Nullable" (setting.undescribed.fieldType field.type)) =
        fun field => Text.hasPiece "@Nullable" (setting.fieldType field.type) :=
      funext fun field => congrArg (Text.hasPiece "@Nullable") (fieldType_undescribed setting field.type)
    have hstreamed : (fun field : InputValue =>
          decide (conversion setting.undescribed.schema field.type = .constructItems)) =
        fun field => decide (conversion setting.schema field.type = .constructItems) :=
      funext fun field => by rw [conversion_undescribed]
    dsimp only [ClassItem.undescribed, InputClass.undescribed, itemImports]
    rw [hnullable, hstreamed, List.filter_map, List.filter_map, List.map_map, List.flatMap_map]
    rfl

theorem imports_undescribed (items : List ClassItem) :
    imports setting.undescribed (items.map ClassItem.undescribed) = imports setting items := by
  rw [imports, imports, List.flatMap_map]
  exact congrArg (fun lines => ImportLines.ofList ("import java.util.*;" :: lines))
    (congrArg items.flatMap (funext (itemImports_undescribed setting)))

end JavaClasses

namespace KotlinClasses

/-- what types are written with, without descriptions -/
def Setting.undescribed (setting : Setting) : Setting :=
  { setting with schema := setting.schema.undescribed }

variable (setting : Setting)

theorem typeOf_undescribed (type : WrappedType) : setting.undescribed.typeOf type = setting.typeOf type :=
  hostType_undescribed setting.schema setting.scalars encoder type

theorem conversion_undescribed (type : WrappedType) :
    conversion setting.undescribed.schema type = conversion setting.schema type := by
  unfold conversion
  rw [Setting.undescribed, Schema.kind?_undescribed]

theorem readArgument_undescribed (value : InputValue) :
    readArgument setting.undescribed value.undescribed = readArgument setting value := by
  unfold readArgument
  dsimp only [InputValue.undescribed]
  rw [conversion_undescribed, typeOf_undescribed]

theorem parameter_undescribed (name : String) (type : WrappedType) :
    parameter setting.undescribed name type = parameter setting name type := by
  rw [parameter, parameter, typeOf_undescribed]

/-- the head of a class is the same behind its comment -/
theorem headSteps_eq (description : Option String) (name : String) (parameters : List String) :
    headSteps description name parameters = commentSteps description ++ headSteps none name parameters := by
  simp only [headSteps, List.append_assoc, commentSteps, List.nil_append]

theorem textsAlike_class {description : Option String} (h : Contained description.toList) (name : String)
    (parameters : List String) {after : List Step} {text : String} (hafter : after.getLast?.bind Step.closing? = some text)
    (htext : EndsVisibly text) :
    TextsAlike (NoteRows { }) (Step.text (headSteps none name parameters ++ after))
      (Step.text (headSteps description name parameters ++ after)) := by
  have hcomment : CommentFor none description := .of_contained h
  have hclosing : (headSteps none name parameters ++ after).getLast?.bind Step.closing? = some text := closing_append hafter
  rw [headSteps_eq description, List.append_assoc]
  have halike := TextsAlike.of_comment hcomment (.refl (headSteps none name parameters ++ after)) hclosing hclosing htext
  exact halike

theorem textsAlike_item {item : ClassItem} (h : Contained item.notes) :
    TextsAlike (NoteRows { }) (Step.text (itemSteps setting.undescribed item.undescribed))
      (Step.text (itemSteps setting item)) := by
  cases item with
  | enumeration description name values =>
    dsimp only [ClassItem.undescribed, itemSteps]
    rw [enumSteps, List.map_map]
    exact .of_comment (.of_contained h) (.refl _) rfl rfl endsVisibly_brace
  | input decl =>
    obtain ⟨hdescription, -⟩ := List.forall_mem_append.1 h
    have hparameters :
        (decl.undescribed.fields.map fun field => parameter setting.undescribed field.name field.type) =
          decl.fields.map fun field => parameter setting field.name field.type := by
      rw [InputClass.undescribed, List.map_map]
      exact List.map_congr_left fun field _ => parameter_undescribed setting field.name field.type
    have harguments : decl.undescribed.fields.map (readArgument setting.undescribed) =
        decl.fields.map (readArgument setting) := by
      rw [InputClass.undescribed, List.map_map]
      exact List.map_congr_left fun field _ => readArgument_undescribed setting field
    dsimp only [ClassItem.undescribed, itemSteps]
    rw [inputSteps, inputSteps, hparameters, harguments]
    exact textsAlike_class hdescription _ _ rfl endsVisibly_brace
  | object description name fields =>
    have hparameters :
        ((fields.map Field.undescribed).map fun field => parameter setting.undescribed field.name field.type) =
          fields.map fun field => parameter setting field.name field.type := by
      rw [List.map_map]
      exact List.map_congr_left fun field _ => parameter_undescribed setting field.name field.type
    dsimp only [ClassItem.undescribed, itemSteps]
    rw [objectSteps, objectSteps, hparameters]
    exact textsAlike_class h _ _ rfl ⟨')', rfl, by decide⟩

/-- **The classes** are written without descriptions as the same rows without comments. -/
theorem addsComments_write {items : List ClassItem} (h : ∀ item ∈ items, Contained item.notes) :
    AddsComments (NoteRows { }) (write setting.undescribed (items.map ClassItem.undescribed)) (write setting items) := by
  rw [write, write, List.map_map]
  exact .intercalate (List.forall₂_map_left_iff.2 (List.forall₂_map_right_iff.2 (List.forall₂_same.2 fun item hitem =>
    .ofTextsAlike (textsAlike_item setting (h item hitem)))))

end KotlinClasses

end GraphGen
