/-
A schema without its descriptions.

Descriptions and reasons of deprecations are what a schema says about its types in plain words. `Schema.undescribed` is the
schema without them, and without the other places where they are kept: the document and the arguments of applied directives.
The types, fields, arguments and values stay, with their names and types.

- `Schema.notes`: all descriptions, and all reasons of deprecations.
- `kind?_undescribed`, `ofKind_undescribed`, `ownTypes_undescribed`: what look-ups find without descriptions.
-/
import GraphGen.Proofs.Output.Commented
import GraphGen.Schema.Basic

namespace GraphGen

/-! ## Tables -/

section Table

variable {α β : Type u}

/-- a table with other values under its names -/
def Table.mapValues (f : α → β) (t : Table α) : Table β :=
  ⟨t.entries.map fun entry => (entry.1, f entry.2), by
    have hkeys : entryKeys (t.entries.map fun entry => (entry.1, f entry.2)) = entryKeys t.entries := by
      simp [entryKeys]
    rw [hkeys]
    exact t.nodup⟩

theorem Table.values_mapValues (f : α → β) (t : Table α) : (t.mapValues f).values = t.values.map f := by
  simp [Table.values, Table.mapValues]

theorem Table.get?_mapValues (f : α → β) (t : Table α) (key : String) : (t.mapValues f).get? key = (t.get? key).map f := by
  have hlookup : ∀ entries : List (String × α),
      (entries.map fun entry => (entry.1, f entry.2)).lookup key = (entries.lookup key).map f := by
    intro entries
    induction entries with
    | nil => rfl
    | cons entry entries ih =>
      rw [List.map_cons, List.lookup_cons, List.lookup_cons, ih]
      split <;> rfl
  exact hlookup t.entries

end Table

/-! ## Without descriptions -/

/-- a directive without its arguments -/
def AppliedDirective.bare (use : AppliedDirective) : AppliedDirective :=
  ⟨use.name, []⟩

/-- an argument or input field without its description -/
def InputValue.undescribed (value : InputValue) : InputValue :=
  { value with description := none, directives := value.directives.map AppliedDirective.bare }

/-- a field without descriptions, and not deprecated -/
def Field.undescribed (field : Field) : Field :=
  { field with
    description := none
    arguments := field.arguments.map InputValue.undescribed
    directives := field.directives.map AppliedDirective.bare
    deprecation := none }

/-- a value of an enum without its description, and not deprecated -/
def EnumValue.undescribed (value : EnumValue) : EnumValue :=
  ⟨value.name, none, none⟩

/-- the content of a type without descriptions -/
def TypeContent.undescribed : TypeContent → TypeContent
  | scalar => scalar
  | object interfaces fields => object interfaces (fields.mapValues Field.undescribed)
  | interface fields => interface (fields.mapValues Field.undescribed)
  | union members => union members
  | enum values => enum (values.map EnumValue.undescribed)
  | inputObject fields => inputObject (fields.mapValues InputValue.undescribed)

/-- a type without descriptions -/
def NamedType.undescribed (type : NamedType) : NamedType :=
  { type with
    description := none
    directives := type.directives.map AppliedDirective.bare
    content := type.content.undescribed }

/-- a declared directive without descriptions -/
def DeclaredDirective.undescribed (directive : DeclaredDirective) : DeclaredDirective :=
  { directive with description := none, arguments := directive.arguments.map InputValue.undescribed }

/-- a schema without descriptions -/
def Schema.undescribed (schema : Schema) : Schema where
  document := []
  types := schema.types.mapValues NamedType.undescribed
  directives := schema.directives.mapValues DeclaredDirective.undescribed
  roots := schema.roots

/-! ## Descriptions -/

/-- what is said about an argument or an input field -/
def InputValue.notes (value : InputValue) : List String :=
  value.description.toList

/-- what is said about a field and its arguments -/
def Field.notes (field : Field) : List String :=
  field.description.toList ++ field.deprecation.toList.map Deprecation.text ++ field.arguments.flatMap InputValue.notes

/-- what is said about a value of an enum -/
def EnumValue.notes (value : EnumValue) : List String :=
  value.description.toList ++ value.deprecation.toList.map Deprecation.text

/-- what is said about a type and all in it -/
def NamedType.notes (type : NamedType) : List String :=
  type.description.toList ++ type.fields.values.flatMap Field.notes ++ type.inputFields.values.flatMap InputValue.notes ++
    type.enumValues.flatMap EnumValue.notes

/-- all descriptions of a schema, and all reasons of deprecations -/
def Schema.notes (schema : Schema) : List String :=
  schema.types.values.flatMap NamedType.notes

theorem contained_field_iff {field : Field} :
    Contained field.notes ↔ Contained (field.description.toList ++ field.deprecation.toList.map Deprecation.text) ∧
      ∀ value ∈ field.arguments, Contained value.notes := by
  rw [← contained_flatMap_iff]
  exact List.forall_mem_append

theorem contained_type_iff {type : NamedType} :
    Contained type.notes ↔ Contained type.description.toList ∧ (∀ field ∈ type.fields.values, Contained field.notes) ∧
      (∀ value ∈ type.inputFields.values, Contained value.notes) ∧ ∀ value ∈ type.enumValues, Contained value.notes := by
  rw [← contained_flatMap_iff, ← contained_flatMap_iff, ← contained_flatMap_iff]
  unfold Contained NamedType.notes
  rw [List.forall_mem_append, List.forall_mem_append, List.forall_mem_append, and_assoc, and_assoc]

/-! ## Look-ups -/

namespace NamedType

variable (type : NamedType)

theorem kind_undescribed : type.undescribed.kind = type.kind := by
  unfold undescribed kind
  cases type.content <;> rfl

theorem fields_undescribed : type.undescribed.fields = type.fields.mapValues Field.undescribed := by
  unfold undescribed fields
  cases type.content <;> rfl

theorem inputFields_undescribed : type.undescribed.inputFields = type.inputFields.mapValues InputValue.undescribed := by
  unfold undescribed inputFields
  cases type.content <;> rfl

theorem interfaces_undescribed : type.undescribed.interfaces = type.interfaces := by
  unfold undescribed interfaces
  cases type.content <;> rfl

theorem members_undescribed : type.undescribed.members = type.members := by
  unfold undescribed members
  cases type.content <;> rfl

theorem enumValues_undescribed : type.undescribed.enumValues = type.enumValues.map EnumValue.undescribed := by
  unfold undescribed enumValues
  cases type.content <;> rfl

end NamedType

theorem Field.carries_undescribed (field : Field) (name : String) : field.undescribed.carries name = field.carries name := by
  unfold carries undescribed
  rw [List.any_map]
  rfl

/-- a field has arguments with descriptions or without -/
theorem filter_arguments_undescribed (fields : List Field) :
    (fields.map Field.undescribed).filter (!·.arguments.isEmpty) =
      (fields.filter (!·.arguments.isEmpty)).map Field.undescribed := by
  rw [List.filter_map]
  congr 1
  exact List.filter_congr fun field _ => congrArg (!·) List.isEmpty_map

namespace Schema

variable (schema : Schema)

theorem type?_undescribed (name : String) : schema.undescribed.type? name = (schema.type? name).map NamedType.undescribed :=
  schema.types.get?_mapValues NamedType.undescribed name

theorem kind?_undescribed (name : String) : schema.undescribed.kind? name = schema.kind? name := by
  rw [kind?, type?_undescribed, Option.map_map, kind?]
  exact congrArg (Option.map · _) (funext NamedType.kind_undescribed)

/-- types that are chosen by what does not hang on descriptions -/
theorem filter_undescribed {p : NamedType → Bool} (hp : ∀ type, p type.undescribed = p type) :
    schema.undescribed.types.values.filter p = (schema.types.values.filter p).map NamedType.undescribed := by
  have hcomp : p ∘ NamedType.undescribed = p := funext hp
  rw [undescribed, Table.values_mapValues, List.filter_map, hcomp]

theorem ofKind_undescribed (kind : TypeKind) :
    schema.undescribed.ofKind kind = (schema.ofKind kind).map NamedType.undescribed :=
  schema.filter_undescribed fun type => by rw [NamedType.kind_undescribed]

theorem ownTypes_undescribed : schema.undescribed.ownTypes = schema.ownTypes.map NamedType.undescribed :=
  schema.filter_undescribed fun _ => rfl

theorem notes_subset_of_mem_ownTypes {type : NamedType} (h : type ∈ schema.ownTypes) : ∀ note ∈ type.notes, note ∈ schema.notes :=
  fun _ hnote => List.mem_flatMap.2 ⟨type, (List.mem_filter.1 h).1, hnote⟩

end Schema

end GraphGen
