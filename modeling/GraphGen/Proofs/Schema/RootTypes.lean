/-
The root types of a schema.

Schema definitions name root types by kind, and a later one prevails (`lastRoot_namedRoots`). For a kind that none of them names,
the root type is the type of the default name, where the document defines one. This is decided kind by kind: a schema definition
that names other kinds only does not keep a type of the default name from being a root type.

Main result:
- `root_named_or_default`: the root types of an accepted document.

A type called `Subscription` is a root type, though the schema definition names a query only (`subscription_not_named`).
-/
import GraphGen.Proofs.Schema.Declarable

namespace GraphGen

/-- the type that a schema definition names for a kind -/
def RootDeclaration.named? (d : RootDeclaration) : OperationKind → Option String
  | .query => d.query
  | .mutation => d.mutation
  | .subscription => d.subscription

namespace SchemaDocument

/-- the types that schema definitions name for a kind, in order -/
def rootsNamed (document : SchemaDocument) (kind : OperationKind) : List String :=
  document.filterMap fun
    | .roots d => d.named? kind
    | _ => none

/-- some schema definition names a type for the kind -/
def NamesRoot (document : SchemaDocument) (kind : OperationKind) : Prop :=
  ∃ d name, .roots d ∈ document ∧ d.named? kind = some name

/-- the document defines a type of that name -/
def Defines (document : SchemaDocument) (name : String) : Prop :=
  ∃ d, .type d ∈ document ∧ d.name = name

theorem rootsNamed_ne_nil_iff {document : SchemaDocument} {kind : OperationKind} :
    document.rootsNamed kind ≠ [] ↔ document.NamesRoot kind := by
  constructor
  · intro h
    obtain ⟨name, hm⟩ := List.exists_mem_of_ne_nil _ h
    obtain ⟨definition, hd, hname⟩ := List.mem_filterMap.1 hm
    cases definition with
    | roots d => exact ⟨d, name, hd, hname⟩
    | type _ => cases hname
    | extension _ => cases hname
    | directive _ => cases hname
  · rintro ⟨d, name, hd, hname⟩
    exact List.ne_nil_of_mem (List.mem_filterMap.2 ⟨.roots d, hd, hname⟩)

/-- a name that is not that of a built-in scalar has a type when it is defined -/
theorem defines_iff {document : SchemaDocument} {name : String} (hn : name ∉ Schema.builtinScalars) :
    document.Defines name ↔ ∃ kind, document.HasType name kind := by
  simp only [Defines, HasType, if_neg hn, Schema.mem_definedTypes_iff]
  constructor
  · rintro ⟨d, hd, hname⟩
    exact ⟨d.body.kind, d, hd, hname, rfl⟩
  · rintro ⟨_, d, hd, hname, -⟩
    exact ⟨d, hd, hname⟩

end SchemaDocument

namespace Schema

variable {document : SchemaDocument} {schema : Schema} {kind : OperationKind}

/-- what is named for a kind, by all kinds that a schema definition names types for -/
theorem filter_namedRoots (document : SchemaDocument) (kind : OperationKind) :
    ((namedRoots document).filter (·.1 = kind)).map Prod.snd = document.rootsNamed kind := by
  unfold namedRoots SchemaDocument.rootsNamed
  induction document with
  | nil => rfl
  | cons definition rest ih =>
    rw [List.flatMap_cons, List.filter_append, List.map_append, ih, List.filterMap_cons]
    cases definition with
    | roots d =>
      obtain ⟨_, query, mutation, subscription⟩ := d
      cases kind <;> cases query <;> cases mutation <;> cases subscription <;> rfl
    | type _ => rfl
    | extension _ => rfl
    | directive _ => rfl

/-- **The last schema definition that names a type for a kind prevails.** -/
theorem lastRoot_namedRoots (document : SchemaDocument) (kind : OperationKind) :
    lastRoot (namedRoots document) kind = (document.rootsNamed kind).getLast? := by
  calc lastRoot (namedRoots document) kind
      = ((namedRoots document).reverse.filter (·.1 = kind)).head?.map Prod.snd := by rw [lastRoot, List.head?_filter]
    _ = ((namedRoots document).filter (·.1 = kind)).getLast?.map Prod.snd := by rw [List.filter_reverse, List.head?_reverse]
    _ = (((namedRoots document).filter (·.1 = kind)).map Prod.snd).getLast? := List.getLast?_map.symm
    _ = (document.rootsNamed kind).getLast? := by rw [filter_namedRoots]

/-- the default names are not those of built-in scalars -/
theorem typeName_not_builtin (kind : OperationKind) : kind.typeName ∉ builtinScalars := by
  cases kind <;> decide

theorem contains_typeName_iff {types : Table NamedType} (h : typesOf document = .ok types) :
    types.contains kind.typeName = true ↔ document.Defines kind.typeName := by
  rw [SchemaDocument.defines_iff (typeName_not_builtin kind), Table.contains_iff, Table.mem_keys_iff]
  simp only [← kindIn_typesOf h, kindIn, Option.map_eq_some_iff]
  constructor
  · rintro ⟨type, ht⟩
    exact ⟨type.kind, type, ht, rfl⟩
  · rintro ⟨_, type, ht, -⟩
    exact ⟨type, ht⟩

theorem rootName?_eq_rootOf (hs : ofDocument document = .ok schema) (kind : OperationKind) :
    ∃ types, typesOf document = .ok types ∧ schema.rootName? kind = rootOf types (namedRoots document) kind := by
  obtain ⟨types, ht, -, rfl⟩ := ofDocument_eq_ok_iff.1 hs
  exact ⟨types, ht, by cases kind <;> rfl⟩

/-- the root type of a kind that is named is the one named last -/
theorem rootName?_of_named (hs : ofDocument document = .ok schema) (hk : document.NamesRoot kind) :
    schema.rootName? kind = (document.rootsNamed kind).getLast? := by
  obtain ⟨types, -, hroot⟩ := rootName?_eq_rootOf hs kind
  obtain ⟨name, hname⟩ := Option.isSome_iff_exists.1
    (List.getLast?_isSome.2 (SchemaDocument.rootsNamed_ne_nil_iff.2 hk))
  rw [hroot, rootOf, lastRoot_namedRoots, hname]

/-- the root type of a kind that is not named is the type of the default name -/
theorem rootName?_of_not_named (hs : ofDocument document = .ok schema) (hk : ¬ document.NamesRoot kind) (name : String) :
    schema.rootName? kind = some name ↔ name = kind.typeName ∧ document.Defines name := by
  obtain ⟨types, ht, hroot⟩ := rootName?_eq_rootOf hs kind
  have hnone : document.rootsNamed kind = [] := by
    by_contra h
    exact hk (SchemaDocument.rootsNamed_ne_nil_iff.1 h)
  rw [hroot, rootOf, lastRoot_namedRoots, hnone, List.getLast?_nil]
  dsimp only
  split <;> rename_i hcontains
  · rw [contains_typeName_iff ht] at hcontains
    constructor
    · rintro ⟨⟩
      exact ⟨rfl, hcontains⟩
    · rintro ⟨rfl, -⟩
      rfl
  · rw [contains_typeName_iff ht] at hcontains
    refine iff_of_false nofun ?_
    rintro ⟨rfl, hdefined⟩
    exact hcontains hdefined

/-- **Root types are named, or have the default names.** An accepted document has a root type of a kind when some schema
definition names a type for it or the document defines the type of the default name. The type that is named last is the root type,
whatever else the document defines; where none is named, with or without a schema definition, it is the type of the default
name. -/
theorem root_named_or_default (hs : ofDocument document = .ok schema) (kind : OperationKind) :
    ((∃ name, schema.rootName? kind = some name) ↔ document.NamesRoot kind ∨ document.Defines kind.typeName) ∧
    (document.NamesRoot kind → schema.rootName? kind = (document.rootsNamed kind).getLast?) ∧
    (¬ document.NamesRoot kind → ∀ name, schema.rootName? kind = some name ↔
      name = kind.typeName ∧ document.Defines name) := by
  refine ⟨?_, rootName?_of_named hs, rootName?_of_not_named hs⟩
  by_cases hk : document.NamesRoot kind
  · refine iff_of_true ?_ (.inl hk)
    rw [rootName?_of_named hs hk, ← Option.isSome_iff_exists, List.getLast?_isSome]
    exact SchemaDocument.rootsNamed_ne_nil_iff.2 hk
  · constructor
    · rintro ⟨name, hname⟩
      obtain ⟨rfl, hdefined⟩ := (rootName?_of_not_named hs hk name).1 hname
      exact .inr hdefined
    · rintro (hnamed | hdefined)
      · exact absurd hnamed hk
      · exact ⟨kind.typeName, (rootName?_of_not_named hs hk _).2 ⟨rfl, hdefined⟩⟩

/-- a type with one field of a scalar type -/
def leafType (name field scalar : String) : SchemaDefinition :=
  .type ⟨none, name, [], .object [] [plainField field scalar]⟩

/-- two schema definitions, of which the later one names the query again, and types of the default names -/
def rootedSchema : SchemaDocument :=
  [.roots ⟨[], some "Query", some "Changes", none⟩, leafType "Query" "version" "Int", leafType "Changes" "count" "Int",
    leafType "Subscription" "plan" "String", .roots ⟨[], some "Root", none, none⟩, leafType "Root" "name" "String"]

theorem root_named_or_default_rooted :
    ∃ schema, ofDocument rootedSchema = .ok schema ∧ schema.rootName? .query = some "Root" ∧
      schema.rootName? .mutation = some "Changes" ∧ rootedSchema.Defines "Query" := by
  have hs : ofDocument rootedSchema = .ok _ := rfl
  have hquery := (root_named_or_default hs .query).2.1 ⟨⟨[], some "Root", none, none⟩, "Root", by simp [rootedSchema], rfl⟩
  have hmutation := (root_named_or_default hs .mutation).2.1
    ⟨⟨[], some "Query", some "Changes", none⟩, "Changes", by simp [rootedSchema], rfl⟩
  exact ⟨_, hs, hquery, hmutation, _, List.mem_cons_of_mem _ List.mem_cons_self, rfl⟩

/-- **A type of the default name is a root type, though the schema definition does not name it** -/
theorem subscription_not_named :
    ∃ schema, ofDocument rootedSchema = .ok schema ∧ (∃ d, .roots d ∈ rootedSchema) ∧
      ¬ rootedSchema.NamesRoot .subscription ∧ schema.rootName? .subscription = some "Subscription" := by
  refine ⟨_, rfl, ⟨_, List.mem_cons_self⟩, ?_, rfl⟩
  rw [← SchemaDocument.rootsNamed_ne_nil_iff]
  exact fun h => h rfl

end Schema

end GraphGen
