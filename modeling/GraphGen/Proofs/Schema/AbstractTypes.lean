/-
The views of abstract types agree.

Which objects an interface or union stands for is told in several ways: by the interfaces of an object and the members of a
union (`Schema.fits`), by the possible types of a name (`Schema.possibleTypes`), by the table and the introspection subset for
caches, and by the introspection result. All are compared with `Schema.Applies`, the condition of the query language.

- `fits_iff_applies`, `mem_possibleTypes_iff_applies`: both ways to ask a schema. The reference checks of a schema are needed
  here: an interface of an object is an interface, and a member of a union is an object.
- `TableLists`, `ResultLists`: what a reader of the generated JSON finds listed for an abstract type.
- `TableEntry`, `ResultEntry`: where it looks. There is what is written for the possible types, in their order (`tableEntry_iff`,
  `subsetEntry_iff`, `answerEntry_iff`).
- `tableLists_iff`, `subsetLists_iff`, `answerLists_iff`: so it finds the possible types.

The introspection result leaves out the types whose names begin with two underscores, abstract ones too
(`answer_leaves_out_meta`); so the main result speaks of the names of abstract types there.

Main result:
- `abstract_views_agree`: all views agree on every object type.
-/
import GraphGen.Proofs.Shape.CollectFields
import GraphGen.Targets.Introspection
import GraphGen.Targets.PossibleTypes

namespace GraphGen

namespace Schema

variable {document : SchemaDocument} {schema : Schema} {concrete condition : String}

/-! ## Asking the schema -/

theorem fits_iff_applies (hs : ofDocument document = .ok schema) :
    schema.fits concrete condition = true ↔ schema.Applies concrete condition := by
  constructor
  · exact applies_of_fits hs
  · rintro (rfl | ⟨-, type, ht, hi⟩ | ⟨-, type, ht, hm⟩)
    · simp [fits]
    · simp [fits, ht, NamedType.implements, hi]
    · -- a member is an object, so that it is known
      obtain ⟨member, hmember, -⟩ := exists_type?_of_kind? (object_of_mem hs ht hm)
      simp [fits, hmember, ht, hm]

/-- an object that names an interface is among the implementors -/
theorem mem_implementors (hs : ofDocument document = .ok schema) {type : NamedType}
    (ht : schema.type? concrete = some type) (hi : condition ∈ type.interfaces) :
    concrete ∈ schema.implementors condition := by
  refine List.mem_flatMap.2 ⟨type, mem_values_of_type? ht, List.mem_map.2 ⟨condition, ?_, name_eq hs ht⟩⟩
  exact List.mem_filter.2 ⟨hi, decide_eq_true rfl⟩

theorem content_of_kind_interface {type : NamedType} (h : type.kind = .interface) :
    ∃ fields, type.content = .interface fields := by
  unfold NamedType.kind at h
  split at h <;> cases h
  exact ⟨_, by assumption⟩

theorem mem_possibleTypes_iff_applies (hs : ofDocument document = .ok schema)
    (ho : schema.kind? concrete = some .object) :
    concrete ∈ schema.possibleTypes condition ↔ schema.Applies concrete condition := by
  constructor
  · exact applies_of_mem_possibleTypes hs
  · rintro (rfl | ⟨hk, type, ht, hi⟩ | ⟨-, type, ht, hm⟩)
    · obtain ⟨type, ht, hobject⟩ := exists_type?_of_kind? ho
      unfold NamedType.kind at hobject
      split at hobject <;> cases hobject
      rename_i hc
      simp [possibleTypes, ht, hc, name_eq hs ht]
    · obtain ⟨abstract, ha, hinterface⟩ := exists_type?_of_kind? hk
      obtain ⟨fields, hc⟩ := content_of_kind_interface hinterface
      simp only [possibleTypes, ha, hc]
      exact mem_implementors hs ht hi
    · unfold NamedType.members at hm
      split at hm
      · rename_i members hc
        simpa [possibleTypes, ht, hc] using hm
      · cases hm

end Schema

/-! ## What the generated JSON lists -/

/-- the table lists a type for an abstract one: its name stands in the array under the name of the abstract type -/
def TableLists (data : Json) (condition concrete : String) : Prop :=
  ∃ table names, data.get? "possibleTypes" = some table ∧ table.get? condition = some (.arr names) ∧
    .str concrete ∈ names

/-- an introspection result lists a type for an abstract one: it has an entry of that name, and one of its possible types has
the name of the type -/
def ResultLists (data : Json) (condition concrete : String) : Prop :=
  ∃ root types entry possible reference, data.get? "__schema" = some root ∧ root.get? "types" = some (.arr types) ∧
    entry ∈ types ∧ entry.get? "name" = some (.str condition) ∧ entry.get? "possibleTypes" = some (.arr possible) ∧
    reference ∈ possible ∧ reference.get? "name" = some (.str concrete)

theorem lookup_map_named {α β : Type} (name : α → String) (value : String → β) (l : List α) (key : String) :
    (l.map fun x => (name x, value (name x))).lookup key =
      if key ∈ l.map name then some (value key) else none := by
  induction l with
  | nil => rfl
  | cons x l ih =>
    rw [List.map_cons, lookup_cons_ite, ih, List.map_cons]
    by_cases hx : key = name x
    · subst hx
      simp
    · simp [hx]

variable {document : SchemaDocument} {schema : Schema} {concrete condition : String}

theorem mem_abstractTypes {kind : TypeKind} (hk : schema.kind? condition = some kind) (ha : kind.isAbstract = true) :
    ∃ type ∈ PossibleTypes.abstractTypes schema, schema.type? condition = some type := by
  obtain ⟨type, ht, rfl⟩ := Schema.exists_type?_of_kind? hk
  exact ⟨type, List.mem_filter.2 ⟨Schema.mem_values_of_type? ht, ha⟩, ht⟩

/-! ## The entries of an abstract type -/

/-- the table has this under the name of an abstract type -/
def TableEntry (data : Json) (condition : String) (held : Json) : Prop :=
  ∃ table, data.get? "possibleTypes" = some table ∧ table.get? condition = some held

/-- an introspection result has an entry of the name, with these references to possible types -/
def ResultEntry (data : Json) (condition : String) (references : List Json) : Prop :=
  ∃ root types entry, data.get? "__schema" = some root ∧ root.get? "types" = some (.arr types) ∧ entry ∈ types ∧
    entry.get? "name" = some (.str condition) ∧ entry.get? "possibleTypes" = some (.arr references)

/-- **The table has the names of the possible types.** -/
theorem tableEntry_iff (hs : Schema.ofDocument document = .ok schema) {kind : TypeKind}
    (hk : schema.kind? condition = some kind) (ha : kind.isAbstract = true) {held : Json} :
    TableEntry (PossibleTypes.table schema) condition held ↔ held = .strings (schema.possibleTypes condition) := by
  obtain ⟨type, hm, ht⟩ := mem_abstractTypes hk ha
  have hname : condition ∈ (PossibleTypes.abstractTypes schema).map (·.name) :=
    List.mem_map.2 ⟨type, hm, Schema.name_eq hs ht⟩
  have hentry := lookup_map_named (·.name) (fun name => Json.strings (schema.possibleTypes name))
    (PossibleTypes.abstractTypes schema) condition
  rw [if_pos hname] at hentry
  constructor
  · rintro ⟨table, htable, hheld⟩
    cases htable
    exact Option.some.inj (hheld.symm.trans hentry)
  · rintro rfl
    exact ⟨_, rfl, hentry⟩

/-- **The introspection subset refers to the possible types.** -/
theorem subsetEntry_iff (hs : Schema.ofDocument document = .ok schema) {kind : TypeKind}
    (hk : schema.kind? condition = some kind) (ha : kind.isAbstract = true) {references : List Json} :
    ResultEntry (PossibleTypes.introspectionSubset schema) condition references ↔
      references = (schema.possibleTypes condition).map fun name => .obj [("name", .str name)] := by
  constructor
  · rintro ⟨root, types, entry, hroot, htypes, he, hn, hp⟩
    cases hroot
    cases htypes
    obtain ⟨type, -, rfl⟩ := List.mem_map.1 he
    cases hn
    cases hp
    rfl
  · rintro rfl
    obtain ⟨type, hm, ht⟩ := mem_abstractTypes hk ha
    have hname := Schema.name_eq hs ht
    subst hname
    exact ⟨_, _, _, rfl, rfl, List.mem_map.2 ⟨type, hm, rfl⟩, rfl, rfl⟩

/-- **The introspection result refers to the possible types** of the abstract types that are not part of the introspection
system. -/
theorem answerEntry_iff (hs : Schema.ofDocument document = .ok schema) {kind : TypeKind}
    (hk : schema.kind? condition = some kind) (ha : kind.isAbstract = true) (descriptions : Bool)
    {references : List Json} :
    ResultEntry (Introspection.answer schema descriptions) condition references ↔
      Text.startsWith "__" condition = false ∧
        references = (schema.possibleTypes condition).map (Introspection.namedRef .object) := by
  constructor
  · rintro ⟨root, types, entry, hroot, htypes, he, hn, hp⟩
    cases hroot
    cases htypes
    obtain ⟨type, hlisted, rfl⟩ := List.mem_map.1 he
    cases hn
    change some (Introspection.itemsWhen type.kind.isAbstract _) = _ at hp
    unfold Introspection.itemsWhen at hp
    split at hp <;> cases hp
    exact ⟨by simpa [NamedType.isMeta] using (List.mem_filter.1 hlisted).2, rfl⟩
  · rintro ⟨hmeta, rfl⟩
    obtain ⟨type, hm, ht⟩ := mem_abstractTypes hk ha
    obtain ⟨hv, habstract⟩ := List.mem_filter.1 hm
    have hname := Schema.name_eq hs ht
    subst hname
    have hlisted : type ∈ Introspection.listedTypes schema := List.mem_filter.2 ⟨hv, by simp [NamedType.isMeta, hmeta]⟩
    refine ⟨_, _, _, rfl, rfl, List.mem_map.2 ⟨type, hlisted, rfl⟩, rfl, ?_⟩
    show some (Introspection.itemsWhen type.kind.isAbstract _) = _
    rw [habstract]
    rfl

/-! ## What they list -/

/-- **The table lists the possible types.** -/
theorem tableLists_iff (hs : Schema.ofDocument document = .ok schema) {kind : TypeKind}
    (hk : schema.kind? condition = some kind) (ha : kind.isAbstract = true) :
    TableLists (PossibleTypes.table schema) condition concrete ↔ concrete ∈ schema.possibleTypes condition := by
  constructor
  · rintro ⟨table, names, htable, hnames, hc⟩
    cases (tableEntry_iff hs hk ha).1 ⟨table, htable, hnames⟩
    obtain ⟨name, hn, hstr⟩ := List.mem_map.1 hc
    cases hstr
    exact hn
  · intro hc
    obtain ⟨table, htable, hnames⟩ := (tableEntry_iff hs hk ha).2 rfl
    exact ⟨table, _, htable, hnames, List.mem_map.2 ⟨concrete, hc, rfl⟩⟩

theorem resultLists_iff {data : Json} :
    ResultLists data condition concrete ↔ ∃ references, ResultEntry data condition references ∧
      ∃ reference ∈ references, reference.get? "name" = some (.str concrete) := by
  constructor
  · rintro ⟨root, types, entry, references, reference, hroot, htypes, he, hn, hp, hr, hc⟩
    exact ⟨references, ⟨root, types, entry, hroot, htypes, he, hn, hp⟩, reference, hr, hc⟩
  · rintro ⟨references, ⟨root, types, entry, hroot, htypes, he, hn, hp⟩, reference, hr, hc⟩
    exact ⟨root, types, entry, references, reference, hroot, htypes, he, hn, hp, hr, hc⟩

/-- references by name refer to the types with the names -/
theorem exists_reference_iff {reference : String → Json} (hr : ∀ name, (reference name).get? "name" = some (.str name))
    {listed : List String} :
    (∃ json ∈ listed.map reference, json.get? "name" = some (.str concrete)) ↔ concrete ∈ listed := by
  simp [hr]

/-- **The introspection subset lists the possible types.** -/
theorem subsetLists_iff (hs : Schema.ofDocument document = .ok schema) {kind : TypeKind}
    (hk : schema.kind? condition = some kind) (ha : kind.isAbstract = true) :
    ResultLists (PossibleTypes.introspectionSubset schema) condition concrete ↔
      concrete ∈ schema.possibleTypes condition := by
  simp only [resultLists_iff, subsetEntry_iff hs hk ha, exists_eq_left]
  exact exists_reference_iff fun _ => rfl

/-- **The introspection result lists the possible types** of the abstract types that are not part of the introspection
system. -/
theorem answerLists_iff (hs : Schema.ofDocument document = .ok schema) {kind : TypeKind}
    (hk : schema.kind? condition = some kind) (ha : kind.isAbstract = true) (descriptions : Bool) :
    ResultLists (Introspection.answer schema descriptions) condition concrete ↔
      Text.startsWith "__" condition = false ∧ concrete ∈ schema.possibleTypes condition := by
  simp only [resultLists_iff, answerEntry_iff hs hk ha descriptions, and_assoc, exists_and_left, exists_eq_left]
  exact and_congr_right fun _ => exists_reference_iff fun _ => rfl

/-! ## The views together -/

/-- **All views of abstract types agree.** In a schema that was built from a document, an object type satisfies a condition on
another type when it is among its possible types, so that the condition of the resolver is either of the two; and when the
other type is abstract, this is when it is listed for that type by the table and by the introspection subset, and, unless the
name begins with two underscores, by the introspection result. -/
theorem abstract_views_agree (hs : Schema.ofDocument document = .ok schema)
    (ho : schema.kind? concrete = some .object) (condition : String) :
    (schema.fits concrete condition = true ↔ concrete ∈ schema.possibleTypes condition) ∧
    (∀ fragments options, ShapeContext.conditionHolds ⟨schema, fragments, options⟩ concrete condition =
      schema.fits concrete condition) ∧
    ∀ kind, schema.kind? condition = some kind → kind.isAbstract = true →
      (TableLists (PossibleTypes.table schema) condition concrete ↔ schema.fits concrete condition = true) ∧
      (ResultLists (PossibleTypes.introspectionSubset schema) condition concrete ↔
        schema.fits concrete condition = true) ∧
      (Text.startsWith "__" condition = false → ∀ descriptions,
        (ResultLists (Introspection.answer schema descriptions) condition concrete ↔
          schema.fits concrete condition = true)) := by
  have hfits : schema.fits concrete condition = true ↔ concrete ∈ schema.possibleTypes condition :=
    (Schema.fits_iff_applies hs).trans (Schema.mem_possibleTypes_iff_applies hs ho).symm
  refine ⟨hfits, fun fragments options => ?_, fun kind hk ha => ⟨?_, ?_, fun hmeta descriptions => ?_⟩⟩
  · have hholds : ShapeContext.conditionHolds ⟨schema, fragments, options⟩ concrete condition = true ↔
        schema.Applies concrete condition := ShapeContext.conditionHolds_iff hs condition
    rw [Bool.eq_iff_iff, hholds, Schema.fits_iff_applies hs]
  · rw [tableLists_iff hs hk ha, hfits]
  · rw [subsetLists_iff hs hk ha, hfits]
  · rw [answerLists_iff hs hk ha, hfits, and_iff_right hmeta]

/-- a user is a node through an extension, and a search finds users and posts -/
def searchSchema : SchemaDocument :=
  [.extension ⟨none, "User", [], .object ["Node"] []⟩,
    .type ⟨none, "User", [], .object [] [⟨none, "name", [], .named "String", []⟩]⟩,
    .type ⟨none, "Post", [], .object [] [⟨none, "text", [], .named "String", []⟩]⟩,
    .type ⟨none, "Node", [], .interface [] [⟨none, "id", [], .named "ID", []⟩]⟩,
    .type ⟨none, "Result", [], .union ["Post", "User"]⟩]

theorem abstract_views_agree_search :
    ∃ schema, Schema.ofDocument searchSchema = .ok schema ∧
      (schema.fits "User" "Node" = true ∧ "User" ∈ schema.possibleTypes "Node" ∧
        ResultLists (Introspection.answer schema true) "Node" "User") ∧
      (schema.fits "Post" "Node" = false ∧ ¬ TableLists (PossibleTypes.table schema) "Node" "Post") ∧
      schema.fits "User" "Result" = true ∧ ResultLists (PossibleTypes.introspectionSubset schema) "Result" "User" := by
  obtain ⟨-, -, huser⟩ := @abstract_views_agree searchSchema _ "User" rfl rfl "Node"
  obtain ⟨-, -, hpost⟩ := @abstract_views_agree searchSchema _ "Post" rfl rfl "Node"
  obtain ⟨-, -, hresult⟩ := @abstract_views_agree searchSchema _ "User" rfl rfl "Result"
  refine ⟨_, rfl, ⟨rfl, by decide +kernel, ?_⟩, ⟨rfl, ?_⟩, rfl, ?_⟩
  · exact ((huser .interface rfl rfl).2.2 (by decide +kernel) true).2 rfl
  · intro hlists
    cases (hpost .interface rfl rfl).1.1 hlists
  · exact (hresult .union rfl rfl).2.1.2 rfl

/-- a user is a node of the introspection system -/
def metaSchema : SchemaDocument :=
  [.type ⟨none, "__Node", [], .interface [] [⟨none, "id", [], .named "ID", []⟩]⟩,
    .type ⟨none, "User", [], .object ["__Node"] [⟨none, "id", [], .named "ID", []⟩]⟩]

/-- **The introspection result does not list the users** that satisfy a condition on their interface, since its name begins
with two underscores -/
theorem answer_leaves_out_meta :
    ∃ schema, Schema.ofDocument metaSchema = .ok schema ∧ schema.kind? "User" = some .object ∧
      schema.kind? "__Node" = some .interface ∧ schema.fits "User" "__Node" = true ∧
      ∀ descriptions, ¬ ResultLists (Introspection.answer schema descriptions) "__Node" "User" := by
  refine ⟨_, rfl, rfl, rfl, rfl, fun descriptions hlists => ?_⟩
  obtain ⟨hmeta, -⟩ := (answerLists_iff (show Schema.ofDocument metaSchema = .ok _ from rfl) rfl rfl descriptions).1 hlists
  have hname : Text.startsWith "__" "__Node" = true := by decide +kernel
  rw [hname] at hmeta
  cases hmeta

end GraphGen
