/-
How often a type is listed for an abstract one.

The possible types of a name are not made distinct anywhere: a union keeps its members, and an interface has an object as often
as the object names it, whether in its definition or in extensions. So the possible types list a type as often as the
declarations of the document name it (`SchemaDocument.timesNamed`, `count_possibleTypes`).

- `resolve_types`: the shapes of selections are for the type they stand on, or for its possible types in order.
- `TableListing`, `ResultListing`: the whole list that a reader of the generated JSON finds for an abstract type, which is that
  of the possible types (`tableListing_iff`, `subsetListing_iff`, `answerListing_iff`).

Main result:
- `listed_once_iff`: types are listed once when they are named once.

An object that names an interface twice is listed twice (`user_listed_twice`).
-/
import GraphGen.Proofs.Schema.AbstractTypes
import GraphGen.Proofs.Schema.Declared
import GraphGen.Proofs.Shape.Results
import Mathlib.Algebra.BigOperators.Group.List.Basic
import Mathlib.Algebra.GroupWithZero.Nat

namespace GraphGen

/-- how often declarations name a type for another one: as a member of it, or by naming it as an interface -/
def SchemaDocument.timesNamed (document : SchemaDocument) (abstract concrete : String) : Nat :=
  (TypePart.members.among document.typeDeclarations abstract).count concrete +
    (TypePart.interfaces.among document.typeDeclarations concrete).count abstract

/-- no type is named more than once for the type of a name -/
def SchemaDocument.NamesOnce (document : SchemaDocument) (abstract : String) : Prop :=
  ∀ concrete, document.timesNamed abstract concrete ≤ 1

/-! ## Possible types -/

/-- the sum over a table of what counts under one name only -/
theorem sum_entries_of_lookup {α : Type} {entries : List (String × α)} (hn : (entryKeys entries).Nodup)
    {weight : String × α → Nat} {key : String} (hw : ∀ entry ∈ entries, entry.1 ≠ key → weight entry = 0) :
    (entries.map weight).sum = ((entries.lookup key).map fun value => weight (key, value)).getD 0 := by
  induction entries with
  | nil => rfl
  | cons entry rest ih =>
    obtain ⟨first, held⟩ := entry
    obtain ⟨hfirst, hrest⟩ := List.nodup_cons.1 hn
    rw [List.map_cons, List.sum_cons, lookup_cons_ite]
    split <;> rename_i hkey
    · subst hkey
      have hnone : ∀ x ∈ rest.map weight, x = 0 := by
        rintro x hx
        obtain ⟨other, ho, rfl⟩ := List.mem_map.1 hx
        exact hw other (List.mem_cons_of_mem _ ho) fun he => hfirst (List.mem_map.2 ⟨other, ho, he⟩)
      rw [List.sum_eq_zero hnone]
      rfl
    · rw [hw (first, held) List.mem_cons_self (Ne.symm hkey), Nat.zero_add]
      exact ih hrest fun other ho => hw other (List.mem_cons_of_mem _ ho)

namespace Schema

variable {document : SchemaDocument} {schema : Schema} {name concrete : String}

theorem interfaces_eq (hs : ofDocument document = .ok schema) {type : NamedType} (ht : schema.type? name = some type) :
    type.interfaces = TypePart.interfaces.among document.typeDeclarations name :=
  held_eq .interfaces hs ht

theorem members_eq (hs : ofDocument document = .ok schema) {type : NamedType} (ht : schema.type? name = some type) :
    type.members = TypePart.members.among document.typeDeclarations name :=
  held_eq .members hs ht

/-- an object is an implementor as often as it names the interface -/
theorem count_implementors (hs : ofDocument document = .ok schema) (interface concrete : String) :
    (schema.implementors interface).count concrete =
      (TypePart.interfaces.among document.typeDeclarations concrete).count interface := by
  have hown : ∀ entry ∈ schema.types.entries, entry.2.name = entry.1 :=
    fun entry he => name_eq hs (Table.get?_eq_some_iff.2 he)
  calc (schema.implementors interface).count concrete
      = (schema.types.entries.map fun entry =>
          if entry.2.name = concrete then entry.2.interfaces.count interface else 0).sum := by
        rw [implementors, List.count_flatMap, Table.values, List.map_map]
        refine congrArg List.sum (List.map_congr_left fun entry _ => ?_)
        have hcount : (entry.2.interfaces.filter (· = interface)).length = entry.2.interfaces.count interface := by
          rw [← List.countP_eq_length_filter, List.count_eq_countP]
          simp only [beq_eq_decide]
        simp [List.count_replicate, hcount]
    _ = ((schema.type? concrete).map fun type => type.interfaces.count interface).getD 0 := by
        rw [sum_entries_of_lookup schema.types.nodup fun entry he hne => if_neg (hown entry he ▸ hne)]
        show ((schema.type? concrete).map _).getD 0 = _
        cases ht : schema.type? concrete with
        | none => rfl
        | some type => simp [name_eq hs ht]
    _ = _ := by
        cases ht : schema.type? concrete with
        | none => rw [among_eq_nil_of_unknown hs ht]; rfl
        | some type => rw [← interfaces_eq hs ht]; rfl

/-- objects name interfaces only -/
theorem count_interfaces_eq_zero (hs : ofDocument document = .ok schema) (hk : schema.kind? name ≠ some .interface)
    (concrete : String) : (TypePart.interfaces.among document.typeDeclarations concrete).count name = 0 := by
  cases ht : schema.type? concrete with
  | none => rw [among_eq_nil_of_unknown hs ht, List.count_nil]
  | some type =>
    refine List.count_eq_zero.2 fun hm => hk ?_
    rw [← interfaces_eq hs ht] at hm
    exact interface_of_mem hs ht hm

/-- unions have members only -/
theorem members_eq_nil (hs : ofDocument document = .ok schema) (hk : schema.kind? name ≠ some .union) :
    TypePart.members.among document.typeDeclarations name = [] := by
  cases ht : schema.type? name with
  | none => exact among_eq_nil_of_unknown hs ht
  | some type =>
    have hkind : type.kind ≠ .union := fun he => hk (Option.map_eq_some_iff.2 ⟨type, ht, he⟩)
    rw [← members_eq hs ht]
    unfold NamedType.kind at hkind
    unfold NamedType.members
    split <;> simp_all

/-- **A type is listed as often as it is named.** -/
theorem count_possibleTypes (hs : ofDocument document = .ok schema) (hk : schema.kind? name ≠ some .object)
    (concrete : String) : (schema.possibleTypes name).count concrete = document.timesNamed name concrete := by
  unfold SchemaDocument.timesNamed
  cases ht : schema.type? name with
  | none =>
    have hkind : schema.kind? name = none := by rw [kind?, ht]; rfl
    rw [members_eq_nil hs (by simp [hkind]), count_interfaces_eq_zero hs (by simp [hkind])]
    simp [possibleTypes, ht]
  | some type =>
    have hkind : schema.kind? name = some type.kind := by rw [kind?, ht]; rfl
    rw [possibleTypes, ht]
    unfold NamedType.kind at hkind
    cases hc : type.content <;> simp only [hc] at hkind ⊢
    case object => exact absurd hkind hk
    case union members =>
      rw [count_interfaces_eq_zero hs (by simp [hkind]), ← members_eq hs ht, NamedType.members, hc]
      rfl
    case interface =>
      rw [members_eq_nil hs (by simp [hkind]), count_implementors hs, List.count_nil, Nat.zero_add]
    all_goals
      rw [members_eq_nil hs (by simp [hkind]), count_interfaces_eq_zero hs (by simp [hkind])]
      rfl

/-- **The possible types are distinct when no type is named twice.** -/
theorem nodup_possibleTypes_iff (hs : ofDocument document = .ok schema) (name : String) :
    (schema.possibleTypes name).Nodup ↔ document.NamesOnce name := by
  by_cases hk : schema.kind? name = some .object
  · -- an object is its only possible type, and nothing names it as an interface or has it as a union
    obtain ⟨type, ht, hobject⟩ := exists_type?_of_kind? hk
    have hself : schema.possibleTypes name = [type.name] := by
      unfold NamedType.kind at hobject
      split at hobject <;> cases hobject
      rename_i hc
      simp [possibleTypes, ht, hc]
    refine iff_of_true (hself ▸ List.nodup_singleton _) fun concrete => ?_
    rw [SchemaDocument.timesNamed, members_eq_nil hs (by simp [hk]), count_interfaces_eq_zero hs (by simp [hk])]
    exact Nat.zero_le 1
  · rw [List.nodup_iff_count_le_one]
    exact forall_congr' fun concrete => by rw [count_possibleTypes hs hk]

end Schema

/-! ## Shapes -/

namespace ShapeContext

variable {document : SchemaDocument} {ctx : ShapeContext} {parent : String}

/-- the types that get a shape are the type itself, or its possible types -/
theorem shapeTypes_ok (hs : Schema.ofDocument document = .ok ctx.schema) {sets : List TaggedSet} {concretes : List String}
    (h : ctx.shapeTypes parent sets = .ok concretes) :
    concretes = [parent] ∨ concretes = ctx.schema.possibleTypes parent := by
  unfold shapeTypes Schema.requireType at h
  cases ht : ctx.schema.type? parent with
  | none =>
    rw [ht] at h
    cases h
  | some type =>
    simp only [ht] at h
    rw [Schema.name_eq hs ht] at h
    repeat' split at h
    all_goals cases h
    all_goals simp

/-- **Shapes are for the types that get one,** in order. -/
theorem resolve_types (hs : Schema.ofDocument document = .ok ctx.schema) {sets : List SelectionSet} {noted : List String}
    {shapes : List TypeShape} (hr : (runResolve (ctx.resolve parent sets) noted).1 = .ok shapes) :
    shapes.map TypeShape.type = [parent] ∨ shapes.map TypeShape.type = ctx.schema.possibleTypes parent := by
  rw [resolve, steady_resolveTagged, resolveTagged, levels, result_shapesUpTo_succ] at hr
  obtain ⟨concretes, ht, hm⟩ := bind_eq_ok_iff.1 hr
  have htypes : shapes.map TypeShape.type = concretes := by
    have hsteps := mapM_eq_ok_iff.1 hm
    clear hr ht hm
    induction hsteps with
    | nil => rfl
    | cons hx _ ih => rw [List.map_cons, ih, (shapeResult_ok hx).1]
  rw [htypes]
  exact shapeTypes_ok hs ht

end ShapeContext

/-! ## What the generated JSON lists -/

/-- the table has this list for an abstract type -/
def TableListing (data : Json) (condition : String) (names : List String) : Prop :=
  TableEntry data condition (.strings names)

/-- an introspection result has this list for an abstract type: the references of its entry are to types with these names -/
def ResultListing (data : Json) (condition : String) (names : List String) : Prop :=
  ∃ references, ResultEntry data condition references ∧ references.map (·.get? "name") = names.map (some ∘ .str)

section Listings

variable {document : SchemaDocument} {schema : Schema} {condition : String} {names : List String}

theorem strings_injective {texts : List String} (h : Json.strings names = .strings texts) : names = texts :=
  List.map_injective_iff.2 (fun _ _ he => Json.str.inj he) (Json.arr.inj h)

theorem map_name_eq_iff {reference : String → Json} (hr : ∀ name, (reference name).get? "name" = some (.str name))
    {listed : List String} :
    (listed.map reference).map (·.get? "name") = names.map (some ∘ .str) ↔ names = listed := by
  have hnames : (fun json : Json => json.get? "name") ∘ reference = some ∘ Json.str := funext hr
  rw [List.map_map, hnames, eq_comm]
  exact (List.map_injective_iff.2 fun _ _ he => Json.str.inj (Option.some.inj he)).eq_iff

/-- **The table has the list of the possible types.** -/
theorem tableListing_iff (hs : Schema.ofDocument document = .ok schema) {kind : TypeKind}
    (hk : schema.kind? condition = some kind) (ha : kind.isAbstract = true) :
    TableListing (PossibleTypes.table schema) condition names ↔ names = schema.possibleTypes condition :=
  (tableEntry_iff hs hk ha).trans ⟨strings_injective, congrArg Json.strings⟩

/-- **The introspection subset has the list of the possible types.** -/
theorem subsetListing_iff (hs : Schema.ofDocument document = .ok schema) {kind : TypeKind}
    (hk : schema.kind? condition = some kind) (ha : kind.isAbstract = true) :
    ResultListing (PossibleTypes.introspectionSubset schema) condition names ↔ names = schema.possibleTypes condition := by
  simp only [ResultListing, subsetEntry_iff hs hk ha, exists_eq_left]
  exact map_name_eq_iff fun _ => rfl

/-- **The introspection result has the list of the possible types** of the abstract types that are not part of the
introspection system. -/
theorem answerListing_iff (hs : Schema.ofDocument document = .ok schema) {kind : TypeKind}
    (hk : schema.kind? condition = some kind) (ha : kind.isAbstract = true)
    (hmeta : Text.startsWith "__" condition = false) (descriptions : Bool) :
    ResultListing (Introspection.answer schema descriptions) condition names ↔
      names = schema.possibleTypes condition := by
  simp only [ResultListing, answerEntry_iff hs hk ha descriptions, hmeta, true_and, exists_eq_left]
  exact map_name_eq_iff fun _ => rfl

end Listings

/-! ## Once -/

/-- **Types are listed once when they are named once.** The possible types of a name in a schema that was built from a document
are distinct exactly when no type is named more than once for it, by all declarations together; then no two shapes of any
selections on it are for the same type. And the lists that a reader finds for an interface or union in the table, in the
introspection subset and, unless its name begins with two underscores, in the introspection result are the possible types. -/
theorem listed_once_iff {document : SchemaDocument} {schema : Schema} (hs : Schema.ofDocument document = .ok schema)
    (name : String) :
    ((schema.possibleTypes name).Nodup ↔ document.NamesOnce name) ∧
    (document.NamesOnce name → ∀ fragments options sets noted shapes,
      (ShapeContext.runResolve (ShapeContext.resolve ⟨schema, fragments, options⟩ name sets) noted).1 = .ok shapes →
        (shapes.map TypeShape.type).Nodup) ∧
    ∀ kind, schema.kind? name = some kind → kind.isAbstract = true → ∀ names,
      (TableListing (PossibleTypes.table schema) name names ↔ names = schema.possibleTypes name) ∧
      (ResultListing (PossibleTypes.introspectionSubset schema) name names ↔ names = schema.possibleTypes name) ∧
      (Text.startsWith "__" name = false → ∀ descriptions,
        (ResultListing (Introspection.answer schema descriptions) name names ↔ names = schema.possibleTypes name)) := by
  have hnodup := Schema.nodup_possibleTypes_iff hs name
  refine ⟨hnodup, fun honce fragments options sets noted shapes hr => ?_, fun kind hk ha names => ?_⟩
  · rcases @ShapeContext.resolve_types document ⟨schema, fragments, options⟩ _ hs _ _ _ hr with hself | hpossible
    · exact hself ▸ List.nodup_singleton name
    · exact hpossible ▸ hnodup.2 honce
  · exact ⟨tableListing_iff hs hk ha, subsetListing_iff hs hk ha, answerListing_iff hs hk ha⟩

/-- selections of the type name only -/
def typenameSelections : SelectionSet :=
  [.field none "__typename" [] [] []]

theorem listed_once_iff_search :
    ∃ schema, Schema.ofDocument searchSchema = .ok schema ∧ searchSchema.NamesOnce "Result" ∧
      (∃ shapes, (ShapeContext.runResolve (ShapeContext.resolve ⟨schema, .empty, .plain⟩ "Result" [typenameSelections])
        []).1 = .ok shapes ∧ shapes.length = 2 ∧ (shapes.map TypeShape.type).Nodup) ∧
      TableListing (PossibleTypes.table schema) "Result" ["Post", "User"] ∧
      ResultListing (PossibleTypes.introspectionSubset schema) "Node" ["User"] ∧
      ResultListing (Introspection.answer schema true) "Result" ["Post", "User"] := by
  obtain ⟨hnodup, hshapes, hlists⟩ := @listed_once_iff searchSchema _ rfl "Result"
  obtain ⟨-, -, hnode⟩ := @listed_once_iff searchSchema _ rfl "Node"
  have honce : searchSchema.NamesOnce "Result" := hnodup.1 (by decide +kernel)
  refine ⟨_, rfl, honce, ⟨_, rfl, rfl, hshapes honce .empty .plain [typenameSelections] [] _ rfl⟩, ?_, ?_, ?_⟩
  · exact (hlists .union rfl rfl _).1.2 rfl
  · exact (hnode .interface rfl rfl _).2.1.2 rfl
  · exact ((hlists .union rfl rfl _).2.2 (by decide +kernel) true).2 rfl

/-- a user that names its interface twice, in its definition and in an extension, and a union that has it twice -/
def repeatingSchema : SchemaDocument :=
  [.type ⟨none, "Node", [], .interface [] [⟨none, "id", [], .named "ID", []⟩]⟩,
    .type ⟨none, "User", [], .object ["Node"] [⟨none, "id", [], .named "ID", []⟩]⟩,
    .extension ⟨none, "User", [], .object ["Node"] []⟩,
    .type ⟨none, "Owner", [], .union ["User", "User"]⟩]

/-- **A type that is named twice is listed twice,** and gets two shapes -/
theorem user_listed_twice :
    ∃ schema, Schema.ofDocument repeatingSchema = .ok schema ∧
      schema.possibleTypes "Node" = ["User", "User"] ∧ ¬ (schema.possibleTypes "Node").Nodup ∧
      ¬ (schema.possibleTypes "Owner").Nodup ∧
      (∃ first second, (ShapeContext.runResolve (ShapeContext.resolve ⟨schema, .empty, .plain⟩ "Owner"
        [typenameSelections]) []).1 = .ok [first, second] ∧ first.type = "User" ∧ second.type = "User") ∧
      TableListing (PossibleTypes.table schema) "Node" ["User", "User"] ∧
      ResultListing (Introspection.answer schema true) "Owner" ["User", "User"] := by
  have haccepted : Schema.ofDocument repeatingSchema = .ok _ := rfl
  refine ⟨_, haccepted, rfl, by decide +kernel, by decide +kernel, ⟨_, _, rfl, rfl, rfl⟩, ?_, ?_⟩
  · exact (tableListing_iff haccepted rfl rfl).2 rfl
  · exact (answerListing_iff haccepted rfl rfl (by decide +kernel) true).2 rfl

end GraphGen
