/-
Schemas that grow by scalars.

Plugins may put definitions behind a schema document: scalars and directives (`SchemaDefinition.isAddition`). The schema of
the longer document has the types of the shorter one in the same order, then the new scalars, and the same root types
(`Schema.Grows`). For the definitions this is so because new names go to the end; extensions change types where they stand.

A scalar has no fields, no interfaces and no members. So the bigger schema says the same of the types that were there:
- `fits_eq`, `possibleTypes_eq`, `requireField_eq`, `isLeaf_eq`.

Main result:
- `grows_of_ofDocument`: the schema of a document with additions behind it.
-/
import GraphGen.Proofs.Schema.Accepted

namespace GraphGen

/-- a definition that a plugin may add: a scalar that does not have the name of a root type, or a directive -/
def SchemaDefinition.isAddition : SchemaDefinition → Bool
  | .type d => d.body.kind = .scalar && [OperationKind.query, .mutation, .subscription].all (·.typeName != d.name)
  | .directive _ => true
  | _ => false

namespace Schema

/-- the other schema has the types of this one, then scalars, and the same root types -/
structure Grows (schema bigger : Schema) : Prop where
  types : ∃ scalars, bigger.types.entries = schema.types.entries ++ scalars ∧
    ∀ entry ∈ scalars, NamedType.content entry.2 = .scalar
  roots : bigger.roots = schema.roots

theorem Grows.refl (schema : Schema) : schema.Grows schema :=
  ⟨⟨[], (List.append_nil _).symm, nofun⟩, rfl⟩

/-! ## What the bigger schema says -/

section Views

variable {schema bigger : Schema} {concrete condition : String}

/-- a name has its type, or it had none and may have that of a new scalar -/
theorem Grows.type?_eq (h : schema.Grows bigger) (name : String) :
    bigger.type? name = schema.type? name ∨
      (schema.type? name = none ∧ ∃ type, bigger.type? name = some type ∧ type.content = .scalar) := by
  obtain ⟨scalars, hentries, hscalar⟩ := h.types
  unfold type? Table.get?
  rw [hentries, List.lookup_append]
  cases schema.types.entries.lookup name with
  | some type => exact Or.inl rfl
  | none =>
    cases hs : scalars.lookup name with
    | none => exact Or.inl rfl
    | some type =>
      obtain ⟨before, after, rfl, -⟩ := List.lookup_eq_some_iff.1 hs
      exact Or.inr ⟨rfl, type, rfl, hscalar (name, type) (by simp)⟩

theorem Grows.type?_of_some (h : schema.Grows bigger) {name : String} {type : NamedType}
    (ht : schema.type? name = some type) : bigger.type? name = some type := by
  rcases h.type?_eq name with he | ⟨hn, -⟩
  · rw [he, ht]
  · rw [ht] at hn
    cases hn

theorem Grows.implementors_eq (h : schema.Grows bigger) (interface : String) :
    bigger.implementors interface = schema.implementors interface := by
  obtain ⟨scalars, hentries, hscalar⟩ := h.types
  have hnone : (scalars.map Prod.snd).flatMap (fun type : NamedType =>
      (type.interfaces.filter (· = interface)).map fun _ => type.name) = [] := by
    rw [List.flatMap_eq_nil_iff]
    intro type hm
    obtain ⟨entry, he, rfl⟩ := List.mem_map.1 hm
    rw [NamedType.interfaces, hscalar entry he]
    rfl
  unfold implementors Table.values
  rw [hentries, List.map_append, List.flatMap_append, hnone, List.append_nil]

theorem Grows.possibleTypes_eq (h : schema.Grows bigger) (name : String) :
    bigger.possibleTypes name = schema.possibleTypes name := by
  unfold possibleTypes
  rw [h.implementors_eq]
  rcases h.type?_eq name with he | ⟨hn, type, ht, hc⟩
  · rw [he]
  · rw [hn, ht]
    dsimp only
    rw [hc]

theorem Grows.fits_eq (h : schema.Grows bigger) {type : NamedType} (ht : schema.type? concrete = some type) :
    bigger.fits concrete condition = schema.fits concrete condition := by
  unfold fits
  rw [ht, h.type?_of_some ht]
  rcases h.type?_eq condition with he | ⟨hn, other, ho, hc⟩
  · rw [he]
  · rw [hn, ho]
    dsimp only
    rw [NamedType.members, hc]
    rfl

theorem Grows.requireType_eq (h : schema.Grows bigger) {type : NamedType} (ht : schema.type? concrete = some type) :
    bigger.requireType concrete = schema.requireType concrete := by
  unfold requireType
  rw [ht, h.type?_of_some ht]

theorem Grows.requireField_eq (h : schema.Grows bigger) {type : NamedType} (ht : schema.type? concrete = some type)
    (field : String) : bigger.requireField concrete field = schema.requireField concrete field := by
  unfold requireField
  rw [h.requireType_eq ht]

theorem Grows.isLeaf_eq (h : schema.Grows bigger) {type : NamedType} (ht : schema.type? concrete = some type) :
    bigger.isLeaf concrete = schema.isLeaf concrete := by
  unfold isLeaf
  rw [ht, h.type?_of_some ht]

end Views

/-! ## Definitions that are put behind -/

/-- a scalar that does not have the name of a root type -/
structure PlainScalar (entry : String × NamedType) : Prop where
  scalar : entry.2.content = .scalar
  notRoot : ∀ kind : OperationKind, kind.typeName ≠ entry.1

/-- the other table has the entries of this one, and then scalars -/
def Padded (small big : Table NamedType) : Prop :=
  ∃ scalars, big.entries = small.entries ++ scalars ∧ ∀ entry ∈ scalars, PlainScalar entry

theorem Padded.refl (types : Table NamedType) : Padded types types :=
  ⟨[], (List.append_nil _).symm, nofun⟩

theorem insertEntry_append_of_mem {α : Type} {key : String} {value : α} {entries : List (String × α)}
    (more : List (String × α)) (h : key ∈ entryKeys entries) :
    insertEntry key value (entries ++ more) = insertEntry key value entries ++ more := by
  induction entries with
  | nil => cases h
  | cons entry rest ih =>
    rw [List.cons_append, insertEntry, insertEntry]
    split
    · rfl
    · rename_i hne
      have hrest : key ∈ entryKeys rest := (List.mem_cons.1 h).resolve_left fun he => hne he.symm
      rw [ih hrest, List.cons_append]

/-- an added definition puts a scalar at the end, or declares a built-in one again -/
theorem Padded.declare {small big next : Table NamedType} (h : Padded small big) {d : TypeDeclaration}
    (hd : (SchemaDefinition.type d).isAddition = true) (hn : declareType big d = .ok next) : Padded small next := by
  obtain ⟨hkind, hnames⟩ := Bool.and_eq_true_iff.1 hd
  obtain ⟨scalars, hentries, hscalar⟩ := h
  unfold declareType at hn
  split at hn
  · rename_i hnone
    cases hn
    refine ⟨scalars ++ [(d.name, .ofDeclaration d)], ?_, fun entry he => ?_⟩
    · rw [Table.entries_insert_of_not_mem (Table.get?_eq_none_iff.1 hnone), hentries, List.append_assoc]
    · rcases List.mem_append.1 he with he | he
      · exact hscalar entry he
      · rw [List.mem_singleton.1 he]
        constructor
        · show TypeContent.ofBody d.body = .scalar
          cases hb : d.body <;> rw [hb] at hkind <;> first | rfl | cases hkind
        · intro kind
          have hkinds : kind ∈ [OperationKind.query, .mutation, .subscription] := by cases kind <;> simp
          exact bne_iff_ne.1 (List.all_eq_true.1 hnames kind hkinds)
  · split at hn
    · cases hn
      exact ⟨scalars, hentries, hscalar⟩
    · cases hn

/-- an extension changes a type where it stands -/
theorem Padded.extend {small big next next' : Table NamedType} (h : Padded small big) {extension : TypeDeclaration}
    (hs : applyExtension small extension = .ok next) (hb : applyExtension big extension = .ok next') :
    Padded next next' := by
  obtain ⟨scalars, hentries, hscalar⟩ := h
  unfold applyExtension at hs hb
  cases hget : small.get? extension.name with
  | none =>
    rw [hget] at hs
    cases hs
  | some type =>
    have hget' : big.get? extension.name = some type := by
      unfold Table.get? at hget ⊢
      rw [hentries, List.lookup_append, hget]
      rfl
    have hmem : extension.name ∈ entryKeys small.entries := Table.mem_keys_iff.2 ⟨type, hget⟩
    rw [hget] at hs
    rw [hget'] at hb
    dsimp only at hs hb
    cases hx : type.extend? extension with
    | none =>
      rw [hx] at hs
      cases hs
    | some extended =>
      rw [hx] at hs hb
      cases hs
      cases hb
      refine ⟨scalars, ?_, hscalar⟩
      show insertEntry _ _ big.entries = _
      rw [hentries, insertEntry_append_of_mem _ hmem]
      rfl

theorem Padded.extendAll {extensions : List TypeDeclaration} {small big last last' : Table NamedType}
    (h : Padded small big) (hs : extensions.foldlM applyExtension small = .ok last)
    (hb : extensions.foldlM applyExtension big = .ok last') : Padded last last' := by
  induction extensions generalizing small big with
  | nil =>
    cases hs
    cases hb
    exact h
  | cons extension extensions ih =>
    rw [List.foldlM_cons] at hs hb
    obtain ⟨next, hnext, hs⟩ := bind_eq_ok_iff.1 hs
    obtain ⟨next', hnext', hb⟩ := bind_eq_ok_iff.1 hb
    exact ih (h.extend hnext hnext') hs hb

section Additions

variable {document additions : SchemaDocument}

theorem padded_typesOf (ha : ∀ d ∈ additions, d.isAddition = true) {small big : Table NamedType}
    (hs : typesOf document = .ok small) (hb : typesOf (document ++ additions) = .ok big) : Padded small big := by
  obtain ⟨defined, hdefined, hs⟩ := bind_eq_ok_iff.1 hs
  obtain ⟨declared, hdeclared, hb⟩ := bind_eq_ok_iff.1 hb
  have hextensions : extensionsOf (document ++ additions) = extensionsOf document := by
    have hnone : extensionsOf additions = [] := by
      refine List.filterMap_eq_nil_iff.2 fun d hd => ?_
      have := ha d hd
      cases d <;> first | rfl | cases this
    unfold extensionsOf at hnone ⊢
    rw [List.filterMap_append, hnone, List.append_nil]
  rw [hextensions] at hb
  unfold definedTypes at hdefined hdeclared
  rw [List.filterMap_append, List.foldlM_append, hdefined] at hdeclared
  have hpadded : Padded defined declared := by
    refine foldlM_invariant (Padded defined) (fun d hd state next hp hn => ?_) (.refl defined) hdeclared
    obtain ⟨definition, hm, hd⟩ := List.mem_filterMap.1 hd
    have hadd := ha definition hm
    cases definition with
    | type found =>
      cases hd
      exact hp.declare hadd hn
    | roots _ => cases hd
    | extension _ => cases hd
    | directive _ => cases hd
  exact hpadded.extendAll hs hb

theorem namedRoots_append (ha : ∀ d ∈ additions, d.isAddition = true) :
    namedRoots (document ++ additions) = namedRoots document := by
  have hnone : namedRoots additions = [] := by
    refine List.flatMap_eq_nil_iff.2 fun d hd => ?_
    have := ha d hd
    cases d <;> first | rfl | cases this
  unfold namedRoots at hnone ⊢
  rw [List.flatMap_append, hnone, List.append_nil]

theorem Padded.rootsOf_eq {small big : Table NamedType} (h : Padded small big)
    (named : List (OperationKind × String)) : rootsOf big named = rootsOf small named := by
  obtain ⟨scalars, hentries, hplain⟩ := h
  have hcontains : ∀ kind : OperationKind, big.contains kind.typeName = small.contains kind.typeName := by
    intro kind
    have hnone : scalars.lookup kind.typeName = none := by
      refine List.lookup_eq_none_iff.2 fun entry he => ?_
      simpa using (hplain entry he).notRoot kind
    unfold Table.contains Table.get?
    rw [hentries, List.lookup_append, hnone, Option.or_none]
  have hroot : ∀ kind, rootOf big named kind = rootOf small named kind := by
    intro kind
    unfold rootOf
    rw [hcontains]
  unfold rootsOf
  rw [hroot, hroot, hroot]

/-- **A document with additions behind it** gives a schema with further scalars. -/
theorem grows_of_ofDocument (ha : ∀ d ∈ additions, d.isAddition = true) {schema bigger : Schema}
    (hs : ofDocument document = .ok schema) (hb : ofDocument (document ++ additions) = .ok bigger) :
    schema.Grows bigger := by
  obtain ⟨small, hsmall, hs⟩ := bind_eq_ok_iff.1 hs
  obtain ⟨_, -, hs⟩ := bind_eq_ok_iff.1 hs
  obtain ⟨big, hbig, hb⟩ := bind_eq_ok_iff.1 hb
  obtain ⟨_, -, hb⟩ := bind_eq_ok_iff.1 hb
  cases hs
  cases hb
  have hpadded := padded_typesOf ha hsmall hbig
  obtain ⟨scalars, hentries, hplain⟩ := hpadded
  refine ⟨⟨scalars, hentries, fun entry he => (hplain entry he).scalar⟩, ?_⟩
  show rootsOf big _ = rootsOf small _
  rw [namedRoots_append ha, Padded.rootsOf_eq ⟨scalars, hentries, hplain⟩]

end Additions

end Schema

end GraphGen
