/-
What holds of an accepted schema.

- what holds of every type: definitions have it, and extensions keep it (`holds_typesOf`). So every type stands under its own
  name (`name_eq`), every field stands in its type under its own name (`name_of_requireField`), and the types that are built in
  are scalars (`scalar_of_builtin`);
- references are checked once all extensions are in. What the check of a type says is `References` (`checkType_eq_ok_iff`): so the
  interfaces of an object are interfaces (`interface_of_mem`), the members of a union are objects (`object_of_mem`), and the types
  of fields are known (`knows_of_requireField`), as those of roots are (`knows_of_rootName?`).
-/
import GraphGen.Proofs.Traversal
import GraphGen.Schema.Build

namespace GraphGen

/-- an extension is of the kind of its type, and keeps it -/
theorem NamedType.extend?_kind {type extended : NamedType} {e : TypeDeclaration} (h : type.extend? e = some extended) :
    e.body.kind = type.kind ∧ extended.kind = type.kind := by
  obtain ⟨content, hc, rfl⟩ := Option.map_eq_some_iff.1 h
  unfold kind
  dsimp only
  unfold TypeContent.extend? at hc
  split at hc <;> cases hc <;> rename_i hcontent hbody <;> rw [hcontent, hbody] <;> exact ⟨rfl, rfl⟩

namespace Schema

/-! ## The types of a document -/

section Types

/-- what holds of every type of a table under its name -/
def Holds (p : String → NamedType → Prop) (types : Table NamedType) : Prop :=
  ∀ name type, types.get? name = some type → p name type

variable {p : String → NamedType → Prop} {types next : Table NamedType}

theorem Holds.insert (h : Holds p types) {name : String} {type : NamedType} (hp : p name type) :
    Holds p (types.insert name type) := by
  intro other found hf
  rw [Table.get?_insert] at hf
  split at hf
  · rename_i hname
    cases hf
    exact hname ▸ hp
  · exact h other found hf

theorem holds_declareType (hd : ∀ d : TypeDeclaration, p d.name (.ofDeclaration d)) {d : TypeDeclaration}
    (h : Holds p types) (hn : declareType types d = .ok next) : Holds p next := by
  unfold declareType at hn
  split at hn
  · cases hn
    exact h.insert (hd d)
  · split at hn
    · cases hn
      exact h
    · cases hn

theorem holds_applyExtension
    (he : ∀ name type extension extended, p name type → type.extend? extension = some extended → p name extended)
    {extension : TypeDeclaration} (h : Holds p types) (hn : applyExtension types extension = .ok next) : Holds p next := by
  unfold applyExtension at hn
  split at hn
  · cases hn
  · rename_i type hget
    split at hn
    · rename_i extended hx
      cases hn
      exact h.insert (he _ type extension extended (h _ type hget) hx)
    · cases hn

/-- **What holds of every type of a document:** whatever holds of the built-in scalars and of every definition and is kept by
extensions. -/
theorem holds_typesOf (hb : Holds p builtinTypes) (hd : ∀ d : TypeDeclaration, p d.name (.ofDeclaration d))
    (he : ∀ name type extension extended, p name type → type.extend? extension = some extended → p name extended)
    {document : SchemaDocument} (h : typesOf document = .ok types) : Holds p types := by
  obtain ⟨defined, hdefined, hextended⟩ := bind_eq_ok_iff.1 h
  have hheld : Holds p defined :=
    foldlM_invariant (Holds p) (fun _ _ _ _ hs hn => holds_declareType hd hs hn) hb hdefined
  exact foldlM_invariant (Holds p) (fun _ _ _ _ hs hn => holds_applyExtension he hs hn) hheld hextended

/-- every type stands under its own name -/
def UnderOwnNames (types : Table NamedType) : Prop :=
  Holds (fun name type => type.name = name) types

theorem underOwnNames_typesOf {document : SchemaDocument} (h : typesOf document = .ok types) : UnderOwnNames types := by
  refine holds_typesOf (fun name type ht => ?_) (fun _ => rfl) (fun name type extension extended hname hx => ?_) h
  · have hentries : ∀ entry ∈ builtinTypes.entries, entry.2.name = entry.1 := by decide
    exact hentries (name, type) (Table.get?_eq_some_iff.1 ht)
  · obtain ⟨content, -, rfl⟩ := Option.map_eq_some_iff.1 hx
    exact hname

/-- the types that are built in are scalars -/
theorem scalar_of_builtin {document : SchemaDocument} (h : typesOf document = .ok types) {name : String} {type : NamedType}
    (ht : types.get? name = some type) (hb : type.builtin = true) : type.kind = .scalar := by
  refine holds_typesOf (p := fun _ type => type.builtin = true → type.kind = .scalar) (fun name type ht _ => ?_)
    (fun _ => nofun) (fun name type extension extended hscalar hx hb => ?_) h name type ht hb
  · have hentries : ∀ entry ∈ builtinTypes.entries, entry.2.kind = .scalar := by decide
    exact hentries (name, type) (Table.get?_eq_some_iff.1 ht)
  · have hkept : extended.builtin = type.builtin := by
      obtain ⟨content, -, rfl⟩ := Option.map_eq_some_iff.1 hx
      rfl
    rw [(NamedType.extend?_kind hx).2, hscalar (hkept ▸ hb)]

/-- every field stands under its own name -/
def FieldsNamed (fields : Table Field) : Prop :=
  ∀ name field, fields.get? name = some field → field.name = name

theorem FieldsNamed.insertAll {fields : Table Field} (h : FieldsNamed fields) (added : List FieldDeclaration) :
    FieldsNamed (fields.insertAll (fieldEntries added)) := by
  intro name field hf
  rcases Table.mem_of_get?_insertAll hf with hadded | hbefore
  · obtain ⟨d, -, hentry⟩ := List.mem_map.1 hadded
    cases hentry
    rfl
  · exact h name field hbefore

theorem fieldsNamed_ofList (declared : List FieldDeclaration) : FieldsNamed (.ofList (fieldEntries declared)) := by
  have hempty : FieldsNamed .empty := nofun
  exact hempty.insertAll declared

theorem fieldsNamed_ofDeclaration (d : TypeDeclaration) : FieldsNamed (NamedType.ofDeclaration d).fields := by
  unfold NamedType.ofDeclaration NamedType.fields TypeContent.ofBody
  cases d.body with
  | object _ fields => exact fieldsNamed_ofList fields
  | interface _ fields => exact fieldsNamed_ofList fields
  | _ => exact nofun

theorem fieldsNamed_extend? {type extended : NamedType} {e : TypeDeclaration} (h : FieldsNamed type.fields)
    (hx : type.extend? e = some extended) : FieldsNamed extended.fields := by
  obtain ⟨content, hc, rfl⟩ := Option.map_eq_some_iff.1 hx
  unfold NamedType.fields at h ⊢
  dsimp only at h ⊢
  unfold TypeContent.extend? at hc
  split at hc <;> cases hc <;> rename_i hcontent _ <;> rw [hcontent] at h
  · exact nofun
  · exact h.insertAll _
  · exact h.insertAll _
  · exact nofun
  · exact nofun
  · exact nofun

/-- every field of a document stands in its type under its own name -/
theorem fieldsNamed_typesOf {document : SchemaDocument} (h : typesOf document = .ok types) {name : String}
    {type : NamedType} (ht : types.get? name = some type) : FieldsNamed type.fields := by
  refine holds_typesOf (p := fun _ type => FieldsNamed type.fields) (fun name type ht => ?_) fieldsNamed_ofDeclaration
    (fun _ _ _ _ => fieldsNamed_extend?) h name type ht
  have hentries : ∀ entry ∈ builtinTypes.entries, entry.2.fields.entries = [] := by decide
  intro key field hf
  have hmem := Table.get?_eq_some_iff.1 hf
  rw [hentries (name, type) (Table.get?_eq_some_iff.1 ht)] at hmem
  cases hmem

end Types

/-! ## References -/

/-- a type refers to types that are known, its interfaces are interfaces, and its members objects -/
structure References (types : Table NamedType) (type : NamedType) : Prop where
  fields : ∀ field ∈ type.fields.values,
    field.type.name ∈ types.keys ∧ ∀ argument ∈ field.arguments, argument.type.name ∈ types.keys
  inputFields : ∀ field ∈ type.inputFields.values, field.type.name ∈ types.keys
  interfaces : ∀ interface ∈ type.interfaces, kindIn types interface = some .interface
  members : ∀ member ∈ type.members, kindIn types member = some .object

theorem ite_ok_eq_ok_iff {p : Prop} [Decidable p] {error : Error} : (if p then .ok () else .error error) = Except.ok () ↔ p := by
  split <;> rename_i hp
  · exact iff_of_true rfl hp
  · exact iff_of_false nofun hp

theorem checkKnown_eq_ok_iff {types : Table NamedType} {name : String} :
    checkKnown types name = .ok () ↔ name ∈ types.keys := by
  rw [← Table.contains_iff]
  exact ite_ok_eq_ok_iff

theorem checkField_eq_ok_iff {types : Table NamedType} {field : Field} : checkField types field = .ok () ↔
    field.type.name ∈ types.keys ∧ ∀ argument ∈ field.arguments, argument.type.name ∈ types.keys := by
  unfold checkField
  simp only [check_bind_eq_ok_iff, forM_eq_ok_iff, checkKnown_eq_ok_iff]

/-- **What the check of a type says.** -/
theorem checkType_eq_ok_iff {types : Table NamedType} {type : NamedType} :
    checkType types type = .ok () ↔ References types type := by
  unfold checkType
  simp only [check_bind_eq_ok_iff, forM_eq_ok_iff, checkField_eq_ok_iff, checkKnown_eq_ok_iff, ite_ok_eq_ok_iff]
  constructor
  · rintro ⟨hf, hinputs, hi, hm⟩
    exact ⟨hf, hinputs, hi, hm⟩
  · rintro ⟨hf, hinputs, hi, hm⟩
    exact ⟨hf, hinputs, hi, hm⟩

/-- **What the check of a schema says:** root types are known, and all types refer to types. -/
theorem refuseUnknownTypes_eq_ok_iff {types : Table NamedType} {named : List (OperationKind × String)} :
    refuseUnknownTypes types named = .ok () ↔
      (∀ kind ∈ rootCheckOrder named, ∀ name, lastRoot named kind = some name → name ∈ types.keys) ∧
        ∀ type ∈ types.values, References types type := by
  unfold refuseUnknownTypes
  simp only [check_bind_eq_ok_iff, forM_eq_ok_iff, checkType_eq_ok_iff]
  refine and_congr_left fun _ => forall₂_congr fun kind _ => ?_
  cases lastRoot named kind with
  | none => exact iff_of_true rfl nofun
  | some name => simp [checkKnown_eq_ok_iff]

variable {document : SchemaDocument} {schema : Schema}

/-- a document has a schema when it has types and its references are known -/
theorem ofDocument_eq_ok_iff :
    ofDocument document = .ok schema ↔ ∃ types, typesOf document = .ok types ∧
      refuseUnknownTypes types (namedRoots document) = .ok () ∧
      schema = ⟨document, types, declaredDirectives document, rootsOf types (namedRoots document)⟩ := by
  unfold ofDocument
  simp only [bind_eq_ok_iff]
  refine exists_congr fun types => and_congr_right fun _ => ?_
  constructor
  · rintro ⟨_, hr, h⟩
    cases h
    exact ⟨hr, rfl⟩
  · rintro ⟨hr, rfl⟩
    exact ⟨(), hr, rfl⟩

/-- what an accepted document gives: types under their own names, which refer to types -/
theorem ofDocument_ok (h : ofDocument document = .ok schema) :
    UnderOwnNames schema.types ∧ ∀ type ∈ schema.types.values, References schema.types type := by
  obtain ⟨types, ht, hr, rfl⟩ := ofDocument_eq_ok_iff.1 h
  exact ⟨underOwnNames_typesOf ht, (refuseUnknownTypes_eq_ok_iff.1 hr).2⟩

theorem name_eq (h : ofDocument document = .ok schema) {key : String} {type : NamedType}
    (ht : schema.type? key = some type) : type.name = key :=
  (ofDocument_ok h).1 key type ht

theorem mem_values_of_type? {key : String} {type : NamedType} (ht : schema.type? key = some type) :
    type ∈ schema.types.values :=
  List.mem_map.2 ⟨(key, type), Table.get?_eq_some_iff.1 ht, rfl⟩

theorem exists_type?_of_kind? {name : String} {kind : TypeKind} (h : schema.kind? name = some kind) :
    ∃ type, schema.type? name = some type ∧ type.kind = kind :=
  Option.map_eq_some_iff.1 h

/-- the types of the schema are those that are found under their names -/
theorem type?_name (h : ofDocument document = .ok schema) {type : NamedType} (hm : type ∈ schema.types.values) :
    schema.type? type.name = some type := by
  obtain ⟨⟨key, _⟩, he, rfl⟩ := List.mem_map.1 hm
  have hget := Table.get?_eq_some_iff.2 he
  rw [name_eq h hget]
  exact hget

theorem kind_of_builtin (h : ofDocument document = .ok schema) {key : String} {type : NamedType}
    (ht : schema.type? key = some type) (hb : type.builtin = true) : type.kind = .scalar := by
  obtain ⟨types, htypes, -, rfl⟩ := ofDocument_eq_ok_iff.1 h
  exact scalar_of_builtin htypes ht hb

theorem interface_of_mem (h : ofDocument document = .ok schema) {key interface : String} {type : NamedType}
    (ht : schema.type? key = some type) (hi : interface ∈ type.interfaces) : schema.kind? interface = some .interface :=
  ((ofDocument_ok h).2 type (mem_values_of_type? ht)).interfaces interface hi

theorem object_of_mem (h : ofDocument document = .ok schema) {key member : String} {type : NamedType}
    (ht : schema.type? key = some type) (hm : member ∈ type.members) : schema.kind? member = some .object :=
  ((ofDocument_ok h).2 type (mem_values_of_type? ht)).members member hm

/-! ## Known types -/

/-- the schema has a type of that name -/
def Knows (schema : Schema) (name : String) : Prop :=
  ∃ type, schema.type? name = some type

theorem knows_of_kind? {name : String} {kind : TypeKind} (h : schema.kind? name = some kind) : schema.Knows name := by
  obtain ⟨type, ht, -⟩ := exists_type?_of_kind? h
  exact ⟨type, ht⟩

theorem knows_of_mem_keys {name : String} (h : name ∈ schema.types.keys) : schema.Knows name :=
  Table.mem_keys_iff.1 h

/-- the types of fields and of their arguments are known -/
theorem knows_of_mem_fields (h : ofDocument document = .ok schema) {type : NamedType} (hm : type ∈ schema.types.values) :
    ∀ field ∈ type.fields.values,
      schema.Knows field.type.name ∧ ∀ argument ∈ field.arguments, schema.Knows argument.type.name := by
  intro field hf
  obtain ⟨htype, harguments⟩ := ((ofDocument_ok h).2 type hm).fields field hf
  exact ⟨knows_of_mem_keys htype, fun argument ha => knows_of_mem_keys (harguments argument ha)⟩

/-- the types of input fields are known -/
theorem knows_of_mem_inputFields (h : ofDocument document = .ok schema) {type : NamedType}
    (hm : type ∈ schema.types.values) : ∀ field ∈ type.inputFields.values, schema.Knows field.type.name := by
  intro field hf
  exact knows_of_mem_keys (((ofDocument_ok h).2 type hm).inputFields field hf)

/-- a field that is found stands in its type -/
theorem exists_of_requireField {type name : String} {field : Field} (hf : schema.requireField type name = .ok field) :
    ∃ found, schema.type? type = some found ∧ found.fields.get? name = some field := by
  unfold requireField requireType at hf
  cases ht : schema.type? type with
  | none =>
    rw [ht] at hf
    cases hf
  | some found =>
    rw [ht] at hf
    dsimp only at hf
    split at hf
    · rename_i _ hget
      cases hf
      exact ⟨found, rfl, hget⟩
    · cases hf

/-- a field has the name that it is found under -/
theorem name_of_requireField (h : ofDocument document = .ok schema) {type name : String} {field : Field}
    (hf : schema.requireField type name = .ok field) : field.name = name := by
  obtain ⟨types, htypes, -, rfl⟩ := ofDocument_eq_ok_iff.1 h
  obtain ⟨found, ht, hget⟩ := exists_of_requireField hf
  exact fieldsNamed_typesOf htypes ht name field hget

/-- the type of a field is known -/
theorem knows_of_requireField (h : ofDocument document = .ok schema) {type name : String} {field : Field}
    (hf : schema.requireField type name = .ok field) : schema.Knows field.type.name := by
  obtain ⟨found, ht, hget⟩ := exists_of_requireField hf
  have hmem : field ∈ found.fields.values := List.mem_map.2 ⟨(name, field), Table.get?_eq_some_iff.1 hget, rfl⟩
  exact (knows_of_mem_fields h (mem_values_of_type? ht) field hmem).1

/-- every kind of operation that is named a root type is checked -/
theorem mem_rootCheckOrder {named : List (OperationKind × String)} {kind : OperationKind}
    (h : kind ∈ named.map Prod.fst) : kind ∈ rootCheckOrder named := by
  have horder : kind ∈ (named.map Prod.fst).eraseDups := List.mem_eraseDups.2 h
  have hothers : kind ≠ .query → kind ∈ ((named.map Prod.fst).eraseDups.filter (· ≠ .query)).reverse :=
    fun hq => List.mem_reverse.2 (List.mem_filter.2 ⟨horder, by simpa using hq⟩)
  unfold rootCheckOrder
  dsimp only
  by_cases hq : kind = .query
  · subst hq
    split
    · simp
    · exact List.mem_append_left _ (List.mem_filter.2 ⟨horder, by simp⟩)
  · have hmem := hothers hq
    split
    · rename_i hsplit _
      rw [hsplit] at hmem
      rcases List.mem_cons.1 hmem with rfl | hmem
      · simp
      · rw [List.mem_singleton.1 hmem]
        simp
    · exact List.mem_append_right _ hmem

/-- root types are known: those that are named were checked, and the others are types of the default names -/
theorem knows_of_rootName? (h : ofDocument document = .ok schema) {kind : OperationKind} {name : String}
    (hr : schema.rootName? kind = some name) : schema.Knows name := by
  obtain ⟨types, -, hchecked, rfl⟩ := ofDocument_eq_ok_iff.1 h
  obtain ⟨hroots, -⟩ := refuseUnknownTypes_eq_ok_iff.1 hchecked
  have hroot : rootOf types (namedRoots document) kind = some name := by
    cases kind <;> exact hr
  unfold rootOf at hroot
  split at hroot
  · rename_i last hlast
    cases hroot
    have hkind : kind ∈ (namedRoots document).map Prod.fst := by
      obtain ⟨entry, he, -⟩ := Option.map_eq_some_iff.1 hlast
      have hfound : entry.1 = kind := by simpa using List.find?_some he
      exact List.mem_map.2 ⟨entry, List.mem_reverse.1 (List.mem_of_find?_eq_some he), hfound⟩
    exact Table.mem_keys_iff.1 (hroots kind (mem_rootCheckOrder hkind) _ hlast)
  · split at hroot
    · rename_i hcontains
      cases hroot
      exact Table.mem_keys_iff.1 (Table.contains_iff.1 hcontains)
    · cases hroot

/-- a type that values of another type can have is an object -/
theorem object_of_mem_possibleTypes (h : ofDocument document = .ok schema) {name concrete : String}
    (hc : concrete ∈ schema.possibleTypes name) : schema.kind? concrete = some .object := by
  unfold possibleTypes at hc
  split at hc
  · cases hc
  · rename_i type ht
    split at hc
    · rename_i hcontent
      rw [List.mem_singleton.1 hc, name_eq h ht, kind?, ht, Option.map_some, NamedType.kind, hcontent]
    · rename_i hcontent
      exact object_of_mem h ht (by rw [NamedType.members, hcontent]; exact hc)
    · obtain ⟨implementor, hv, hn⟩ := List.mem_flatMap.1 hc
      obtain ⟨interface, hf, rfl⟩ := List.mem_map.1 hn
      have hi := (List.mem_filter.1 hf).1
      rw [kind?, type?_name h hv, Option.map_some, NamedType.kind]
      unfold NamedType.interfaces at hi
      split at hi
      · rename_i hcontent
        rw [hcontent]
      · cases hi
    · cases hc

end Schema

end GraphGen
