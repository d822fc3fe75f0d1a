/-
The schema of a sorted document.

Sorting a document puts its definitions in another order, and the fields and values of types. A schema does not depend on the
order of definitions, but for those at one place: definitions of one name, extensions of one type, directives of one name and
schema definitions. These keep their order (`flatMap_mergeSort`), and so do fields of one name, of which the last one counts.

- `checked_iff`: whether references are known does not depend on the order.
- `sameTypes_sorted`: the types of a sorted document are those of the document.

Main result:
- `sameSchema_sorted`: a sorted document is in order, and it is accepted when the document is, with the same schema up to order.
-/
import GraphGen.Proofs.Schema.Declarable
import GraphGen.Proofs.Sdl.Sorting
import Mathlib.Data.List.Perm.Basic

namespace GraphGen

/-! ## Schemas up to order -/

/-- the types are the same but for the order of fields, input fields and enum values -/
structure NamedType.SameUpToOrder (type other : NamedType) : Prop where
  name : other.name = type.name
  description : other.description = type.description
  directives : other.directives = type.directives
  builtin : other.builtin = type.builtin
  kind : other.kind = type.kind
  fields : ∀ key, other.fields.get? key = type.fields.get? key
  inputFields : ∀ key, other.inputFields.get? key = type.inputFields.get? key
  interfaces : other.interfaces = type.interfaces
  members : other.members = type.members
  enumValues : other.enumValues.Perm type.enumValues

/-- the same names have types, and these are the same up to order -/
def SameTypes (types others : Table NamedType) : Prop :=
  ∀ name, Option.Rel NamedType.SameUpToOrder (types.get? name) (others.get? name)

/-- the schemas have the same types up to order, the same directives and the same root types -/
structure Schema.SameUpToOrder (schema other : Schema) : Prop where
  types : SameTypes schema.types other.types
  directives : ∀ name, other.directives.get? name = schema.directives.get? name
  roots : other.roots = schema.roots

section SameTypes

variable {types others : Table NamedType} {type other : NamedType}

/-- a name has a type in both or in neither -/
theorem SameTypes.get?_cases (h : SameTypes types others) (name : String) :
    types.get? name = none ∧ others.get? name = none ∨
      ∃ type other, types.get? name = some type ∧ others.get? name = some other ∧ type.SameUpToOrder other := by
  have hrel := h name
  generalize types.get? name = found at hrel ⊢
  generalize others.get? name = found' at hrel ⊢
  cases hrel with
  | none => exact .inl ⟨rfl, rfl⟩
  | some hsame => exact .inr ⟨_, _, rfl, rfl, hsame⟩

theorem SameTypes.kindIn_eq (h : SameTypes types others) (name : String) :
    Schema.kindIn others name = Schema.kindIn types name := by
  unfold Schema.kindIn
  rcases h.get?_cases name with ⟨hn, hn'⟩ | ⟨type, other, ht, ho, hsame⟩
  · rw [hn, hn']
  · rw [ht, ho, Option.map_some, Option.map_some, hsame.kind]

theorem SameTypes.contains_eq (h : SameTypes types others) (name : String) :
    others.contains name = types.contains name := by
  unfold Table.contains
  rcases h.get?_cases name with ⟨hn, hn'⟩ | ⟨type, other, ht, ho, -⟩
  · rw [hn, hn']
  · rw [ht, ho, Option.isSome_some, Option.isSome_some]

theorem SameTypes.mem_keys_iff (h : SameTypes types others) (name : String) : name ∈ others.keys ↔ name ∈ types.keys := by
  rw [← Table.contains_iff, ← Table.contains_iff, h.contains_eq]

/-- references are a matter of what stands under the names of fields -/
theorem Schema.references_iff : Schema.References types type ↔
    (∀ key field, type.fields.get? key = some field →
      field.type.name ∈ types.keys ∧ ∀ argument ∈ field.arguments, argument.type.name ∈ types.keys) ∧
    (∀ key field, type.inputFields.get? key = some field → field.type.name ∈ types.keys) ∧
    (∀ interface ∈ type.interfaces, Schema.kindIn types interface = some .interface) ∧
    ∀ member ∈ type.members, Schema.kindIn types member = some .object := by
  rw [← Table.forall_values_iff, ← Table.forall_values_iff]
  constructor
  · rintro ⟨hfields, hinputs, hinterfaces, hmembers⟩
    exact ⟨hfields, hinputs, hinterfaces, hmembers⟩
  · rintro ⟨hfields, hinputs, hinterfaces, hmembers⟩
    exact ⟨hfields, hinputs, hinterfaces, hmembers⟩

theorem NamedType.SameUpToOrder.references_iff (hsame : type.SameUpToOrder other) (h : SameTypes types others) :
    Schema.References others other ↔ Schema.References types type := by
  rw [Schema.references_iff, Schema.references_iff]
  simp only [hsame.fields, hsame.inputFields, hsame.interfaces, hsame.members, h.mem_keys_iff, h.kindIn_eq]

/-- **Whether references are known does not depend on the order.** -/
theorem SameTypes.checked_iff (h : SameTypes types others) (named : List (OperationKind × String)) :
    Schema.refuseUnknownTypes others named = .ok () ↔ Schema.refuseUnknownTypes types named = .ok () := by
  have hall : (∀ type ∈ others.values, Schema.References others type) ↔ ∀ type ∈ types.values, Schema.References types type := by
    rw [Table.forall_values_iff, Table.forall_values_iff]
    refine forall_congr' fun name => ?_
    rcases h.get?_cases name with ⟨hn, hn'⟩ | ⟨type, other, ht, ho, hsame⟩
    · simp [hn, hn']
    · simpa [ht, ho] using hsame.references_iff h
  rw [Schema.refuseUnknownTypes_eq_ok_iff, Schema.refuseUnknownTypes_eq_ok_iff, hall]
  simp only [h.mem_keys_iff]

theorem SameTypes.rootsOf_eq (h : SameTypes types others) (named : List (OperationKind × String)) :
    Schema.rootsOf others named = Schema.rootsOf types named := by
  have hroot : ∀ kind, Schema.rootOf others named kind = Schema.rootOf types named kind := by
    intro kind
    unfold Schema.rootOf
    rw [h.contains_eq]
  unfold Schema.rootsOf
  rw [hroot, hroot, hroot]

end SameTypes

/-! ## Sorted documents -/

/-- the fields, input fields and values of a body are in the order of their names -/
structure TypeBody.InOrder (body : TypeBody) : Prop where
  fields : body.fields.Pairwise fun a b => a.name ≤ b.name
  inputFields : body.inputFields.Pairwise fun a b => a.name ≤ b.name
  enumValues : body.enumValues.Pairwise fun a b => a.name ≤ b.name

/-- the definitions of a document are in the order of groups and names, and so are types on the inside -/
structure SchemaDocument.InOrder (document : SchemaDocument) : Prop where
  definitions : document.Pairwise fun a b => a.before b = true
  inside : ∀ d ∈ Schema.definedTypes document, d.body.InOrder

/-- a declaration with its fields or values by name -/
def TypeDeclaration.sorted (d : TypeDeclaration) : TypeDeclaration :=
  { d with body := d.body.sorted }

theorem SchemaDefinition.sorted_eq_mapTypes : SchemaDefinition.sorted = .mapTypes TypeDeclaration.sorted id := by
  funext definition
  cases definition <;> rfl

namespace TypeBody

theorem kind_sorted (body : TypeBody) : body.sorted.kind = body.kind := by
  cases body <;> rfl

theorem interfaces_sorted (body : TypeBody) : body.sorted.interfaces = body.interfaces := by
  cases body <;> rfl

theorem members_sorted (body : TypeBody) : body.sorted.members = body.members := by
  cases body <;> rfl

/-- fields of one name keep their order -/
theorem filter_fields_sorted (key : String) (body : TypeBody) :
    body.sorted.fields.filter (·.name = key) = body.fields.filter (·.name = key) := by
  cases body with
  | object _ fields => exact filter_sortByName _ fields key
  | interface _ fields => exact filter_sortByName _ fields key
  | _ => rfl

/-- input fields of one name keep their order -/
theorem filter_inputFields_sorted (key : String) (body : TypeBody) :
    body.sorted.inputFields.filter (·.name = key) = body.inputFields.filter (·.name = key) := by
  cases body with
  | inputObject fields => exact filter_sortByName _ fields key
  | _ => rfl

theorem enumValues_sorted_perm (body : TypeBody) : body.sorted.enumValues.Perm body.enumValues := by
  cases body with
  | enum values => exact sortByName_perm _ values
  | _ => exact .refl _

theorem inOrder_sorted (body : TypeBody) : body.sorted.InOrder := by
  cases body with
  | object _ fields => exact ⟨sortByName_pairwise _ fields, .nil, .nil⟩
  | interface _ fields => exact ⟨sortByName_pairwise _ fields, .nil, .nil⟩
  | enum values => exact ⟨.nil, .nil, sortByName_pairwise _ values⟩
  | inputObject fields => exact ⟨.nil, sortByName_pairwise _ fields, .nil⟩
  | _ => exact ⟨.nil, .nil, .nil⟩

end TypeBody

namespace Schema

/-- **What is made of definitions at one place** is the same in sorted order. -/
theorem flatMap_mergeSort {β : Type} {f : SchemaDefinition → List β} (place : Nat × String)
    (hf : ∀ d : SchemaDefinition, d.place ≠ place → f d = []) (document : SchemaDocument) :
    (document.mergeSort SchemaDefinition.before).flatMap f = document.flatMap f := by
  have hleft : ∀ d : SchemaDefinition, decide (d.place = place) = false → f d = [] :=
    fun d hd => hf d (of_decide_eq_false hd)
  calc (document.mergeSort SchemaDefinition.before).flatMap f
      = ((document.mergeSort SchemaDefinition.before).filter (·.place = place)).flatMap f :=
        (flatMap_filter hleft _).symm
    _ = (document.filter (·.place = place)).flatMap f := by rw [SchemaDocument.filter_place]
    _ = document.flatMap f := flatMap_filter hleft document

/-- what is made of definitions of one group keeps its order for every name -/
theorem filter_filterMap_mergeSort {β : Type} {f : SchemaDefinition → Option β} {key : β → String} (group : Nat)
    (hf : ∀ d item, f d = some item → d.place = (group, key item)) (document : SchemaDocument) (name : String) :
    ((document.mergeSort SchemaDefinition.before).filterMap f).filter (key · = name) =
      (document.filterMap f).filter (key · = name) := by
  rw [List.filterMap_eq_flatMap_toList, List.filterMap_eq_flatMap_toList, List.filter_flatMap, List.filter_flatMap]
  refine flatMap_mergeSort (group, name) (fun d hd => ?_) document
  cases hitem : f d with
  | none => rfl
  | some item =>
    have hname : key item ≠ name := fun he => hd (he ▸ hf d item hitem)
    simp [hname]

section Documents

variable (document : SchemaDocument) (name : String)

theorem definedTypes_sorted : definedTypes document.sorted =
    (definedTypes (document.mergeSort SchemaDefinition.before)).map TypeDeclaration.sorted := by
  rw [SchemaDocument.sorted, SchemaDefinition.sorted_eq_mapTypes, definedTypes_mapTypes]

theorem extensionsOf_sorted :
    extensionsOf document.sorted = extensionsOf (document.mergeSort SchemaDefinition.before) := by
  rw [SchemaDocument.sorted, SchemaDefinition.sorted_eq_mapTypes, extensionsOf_mapTypes, List.map_id]

/-- definitions of one name keep their order -/
theorem filter_definedTypes_sorted : (definedTypes document.sorted).filter (·.name = name) =
    ((definedTypes document).filter (·.name = name)).map TypeDeclaration.sorted := by
  have hordered : (definedTypes (document.mergeSort SchemaDefinition.before)).filter (·.name = name) =
      (definedTypes document).filter (·.name = name) := by
    refine filter_filterMap_mergeSort 1 (fun definition d hd => ?_) document name
    cases definition <;> cases hd
    rfl
  calc (definedTypes document.sorted).filter (·.name = name)
      = ((definedTypes (document.mergeSort SchemaDefinition.before)).map TypeDeclaration.sorted).filter (·.name = name) := by
        rw [definedTypes_sorted]
    _ = ((definedTypes (document.mergeSort SchemaDefinition.before)).filter (·.name = name)).map TypeDeclaration.sorted :=
        List.filter_map
    _ = ((definedTypes document).filter (·.name = name)).map TypeDeclaration.sorted := by rw [hordered]

/-- extensions of one type keep their order -/
theorem filter_extensionsOf_sorted : (extensionsOf document.sorted).filter (·.name = name) =
    (extensionsOf document).filter (·.name = name) := by
  rw [extensionsOf_sorted]
  refine filter_filterMap_mergeSort 2 (fun definition e he => ?_) document name
  cases definition <;> cases he
  rfl

/-- schema definitions keep their order -/
theorem namedRoots_sorted : namedRoots document.sorted = namedRoots document := by
  rw [SchemaDocument.sorted, SchemaDefinition.sorted_eq_mapTypes, namedRoots_mapTypes]
  refine flatMap_mergeSort (0, "") (fun definition hd => ?_) document
  cases definition with
  | roots _ => exact absurd rfl hd
  | _ => rfl

/-- of the directives of one name, the same one is the last -/
theorem get?_declaredDirectives_sorted :
    (declaredDirectives document.sorted).get? name = (declaredDirectives document).get? name := by
  rw [SchemaDocument.sorted, SchemaDefinition.sorted_eq_mapTypes, declaredDirectives_mapTypes]
  unfold declaredDirectives
  rw [Table.get?_ofList, Table.get?_ofList]
  refine congrArg (fun entries => (List.getLast? entries).map Prod.snd) ?_
  refine filter_filterMap_mergeSort 3 (fun definition entry he => ?_) document name
  cases definition <;> cases he
  rfl

theorem definedTypes_sorted_perm :
    (definedTypes document.sorted).Perm ((definedTypes document).map TypeDeclaration.sorted) := by
  rw [definedTypes_sorted]
  exact ((List.mergeSort_perm document _).filterMap _).map _

theorem extensionsOf_sorted_perm : (extensionsOf document.sorted).Perm (extensionsOf document) := by
  rw [extensionsOf_sorted]
  exact (List.mergeSort_perm document _).filterMap _

/-- a sorted document is in order -/
theorem inOrder_sorted : document.sorted.InOrder := by
  constructor
  · rw [SchemaDocument.sorted_eq]
    exact List.pairwise_mergeSort SchemaDefinition.before_trans SchemaDefinition.before_total _
  · intro d hd
    obtain ⟨d, -, rfl⟩ := List.mem_map.1 ((definedTypes_sorted_perm document).mem_iff.1 hd)
    exact d.body.inOrder_sorted

end Documents

/-! ## Documents with types -/

section Types

variable {document : SchemaDocument} {types others : Table NamedType} {name : String} {kind : TypeKind}

theorem hasType_sorted_iff : document.sorted.HasType name kind ↔ document.HasType name kind := by
  unfold SchemaDocument.HasType
  by_cases hn : name ∈ builtinScalars
  · rw [if_pos hn, if_pos hn]
  · rw [if_neg hn, if_neg hn]
    simp only [(definedTypes_sorted_perm document).mem_iff, List.mem_map]
    constructor
    · rintro ⟨_, ⟨d, hd, rfl⟩, hname, hkind⟩
      exact ⟨d, hd, hname, (TypeBody.kind_sorted d.body).symm.trans hkind⟩
    · rintro ⟨d, hd, hname, hkind⟩
      exact ⟨d.sorted, ⟨d, hd, rfl⟩, hname, (TypeBody.kind_sorted d.body).trans hkind⟩

theorem declarable_sorted_iff : Declarable (definedTypes document.sorted) ↔ Declarable (definedTypes document) := by
  have hperm := definedTypes_sorted_perm document
  have hnames : ((definedTypes document.sorted).map (·.name)).Perm ((definedTypes document).map (·.name)) := by
    have hmapped := hperm.map (·.name)
    rwa [List.map_map] at hmapped
  have hdistinct := (hnames.filter (· ∉ builtinScalars)).nodup_iff
  have hbuiltin : (∀ d ∈ definedTypes document.sorted, d.name ∈ builtinScalars → d.body.kind = .scalar) ↔
      ∀ d ∈ definedTypes document, d.name ∈ builtinScalars → d.body.kind = .scalar := by
    simp only [hperm.mem_iff, List.forall_mem_map]
    exact forall₂_congr fun d _ => by rw [TypeDeclaration.sorted, TypeBody.kind_sorted]
  constructor
  · intro h
    exact ⟨hbuiltin.1 h.builtin, hdistinct.1 h.distinct⟩
  · intro h
    exact ⟨hbuiltin.2 h.builtin, hdistinct.2 h.distinct⟩

theorem succeeds_typesOf_sorted_iff : Succeeds (typesOf document.sorted) ↔ Succeeds (typesOf document) := by
  rw [succeeds_typesOf_iff, succeeds_typesOf_iff, declarable_sorted_iff]
  simp only [(extensionsOf_sorted_perm document).mem_iff, hasType_sorted_iff]

/-! ## What types hold -/

section Held

variable {α β : Type} (part : TypePart α β)

/-- what the sorted declarations of a name declare -/
theorem among_sorted : part.among document.sorted.typeDeclarations name =
    ((definedTypes document).filter (·.name = name)).flatMap (fun d => part.declared d.body.sorted) ++
      part.among (extensionsOf document) name := by
  rw [SchemaDocument.typeDeclarations, part.among_append, TypePart.among, TypePart.among, filter_definedTypes_sorted,
    filter_extensionsOf_sorted, List.flatMap_map]
  rfl

variable {part}

/-- what sorting leaves in order -/
theorem among_sorted_eq (hpart : ∀ body : TypeBody, part.declared body.sorted = part.declared body) :
    part.among document.sorted.typeDeclarations name = part.among document.typeDeclarations name := by
  rw [among_sorted, SchemaDocument.typeDeclarations, part.among_append]
  simp only [hpart]
  rfl

/-- what sorting leaves in order for every name -/
theorem filter_among_sorted {p : α → Bool}
    (hpart : ∀ body : TypeBody, (part.declared body.sorted).filter p = (part.declared body).filter p) :
    (part.among document.sorted.typeDeclarations name).filter p =
      (part.among document.typeDeclarations name).filter p := by
  rw [among_sorted, SchemaDocument.typeDeclarations, part.among_append, List.filter_append, List.filter_append,
    List.filter_flatMap]
  simp only [hpart]
  rw [← List.filter_flatMap]
  rfl

/-- what sorting reorders -/
theorem among_sorted_perm (hpart : ∀ body : TypeBody, (part.declared body.sorted).Perm (part.declared body)) :
    (part.among document.sorted.typeDeclarations name).Perm (part.among document.typeDeclarations name) := by
  rw [among_sorted, SchemaDocument.typeDeclarations, part.among_append]
  exact (List.Perm.flatMap_left _ fun d _ => hpart d.body).append_right _

end Held

/-- under a name stands what was entered last, in whatever order other names were -/
theorem get?_ofList_map {α β : Type} {name : α → String} {make : α → β} {items others : List α} {key : String}
    (h : others.filter (name · = key) = items.filter (name · = key)) :
    (Table.ofList (others.map fun x => (name x, make x))).get? key =
      (Table.ofList (items.map fun x => (name x, make x))).get? key := by
  rw [Table.get?_ofList, Table.get?_ofList, List.filter_map, List.filter_map]
  exact congrArg (fun found => ((List.map (fun x => (name x, make x)) found).getLast?).map Prod.snd) h

/-- a type is one that was entered, with extensions added -/
theorem exists_of_typesOf (h : typesOf document = .ok types) {type : NamedType} (ht : types.get? name = some type) :
    ∃ entered : NamedType, entered.extendAll? ((extensionsOf document).filter (·.name = name)) = some type ∧
      if name ∈ builtinScalars then entered = .builtinScalar name
      else (∃ d ∈ definedTypes document, d.name = name) ∧
        ∀ d ∈ definedTypes document, d.name = name → entered = .ofDeclaration d := by
  obtain ⟨defined, hd, he⟩ := bind_eq_ok_iff.1 h
  have hentered := entered_of_foldlM hd
  have hextended := foldlM_applyExtension_iff.1 he
  have hkey : name ∈ defined.keys := hextended.keys ▸ Table.mem_keys_iff.2 ⟨type, ht⟩
  obtain ⟨entered, hfound⟩ := Table.mem_keys_iff.1 hkey
  refine ⟨entered, (hextended.held name entered hfound).symm.trans ht, ?_⟩
  split <;> rename_i hn
  · exact Option.some.inj (hfound.symm.trans (hentered.builtin name hn))
  · refine ⟨hentered.origin name hkey hn, ?_⟩
    rintro d hdefined rfl
    exact Option.some.inj (hfound.symm.trans (hentered.entered d hdefined hn))

section Sorted

variable {type other : NamedType} (ht : typesOf document = .ok types) (hs : typesOf document.sorted = .ok others)
  (htype : types.get? name = some type) (hother : others.get? name = some other)

include ht hs htype hother

/-- a type of the sorted document is that of the document but for its content -/
theorem sameHead_sorted : other = { type with content := other.content } := by
  obtain ⟨entered, hx, hentered⟩ := exists_of_typesOf ht htype
  obtain ⟨entered', hx', hentered'⟩ := exists_of_typesOf hs hother
  rw [filter_extensionsOf_sorted] at hx'
  have hsame : entered' = { entered with content := entered'.content } := by
    by_cases hn : name ∈ builtinScalars
    · rw [if_pos hn] at hentered hentered'
      rw [hentered, hentered']
    · rw [if_neg hn] at hentered hentered'
      obtain ⟨⟨d', hd', hname⟩, hall'⟩ := hentered'
      obtain ⟨d, hd, rfl⟩ := List.mem_map.1 ((definedTypes_sorted_perm document).mem_iff.1 hd')
      rw [hall' d.sorted hd' hname, hentered.2 d hd hname]
      rfl
  rw [NamedType.extendAll?_eq hx, NamedType.extendAll?_eq hx', hsame]

/-- **A type of the sorted document is that of the document up to order.** -/
theorem sameUpToOrder_sorted (hkind : other.kind = type.kind) : type.SameUpToOrder other := by
  have hhead := sameHead_sorted ht hs htype hother
  have hheld : ∀ {α β : Type} (part : TypePart α β),
      part.held type = part.collect (part.among document.typeDeclarations name) :=
    fun part => (collected_typesOf part ht).held name type htype
  have hheld' : ∀ {α β : Type} (part : TypePart α β),
      part.held other = part.collect (part.among document.sorted.typeDeclarations name) :=
    fun part => (collected_typesOf part hs).held name other hother
  refine ⟨by rw [hhead], by rw [hhead], by rw [hhead], by rw [hhead], hkind, fun key => ?_, fun key => ?_, ?_, ?_, ?_⟩
  · rw [show type.fields = _ from hheld .fields, show other.fields = _ from hheld' .fields]
    exact get?_ofList_map (filter_among_sorted (TypeBody.filter_fields_sorted key))
  · rw [show type.inputFields = _ from hheld .inputFields, show other.inputFields = _ from hheld' .inputFields]
    exact get?_ofList_map (filter_among_sorted (TypeBody.filter_inputFields_sorted key))
  · rw [show type.interfaces = _ from hheld .interfaces, show other.interfaces = _ from hheld' .interfaces]
    exact among_sorted_eq TypeBody.interfaces_sorted
  · rw [show type.members = _ from hheld .members, show other.members = _ from hheld' .members]
    exact among_sorted_eq TypeBody.members_sorted
  · rw [show type.enumValues = _ from hheld .enumValues, show other.enumValues = _ from hheld' .enumValues]
    exact (among_sorted_perm TypeBody.enumValues_sorted_perm).map _

end Sorted

/-- **The types of a sorted document** are those of the document. -/
theorem sameTypes_sorted (ht : typesOf document = .ok types) (hs : typesOf document.sorted = .ok others) :
    SameTypes types others := by
  intro name
  have hkind : kindIn others name = kindIn types name := by
    refine Option.ext fun kind => ?_
    rw [kindIn_typesOf hs, kindIn_typesOf ht, hasType_sorted_iff]
  unfold kindIn at hkind
  cases htype : types.get? name with
  | none =>
    rw [htype, Option.map_none, Option.map_eq_none_iff] at hkind
    rw [hkind]
    exact .none
  | some type =>
    rw [htype, Option.map_some, Option.map_eq_some_iff] at hkind
    obtain ⟨other, hother, hkind⟩ := hkind
    rw [hother]
    exact .some (sameUpToOrder_sorted ht hs htype hother hkind)

end Types

/-! ## Schemas -/

/-- **Sorting preserves the schema.** Sorting brings any document in order. The document is accepted if and only if it is accepted
sorted. The schemas have the same types: of the same kinds, with the same fields and input fields under the same names, the same
interfaces and members in order, and the same enum values up to order. And they have the same directives and the same root
types. -/
theorem sameSchema_sorted (document : SchemaDocument) :
    document.sorted.InOrder ∧
    (Succeeds (ofDocument document.sorted) ↔ Succeeds (ofDocument document)) ∧
    ∀ schema other, ofDocument document = .ok schema → ofDocument document.sorted = .ok other →
      schema.SameUpToOrder other := by
  have hnamed := namedRoots_sorted document
  refine ⟨inOrder_sorted document, ?_, ?_⟩
  · unfold Succeeds
    simp only [ofDocument_eq_ok_iff, hnamed]
    constructor
    · rintro ⟨_, others, hs, hchecked, -⟩
      obtain ⟨types, ht⟩ := succeeds_typesOf_sorted_iff.1 ⟨others, hs⟩
      exact ⟨_, types, ht, ((sameTypes_sorted ht hs).checked_iff _).1 hchecked, rfl⟩
    · rintro ⟨_, types, ht, hchecked, -⟩
      obtain ⟨others, hs⟩ := succeeds_typesOf_sorted_iff.2 ⟨types, ht⟩
      exact ⟨_, others, hs, ((sameTypes_sorted ht hs).checked_iff _).2 hchecked, rfl⟩
  · intro schema other hschema hother
    obtain ⟨types, ht, -, rfl⟩ := ofDocument_eq_ok_iff.1 hschema
    obtain ⟨others, hs, -, rfl⟩ := ofDocument_eq_ok_iff.1 hother
    have hsame := sameTypes_sorted ht hs
    refine ⟨hsame, fun name => get?_declaredDirectives_sorted document name, ?_⟩
    rw [hnamed]
    exact hsame.rootsOf_eq _

/-- a user that is extended before and after its definition, with fields that are declared again; a directive that is defined
again; and two schema definitions -/
def unsortedSchema : SchemaDocument :=
  [.extension ⟨none, "User", [], .object [] [plainField "role" "Role", plainField "age" "String"]⟩,
    .directive ⟨none, "tag", [], false, [.object]⟩,
    .roots ⟨[], some "User", none, none⟩,
    .type ⟨none, "User", [], .object [] [plainField "name" "Int", plainField "id" "ID", plainField "name" "String"]⟩,
    .extension ⟨none, "User", [], .object [] [plainField "age" "Int"]⟩,
    .type ⟨none, "Role", [], .enum [⟨none, "MEMBER", []⟩, ⟨none, "ADMIN", []⟩]⟩,
    .directive ⟨none, "tag", [], true, [.object, .enum]⟩,
    .type ⟨none, "Admin", [], .object [] [plainField "user" "User"]⟩,
    .roots ⟨[], some "Admin", none, none⟩]

theorem sameSchema_sorted_user :
    ∃ schema sorted user, ofDocument unsortedSchema = .ok schema ∧ ofDocument unsortedSchema.sorted = .ok sorted ∧
      schema.SameUpToOrder sorted ∧ sorted.type? "User" = some user ∧
      (user.fields.get? "name").map (·.type.name) = some "String" ∧
      (user.fields.get? "age").map (·.type.name) = some "Int" ∧ sorted.rootName? .query = some "Admin" := by
  obtain ⟨-, haccepted, hsame⟩ := sameSchema_sorted unsortedSchema
  have hs : ofDocument unsortedSchema = .ok _ := rfl
  obtain ⟨sorted, hsorted⟩ := haccepted.2 ⟨_, hs⟩
  have hschemas := hsame _ sorted hs hsorted
  rcases hschemas.types.get?_cases "User" with ⟨hnone, -⟩ | ⟨user, user', hu, hu', husers⟩
  · cases hnone
  · cases hu
    refine ⟨_, sorted, user', hs, hsorted, hschemas, hu', ?_, ?_, ?_⟩
    · rw [husers.fields]
      rfl
    · rw [husers.fields]
      rfl
    · rw [rootName?, hschemas.roots]
      rfl

end Schema

end GraphGen
