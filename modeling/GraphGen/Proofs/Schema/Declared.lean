/-
What a type holds is what its declarations say.

A type of a schema is put together from the definition and the extensions of its name, definitions first. What it holds of
one sort, such as its interfaces or its fields, is a `TypePart`: what bodies declare of it is collected in order, by appending
or by entering into a table. Every declaration adds its part to the type of its name and leaves the other types as they are;
this is the step that keeps `Collected`, over all definitions and then over all extensions.

- `definedTypes_mapTypes`, `extensionsOf_mapTypes`: the types of a document in which others stand in their place.
- `TypePart.interfaces`, `TypePart.members`, `TypePart.fields`, `TypePart.inputFields`, `TypePart.enumValues`: the parts.
- `held_eq`: the parts of the types of an accepted document.
- `among_eq_nil_of_unknown`: there are no declarations of other types.
- `field_declared`, `inputField_declared`, `enumValue_declared`: where the fields and values of types come from.
-/
import GraphGen.Proofs.Schema.Accepted

namespace GraphGen

/-! ## Declarations of a type -/

namespace TypeBody

/-- the interfaces of an object; those of an interface are not recorded -/
def interfaces : TypeBody → List String
  | object interfaces _ => interfaces
  | _ => []

/-- the members of a union -/
def members : TypeBody → List String
  | union members => members
  | _ => []

/-- the fields of an object or interface -/
def fields : TypeBody → List FieldDeclaration
  | object _ fields => fields
  | interface _ fields => fields
  | _ => []

/-- the fields of an input object -/
def inputFields : TypeBody → List InputValueDeclaration
  | inputObject fields => fields
  | _ => []

/-- the values of an enum -/
def enumValues : TypeBody → List EnumValueDeclaration
  | enum values => values
  | _ => []

end TypeBody

/-- the definitions and extensions of types, in the order in which they are taken in -/
def SchemaDocument.typeDeclarations (document : SchemaDocument) : List TypeDeclaration :=
  Schema.definedTypes document ++ Schema.extensionsOf document

namespace Schema

variable {document : SchemaDocument} {d : TypeDeclaration}

theorem mem_definedTypes_iff : d ∈ definedTypes document ↔ .type d ∈ document := by
  unfold definedTypes
  rw [List.mem_filterMap]
  constructor
  · rintro ⟨definition, hm, hd⟩
    cases definition with
    | type found =>
      cases hd
      exact hm
    | _ => cases hd
  · exact fun hm => ⟨.type d, hm, rfl⟩

theorem mem_extensionsOf_iff : d ∈ extensionsOf document ↔ .extension d ∈ document := by
  unfold extensionsOf
  rw [List.mem_filterMap]
  constructor
  · rintro ⟨definition, hm, hd⟩
    cases definition with
    | extension found =>
      cases hd
      exact hm
    | _ => cases hd
  · exact fun hm => ⟨.extension d, hm, rfl⟩

end Schema

/-! ## Documents with other types -/

/-- a definition with another type in it, be it defined or extended -/
def SchemaDefinition.mapTypes (onType onExtension : TypeDeclaration → TypeDeclaration) :
    SchemaDefinition → SchemaDefinition
  | type d => type (onType d)
  | extension d => extension (onExtension d)
  | definition => definition

namespace Schema

variable (onType onExtension : TypeDeclaration → TypeDeclaration) (document : SchemaDocument)

theorem definedTypes_mapTypes :
    definedTypes (document.map (.mapTypes onType onExtension)) = (definedTypes document).map onType := by
  unfold definedTypes
  rw [List.filterMap_map, List.map_filterMap]
  refine congrArg (List.filterMap · document) (funext fun definition => ?_)
  cases definition <;> rfl

theorem extensionsOf_mapTypes :
    extensionsOf (document.map (.mapTypes onType onExtension)) = (extensionsOf document).map onExtension := by
  unfold extensionsOf
  rw [List.filterMap_map, List.map_filterMap]
  refine congrArg (List.filterMap · document) (funext fun definition => ?_)
  cases definition <;> rfl

theorem namedRoots_mapTypes :
    namedRoots (document.map (.mapTypes onType onExtension)) = namedRoots document := by
  unfold namedRoots
  rw [List.flatMap_map]
  refine congrArg (List.flatMap · document) (funext fun definition => ?_)
  cases definition <;> rfl

theorem declaredDirectives_mapTypes :
    declaredDirectives (document.map (.mapTypes onType onExtension)) = declaredDirectives document := by
  unfold declaredDirectives
  rw [List.filterMap_map]
  refine congrArg (fun f => Table.ofList (List.filterMap f document)) (funext fun definition => ?_)
  cases definition <;> rfl

end Schema

/-! ## Parts of a type -/

/-- what types hold of one sort -/
structure TypePart (α β : Type) where
  /-- what a body declares -/
  declared : TypeBody → List α
  /-- what a type holds -/
  held : NamedType → β
  /-- what is held when this was declared, in order -/
  collect : List α → β
  scalar : declared .scalar = []
  builtin : ∀ name, held (.builtinScalar name) = collect []
  definition : ∀ d : TypeDeclaration, held (.ofDeclaration d) = collect (declared d.body)
  extension : ∀ {type extended : NamedType} {e : TypeDeclaration} {earlier : List α}, type.extend? e = some extended →
    held type = collect earlier → held extended = collect (earlier ++ declared e.body)

namespace TypePart

/-- the interfaces of objects -/
def interfaces : TypePart String (List String) where
  declared := TypeBody.interfaces
  held := NamedType.interfaces
  collect := id
  scalar := rfl
  builtin _ := rfl
  definition d := by
    unfold NamedType.ofDeclaration NamedType.interfaces
    cases d.body <;> rfl
  extension h hheld := by
    obtain ⟨content, hc, rfl⟩ := Option.map_eq_some_iff.1 h
    unfold NamedType.interfaces at hheld ⊢
    unfold TypeContent.extend? at hc
    split at hc <;> cases hc <;> simp_all [TypeBody.interfaces]

/-- the members of unions -/
def members : TypePart String (List String) where
  declared := TypeBody.members
  held := NamedType.members
  collect := id
  scalar := rfl
  builtin _ := rfl
  definition d := by
    unfold NamedType.ofDeclaration NamedType.members
    cases d.body <;> rfl
  extension h hheld := by
    obtain ⟨content, hc, rfl⟩ := Option.map_eq_some_iff.1 h
    unfold NamedType.members at hheld ⊢
    unfold TypeContent.extend? at hc
    split at hc <;> cases hc <;> simp_all [TypeBody.members]

/-- the fields of objects and interfaces -/
def fields : TypePart FieldDeclaration (Table Field) where
  declared := TypeBody.fields
  held := NamedType.fields
  collect declared := .ofList (fieldEntries declared)
  scalar := rfl
  builtin _ := rfl
  definition d := by
    unfold NamedType.ofDeclaration NamedType.fields
    cases d.body <;> rfl
  extension h hheld := by
    obtain ⟨content, hc, rfl⟩ := Option.map_eq_some_iff.1 h
    unfold NamedType.fields at hheld ⊢
    unfold TypeContent.extend? at hc
    split at hc <;> cases hc <;> simp_all [TypeBody.fields, fieldEntries, Table.insertAll_ofList]

/-- the fields of input objects -/
def inputFields : TypePart InputValueDeclaration (Table InputValue) where
  declared := TypeBody.inputFields
  held := NamedType.inputFields
  collect declared := .ofList (inputEntries declared)
  scalar := rfl
  builtin _ := rfl
  definition d := by
    unfold NamedType.ofDeclaration NamedType.inputFields
    cases d.body <;> rfl
  extension h hheld := by
    obtain ⟨content, hc, rfl⟩ := Option.map_eq_some_iff.1 h
    unfold NamedType.inputFields at hheld ⊢
    unfold TypeContent.extend? at hc
    split at hc <;> cases hc <;> simp_all [TypeBody.inputFields, inputEntries, Table.insertAll_ofList]

/-- the values of enums -/
def enumValues : TypePart EnumValueDeclaration (List EnumValue) where
  declared := TypeBody.enumValues
  held := NamedType.enumValues
  collect declared := declared.map .ofDeclaration
  scalar := rfl
  builtin _ := rfl
  definition d := by
    unfold NamedType.ofDeclaration NamedType.enumValues
    cases d.body <;> rfl
  extension h hheld := by
    obtain ⟨content, hc, rfl⟩ := Option.map_eq_some_iff.1 h
    unfold NamedType.enumValues at hheld ⊢
    unfold TypeContent.extend? at hc
    split at hc <;> cases hc <;> simp_all [TypeBody.enumValues]

variable {α β : Type} (part : TypePart α β)

/-- what declarations of a name declare, in order -/
def among (declarations : List TypeDeclaration) (name : String) : List α :=
  (declarations.filter (·.name = name)).flatMap fun d => part.declared d.body

theorem among_append (declarations more : List TypeDeclaration) (name : String) :
    part.among (declarations ++ more) name = part.among declarations name ++ part.among more name := by
  simp [among]

theorem among_eq_nil {declarations : List TypeDeclaration} {name : String} (h : ∀ d ∈ declarations, d.name ≠ name) :
    part.among declarations name = [] := by
  rw [among, List.filter_eq_nil_iff.2 fun d hd => by simpa using h d hd, List.flatMap_nil]

theorem among_singleton (d : TypeDeclaration) : part.among [d] d.name = part.declared d.body := by
  simp [among]

theorem among_singleton_of_nil {d : TypeDeclaration} (h : part.declared d.body = []) (name : String) :
    part.among [d] name = [] := by
  by_cases hname : d.name = name <;> simp [among, hname, h]

end TypePart

/-! ## Taking in declarations -/

/-- the types are those of the declarations: each holds what was declared under its name -/
structure Collected {α β : Type} (part : TypePart α β) (declarations : List TypeDeclaration) (types : Table NamedType) :
    Prop where
  known : ∀ d ∈ declarations, d.name ∈ types.keys
  held : ∀ name type, types.get? name = some type → part.held type = part.collect (part.among declarations name)

section Collected

variable {α β : Type} {part : TypePart α β} {declarations : List TypeDeclaration} {types next : Table NamedType}
  {d : TypeDeclaration}

theorem collected_builtinTypes : Collected part [] Schema.builtinTypes := by
  refine ⟨by simp, fun name type ht => ?_⟩
  obtain ⟨scalar, -, hentry⟩ := List.mem_map.1
    (show (name, type) ∈ Schema.builtinScalars.map fun name => (name, NamedType.builtinScalar name) from
      Table.get?_eq_some_iff.1 ht)
  cases hentry
  exact part.builtin name

/-- a type is entered that holds, after what was declared under its name before, what the declaration says -/
theorem Collected.insert (h : Collected part declarations types) {type : NamedType}
    (ht : part.held type = part.collect (part.among declarations d.name ++ part.declared d.body)) :
    Collected part (declarations ++ [d]) (types.insert d.name type) := by
  constructor
  · have hkeys : ∀ name, name ∈ types.keys ∨ name = d.name → name ∈ (types.insert d.name type).keys := by
      intro name hname
      rw [Table.keys_insert]
      split <;> rename_i hmem
      · exact hname.elim id fun he => he ▸ hmem
      · simpa using hname
    intro e he
    rcases List.mem_append.1 he with he | he
    · exact hkeys _ (.inl (h.known e he))
    · exact hkeys _ (.inr (by rw [List.mem_singleton.1 he]))
  · intro name found hf
    rw [Table.get?_insert] at hf
    rw [part.among_append]
    split at hf <;> rename_i hname
    · cases hf
      rw [hname, part.among_singleton]
      exact ht
    · rw [part.among_eq_nil (List.forall_mem_singleton.2 (Ne.symm hname)), List.append_nil]
      exact h.held name found hf

theorem Collected.declare (h : Collected part declarations types) (hd : Schema.declareType types d = .ok next) :
    Collected part (declarations ++ [d]) next := by
  unfold Schema.declareType at hd
  split at hd
  · rename_i hnone
    cases hd
    -- there was no declaration of the name yet
    have hnew : ∀ e ∈ declarations, e.name ≠ d.name :=
      fun e he hname => Table.get?_eq_none_iff.1 hnone (hname ▸ h.known e he)
    refine h.insert ?_
    rw [part.among_eq_nil hnew, List.nil_append]
    exact part.definition d
  · rename_i existing hexisting
    split at hd
    · rename_i hagain
      cases hd
      have hnothing : part.declared d.body = [] := by
        have hscalar : d.body.kind = .scalar := by simpa using (Bool.and_eq_true_iff.1 hagain).2
        cases hbody : d.body <;> rw [hbody] at hscalar <;> cases hscalar
        exact part.scalar
      refine ⟨fun e he => ?_, fun name type ht => ?_⟩
      · rcases List.mem_append.1 he with he | he
        · exact h.known e he
        · rw [List.mem_singleton.1 he]
          exact Table.mem_keys_iff.2 ⟨existing, hexisting⟩
      · rw [part.among_append, part.among_singleton_of_nil hnothing, List.append_nil]
        exact h.held name type ht
    · cases hd

theorem Collected.extend (h : Collected part declarations types) (hd : Schema.applyExtension types d = .ok next) :
    Collected part (declarations ++ [d]) next := by
  unfold Schema.applyExtension at hd
  split at hd
  · cases hd
  · rename_i type ht
    split at hd
    · rename_i extended hx
      cases hd
      exact h.insert (part.extension hx (h.held d.name type ht))
    · cases hd

/-- what every step keeps when it takes in a declaration holds of all of them after a run -/
theorem Collected.foldlM {step : Table NamedType → TypeDeclaration → Except Error (Table NamedType)}
    (hstep : ∀ {declarations types d next}, Collected part declarations types → step types d = .ok next →
      Collected part (declarations ++ [d]) next)
    {more : List TypeDeclaration} (h : Collected part declarations types) (hm : more.foldlM step types = .ok next) :
    Collected part (declarations ++ more) next := by
  induction more generalizing declarations types with
  | nil =>
    cases hm
    rwa [List.append_nil]
  | cons d more ih =>
    rw [List.foldlM_cons] at hm
    obtain ⟨after, hd, hm⟩ := bind_eq_ok_iff.1 hm
    rw [List.append_cons]
    exact ih (hstep h hd) hm

end Collected

namespace Schema

variable {α β : Type} {part : TypePart α β} {document : SchemaDocument} {schema : Schema}

/-- **The types of a document are those of its declarations.** -/
theorem collected_typesOf (part : TypePart α β) {types : Table NamedType} (h : typesOf document = .ok types) :
    Collected part document.typeDeclarations types := by
  obtain ⟨defined, hd, he⟩ := bind_eq_ok_iff.1 h
  exact (collected_builtinTypes.foldlM .declare hd).foldlM .extend he

theorem collected_ofDocument (part : TypePart α β) (h : ofDocument document = .ok schema) :
    Collected part document.typeDeclarations schema.types := by
  obtain ⟨types, ht, -, rfl⟩ := ofDocument_eq_ok_iff.1 h
  exact collected_typesOf part ht

/-- **What a type holds is what its declarations say,** in order. -/
theorem held_eq (part : TypePart α β) (h : ofDocument document = .ok schema) {name : String} {type : NamedType}
    (ht : schema.type? name = some type) :
    part.held type = part.collect (part.among document.typeDeclarations name) :=
  (collected_ofDocument part h).held name type ht

/-- types that are not there have no declarations -/
theorem among_eq_nil_of_unknown (h : ofDocument document = .ok schema) {name : String} (hn : schema.type? name = none) :
    part.among document.typeDeclarations name = [] :=
  part.among_eq_nil fun d hd hname =>
    Table.get?_eq_none_iff.1 hn (hname ▸ (collected_ofDocument part h).known d hd)

/-! ## Fields and values -/

section Members

variable {name : String} {type : NamedType}

/-- every field is that of a declaration of its name -/
theorem field_declared (h : ofDocument document = .ok schema) (ht : schema.type? name = some type) {key : String}
    {field : Field} (hf : type.fields.get? key = some field) :
    ∃ d ∈ TypePart.fields.among document.typeDeclarations name, d.name = key ∧ field = .ofDeclaration d := by
  rw [show type.fields = _ from held_eq .fields h ht] at hf
  obtain ⟨d, hd, hentry⟩ := List.mem_map.1 (Table.mem_of_get?_ofList hf)
  cases hentry
  exact ⟨d, hd, rfl, rfl⟩

/-- every input field is that of a declaration of its name -/
theorem inputField_declared (h : ofDocument document = .ok schema) (ht : schema.type? name = some type) {key : String}
    {value : InputValue} (hv : type.inputFields.get? key = some value) :
    ∃ d ∈ TypePart.inputFields.among document.typeDeclarations name, d.name = key ∧ value = .ofDeclaration d := by
  rw [show type.inputFields = _ from held_eq .inputFields h ht] at hv
  obtain ⟨d, hd, hentry⟩ := List.mem_map.1 (Table.mem_of_get?_ofList hv)
  cases hentry
  exact ⟨d, hd, rfl, rfl⟩

/-- every enum value is that of a declaration -/
theorem enumValue_declared (h : ofDocument document = .ok schema) (ht : schema.type? name = some type)
    {value : EnumValue} (hv : value ∈ type.enumValues) :
    ∃ d ∈ TypePart.enumValues.among document.typeDeclarations name, value = .ofDeclaration d := by
  rw [show type.enumValues = _ from held_eq .enumValues h ht] at hv
  obtain ⟨d, hd, rfl⟩ := List.mem_map.1 hv
  exact ⟨d, hd, rfl⟩

end Members

end Schema

end GraphGen
