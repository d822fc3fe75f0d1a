/-
The interfaces that types say they implement.

Objects and interfaces have a clause that names interfaces, in their definition and in extensions (`SchemaDocument.clauses`). All
clauses of an object are indexed, and all names in them are checked. Those of an interface are neither indexed nor checked: a
document without them has the same schema (`sameSchemas_withoutClauses`).

Main result:
- `clauses_indexed_iff`: what is indexed was declared and is an interface, and all that is declared is indexed, but for the
  clauses of interfaces.

An interface that says that it implements another one is indexed as if it did not (`clause_lost`).
-/
import GraphGen.Proofs.Schema.Declarable

namespace GraphGen

/-! ## Clauses -/

namespace TypeBody

/-- the interfaces that an object or interface says it implements -/
def clause : TypeBody → List String
  | object interfaces _ => interfaces
  | interface interfaces _ => interfaces
  | _ => []

/-- an interface without its clause -/
def withoutClause : TypeBody → TypeBody
  | interface _ fields => interface [] fields
  | body => body

/-- the clause of an object is what types hold of it -/
theorem interfaces_eq_clause {body : TypeBody} (h : body.kind ≠ .interface) : body.interfaces = body.clause := by
  cases body with
  | interface _ _ => exact absurd rfl h
  | _ => rfl

theorem kind_withoutClause (body : TypeBody) : body.withoutClause.kind = body.kind := by
  cases body <;> rfl

end TypeBody

/-- a declaration without the clause of an interface -/
def TypeDeclaration.withoutClause (d : TypeDeclaration) : TypeDeclaration :=
  { d with body := d.body.withoutClause }

namespace SchemaDocument

/-- the interfaces that the definition and the extensions of a name say the type implements, in order -/
def clauses (document : SchemaDocument) (name : String) : List String :=
  (document.typeDeclarations.filter (·.name = name)).flatMap fun d => d.body.clause

/-- the document without the clauses of interfaces -/
def withoutClauses (document : SchemaDocument) : SchemaDocument :=
  document.map (.mapTypes TypeDeclaration.withoutClause TypeDeclaration.withoutClause)

end SchemaDocument

namespace Schema

variable {document : SchemaDocument} {schema : Schema} {name interface : String} {type : NamedType}

/-! ## The clauses of objects -/

/-- **The interfaces of a type are those of its clauses,** where it is not an interface. -/
theorem interfaces_eq_clauses (hs : ofDocument document = .ok schema) (ht : schema.type? name = some type)
    (hk : type.kind ≠ .interface) : type.interfaces = document.clauses name := by
  have hheld : type.interfaces = TypePart.interfaces.among document.typeDeclarations name := held_eq .interfaces hs ht
  rw [hheld, TypePart.among, SchemaDocument.clauses]
  refine List.flatMap_congr fun d hd => TypeBody.interfaces_eq_clause fun hinterface => ?_
  -- the declarations of the type are of its kind
  obtain ⟨hd, hname⟩ := List.mem_filter.1 hd
  have hkind := kind?_of_declaration hs hd
  rw [of_decide_eq_true hname, kind?, ht, hinterface] at hkind
  exact hk (Option.some.inj hkind)

theorem interfaces_of_interface (hk : type.kind = .interface) : type.interfaces = [] := by
  unfold NamedType.kind at hk
  unfold NamedType.interfaces
  split
  · rename_i hcontent
    rw [hcontent] at hk
    cases hk
  · rfl

/-- a document in which an object says that it implements what is not an interface is refused -/
theorem not_succeeds_of_clause {d : TypeDeclaration} (hd : d ∈ document.typeDeclarations) (hk : d.body.kind = .object)
    (hi : interface ∈ d.body.clause) (hn : ¬ document.HasType interface .interface) :
    ¬ Succeeds (ofDocument document) := by
  rintro ⟨schema, hs⟩
  obtain ⟨type, ht, hkind⟩ := exists_type?_of_kind? (kind?_of_declaration hs hd)
  have hobject : type.kind ≠ .interface := by simp [hkind, hk]
  have hindexed : interface ∈ type.interfaces := by
    rw [interfaces_eq_clauses hs ht hobject]
    exact List.mem_flatMap.2 ⟨d, List.mem_filter.2 ⟨hd, by simp⟩, hi⟩
  exact hn ((kind?_eq_some_iff hs).1 (interface_of_mem hs ht hindexed))

/-! ## The clauses of interfaces -/

theorem declareType_withoutClause (types : Table NamedType) (d : TypeDeclaration) :
    declareType types d.withoutClause = declareType types d := by
  have hsame : NamedType.ofDeclaration d.withoutClause = .ofDeclaration d := by
    unfold NamedType.ofDeclaration TypeDeclaration.withoutClause
    cases d.body <;> rfl
  have hkind : d.withoutClause.body.kind = d.body.kind := TypeBody.kind_withoutClause d.body
  unfold declareType
  rw [hsame, hkind]
  rfl

theorem applyExtension_withoutClause (types : Table NamedType) (e : TypeDeclaration) :
    applyExtension types e.withoutClause = applyExtension types e := by
  have hsame : ∀ type : NamedType, type.extend? e.withoutClause = type.extend? e := by
    intro type
    have hcontent : type.content.extend? e.withoutClause.body = type.content.extend? e.body := by
      unfold TypeDeclaration.withoutClause
      cases e.body <;> cases type.content <;> rfl
    unfold NamedType.extend?
    rw [hcontent]
    rfl
  unfold applyExtension
  simp only [hsame]
  rfl

/-- **The clauses of interfaces change nothing.** -/
theorem sameSchemas_withoutClauses (document : SchemaDocument) : SameSchemas document document.withoutClauses := by
  have htypes : typesOf document.withoutClauses = typesOf document := by
    unfold typesOf SchemaDocument.withoutClauses
    rw [definedTypes_mapTypes, extensionsOf_mapTypes, List.foldlM_map]
    simp only [List.foldlM_map, declareType_withoutClause, applyExtension_withoutClause]
  exact sameSchemas_of_eq (fun types => by rw [htypes]) (namedRoots_mapTypes _ _ document)
    (declaredDirectives_mapTypes _ _ document)

/-! ## All clauses -/

/-- **Clauses are indexed and checked, but for those of interfaces.** What a type of an accepted document is indexed to implement
is declared by its definition or by an extension, and is an interface; and all that these declare is indexed, unless the type is
an interface that declares something. A document in which an object says that it implements what is not an interface is refused.
The clauses of interfaces change nothing: without them a document is accepted or refused as it is, with the same schema. -/
theorem clauses_indexed_iff (document : SchemaDocument) :
    (∀ schema name type, ofDocument document = .ok schema → schema.type? name = some type →
      (∀ interface, type.implements interface = true →
        interface ∈ document.clauses name ∧ schema.kind? interface = some .interface) ∧
      ((∀ interface ∈ document.clauses name, type.implements interface = true) ↔
        (type.kind = .interface → document.clauses name = []))) ∧
    (∀ d ∈ document.typeDeclarations, d.body.kind = .object → ∀ interface ∈ d.body.clause,
      ¬ document.HasType interface .interface → ¬ Succeeds (ofDocument document)) ∧
    SameSchemas document document.withoutClauses := by
  refine ⟨fun schema name type hs ht => ?_, fun d hd hk interface => not_succeeds_of_clause hd hk,
    sameSchemas_withoutClauses document⟩
  have himplements : ∀ interface, type.implements interface = true ↔ interface ∈ type.interfaces := by
    simp [NamedType.implements]
  simp only [himplements]
  by_cases hk : type.kind = .interface
  · rw [interfaces_of_interface hk]
    simp [hk, List.eq_nil_iff_forall_not_mem]
  · rw [← interfaces_eq_clauses hs ht hk]
    refine ⟨fun interface hi => ⟨hi, interface_of_mem hs ht hi⟩, ?_⟩
    exact iff_of_true (fun interface hi => hi) fun hinterface => absurd hinterface hk

/-- an interface that says that it implements another one, and an object that says that it implements both -/
def petSchema : SchemaDocument :=
  [.type ⟨none, "Node", [], .interface [] [plainField "id" "ID"]⟩,
    .type ⟨none, "Pet", [], .interface ["Node"] [plainField "id" "ID"]⟩,
    .type ⟨none, "Dog", [], .object ["Pet"] [plainField "id" "ID"]⟩,
    .extension ⟨none, "Dog", [], .object ["Node"] []⟩]

theorem clauses_indexed_iff_dog :
    ∃ schema dog, ofDocument petSchema = .ok schema ∧ schema.type? "Dog" = some dog ∧
      petSchema.clauses "Dog" = ["Pet", "Node"] ∧ dog.implements "Node" = true ∧ schema.kind? "Node" = some .interface := by
  obtain ⟨hindexed, -, -⟩ := clauses_indexed_iff petSchema
  obtain ⟨hinterfaces, hall⟩ := hindexed _ "Dog" _ rfl rfl
  have hnode := hall.2 nofun "Node" (by decide)
  exact ⟨_, _, rfl, rfl, rfl, hnode, (hinterfaces "Node" hnode).2⟩

/-- **The clause of an interface is lost,** and what it names is not checked -/
theorem clause_lost :
    (∃ schema pet, ofDocument petSchema = .ok schema ∧ schema.type? "Pet" = some pet ∧ pet.kind = .interface ∧
      "Node" ∈ petSchema.clauses "Pet" ∧ pet.implements "Node" = false) ∧
    ∃ document : SchemaDocument, "Missing" ∈ document.clauses "Pet" ∧ ¬ document.HasType "Missing" .interface ∧
      Succeeds (ofDocument document) := by
  refine ⟨⟨_, _, rfl, rfl, rfl, by decide, rfl⟩,
    [.type ⟨none, "Pet", [], .interface ["Missing"] [plainField "id" "ID"]⟩], by decide, ?_, ⟨_, rfl⟩⟩
  rintro ⟨d, hd, hname, -⟩
  rw [List.mem_singleton.1 hd] at hname
  exact absurd hname (by decide)

end Schema

end GraphGen
