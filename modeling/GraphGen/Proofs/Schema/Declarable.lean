/-
Which documents have types.

Definitions are entered when no name is defined twice, where built-in scalars may be declared again as scalars; an extension is
added when there is a type of its name and kind. Both are conditions on the document: a definition is entered or not by what was
entered before it (`Entered.succeeds_declare_iff`), and extensions do not change names and kinds (`kindIn_applyExtension`).

- `succeeds_typesOf_iff`: the documents that have types.
- `kind?_eq_some_iff`: the names and kinds of the types of an accepted document.
- `kind?_of_declaration`: the declarations of a type are all of its kind.
-/
import GraphGen.Proofs.Schema.Declared
import GraphGen.Proofs.Schema.Merging

namespace GraphGen

/-- the document has a type of that name and kind: a built-in scalar, or one that it defines -/
def SchemaDocument.HasType (document : SchemaDocument) (name : String) (kind : TypeKind) : Prop :=
  if name ∈ Schema.builtinScalars then kind = .scalar
  else ∃ d ∈ Schema.definedTypes document, d.name = name ∧ d.body.kind = kind

namespace Schema

/-! ## Definitions -/

/-- no name is defined twice, and built-in scalars are declared as scalars only -/
structure Declarable (definitions : List TypeDeclaration) : Prop where
  builtin : ∀ d ∈ definitions, d.name ∈ builtinScalars → d.body.kind = .scalar
  distinct : ((definitions.map (·.name)).filter (· ∉ builtinScalars)).Nodup

variable {definitions extensions : List TypeDeclaration} {types next : Table NamedType} {d e : TypeDeclaration}

/-- a definition can be entered after others -/
theorem Entered.succeeds_declare_iff (h : Entered definitions types) :
    Succeeds (declareType types d) ↔
      if d.name ∈ builtinScalars then d.body.kind = .scalar else ∀ e ∈ definitions, e.name ≠ d.name := by
  unfold declareType
  by_cases hn : d.name ∈ builtinScalars
  · rw [if_pos hn, h.builtin d.name hn]
    by_cases hk : d.body.kind = .scalar
    · simp [NamedType.builtinScalar, hk, succeeds_ok]
    · simp [NamedType.builtinScalar, hk, not_succeeds_error]
  · rw [if_neg hn]
    cases ht : types.get? d.name with
    | none =>
      refine iff_of_true (succeeds_ok _) fun e he hname => ?_
      have hentered := h.entered e he (hname ▸ hn)
      rw [hname, ht] at hentered
      cases hentered
    | some existing =>
      obtain ⟨e, he, hname⟩ := h.origin d.name (Table.mem_keys_iff.2 ⟨existing, ht⟩) hn
      have hentered := h.entered e he (hname ▸ hn)
      rw [hname, ht] at hentered
      cases hentered
      exact iff_of_false (not_succeeds_error _) fun hnew => hnew e he hname

theorem declarable_append_iff : Declarable (definitions ++ [d]) ↔ Declarable definitions ∧
    if d.name ∈ builtinScalars then d.body.kind = .scalar else ∀ e ∈ definitions, e.name ≠ d.name := by
  have hsplit : Declarable (definitions ++ [d]) ↔
      (∀ e ∈ definitions ++ [d], e.name ∈ builtinScalars → e.body.kind = .scalar) ∧
        (((definitions ++ [d]).map (·.name)).filter (· ∉ builtinScalars)).Nodup :=
    ⟨fun h => ⟨h.builtin, h.distinct⟩, fun h => ⟨h.1, h.2⟩⟩
  rw [hsplit, List.forall_mem_append, List.forall_mem_singleton, List.map_append, List.filter_append]
  by_cases hn : d.name ∈ builtinScalars
  · have hfilter : ([d].map (·.name)).filter (· ∉ builtinScalars) = [] := by simp [hn]
    rw [if_pos hn, hfilter, List.append_nil]
    constructor
    · rintro ⟨⟨hbuiltin, hd⟩, hdistinct⟩
      exact ⟨⟨hbuiltin, hdistinct⟩, hd hn⟩
    · rintro ⟨⟨hbuiltin, hdistinct⟩, hd⟩
      exact ⟨⟨hbuiltin, fun _ => hd⟩, hdistinct⟩
  · have hfilter : ([d].map (·.name)).filter (· ∉ builtinScalars) = [d.name] := by simp [hn]
    have hnew : d.name ∉ (definitions.map (·.name)).filter (· ∉ builtinScalars) ↔ ∀ e ∈ definitions, e.name ≠ d.name := by
      simp [hn]
    rw [if_neg hn, hfilter, List.nodup_append, ← hnew]
    constructor
    · rintro ⟨⟨hbuiltin, -⟩, hdistinct, -, hapart⟩
      exact ⟨⟨hbuiltin, hdistinct⟩, fun hm => hapart d.name hm d.name (by simp) rfl⟩
    · rintro ⟨⟨hbuiltin, hdistinct⟩, hd⟩
      refine ⟨⟨hbuiltin, fun hm => absurd hm hn⟩, hdistinct, by simp, fun name hm other ho => ?_⟩
      rw [List.mem_singleton.1 ho]
      exact fun he => hd (he ▸ hm)

/-- **Definitions can be entered** when no name is defined twice. -/
theorem succeeds_declareAll_iff : Succeeds (definitions.foldlM declareType builtinTypes) ↔ Declarable definitions := by
  induction definitions using List.reverseRecOn with
  | nil => exact iff_of_true (succeeds_ok _) ⟨by simp, by simp⟩
  | append_singleton definitions d ih =>
    rw [List.foldlM_append, succeeds_bind_iff, declarable_append_iff, ← ih]
    have hlast : ∀ types, [d].foldlM declareType types = declareType types d := fun types => by simp
    constructor
    · rintro ⟨types, htypes, hd⟩
      rw [hlast] at hd
      exact ⟨⟨types, htypes⟩, (entered_of_foldlM htypes).succeeds_declare_iff.1 hd⟩
    · rintro ⟨⟨types, htypes⟩, hd⟩
      refine ⟨types, htypes, ?_⟩
      rw [hlast]
      exact (entered_of_foldlM htypes).succeeds_declare_iff.2 hd

/-! ## Extensions -/

theorem exists_extend?_iff {type : NamedType} : (∃ extended, type.extend? e = some extended) ↔ e.body.kind = type.kind := by
  constructor
  · rintro ⟨extended, hx⟩
    exact (NamedType.extend?_kind hx).1
  · intro hk
    unfold NamedType.kind at hk
    unfold NamedType.extend?
    cases hc : type.content <;> rw [hc] at hk <;> cases hb : e.body <;> rw [hb] at hk <;> cases hk <;>
      exact ⟨_, rfl⟩

theorem succeeds_applyExtension_iff : Succeeds (applyExtension types e) ↔ kindIn types e.name = some e.body.kind := by
  unfold applyExtension kindIn
  cases ht : types.get? e.name with
  | none => exact iff_of_false (not_succeeds_error _) nofun
  | some type =>
    rw [Option.map_some, Option.some.injEq, eq_comm, ← exists_extend?_iff]
    dsimp only
    cases hx : type.extend? e with
    | none => exact iff_of_false (not_succeeds_error _) nofun
    | some extended => exact iff_of_true (succeeds_ok _) ⟨extended, rfl⟩

/-- an extension leaves names and kinds as they are -/
theorem kindIn_applyExtension (h : applyExtension types e = .ok next) (name : String) :
    kindIn next name = kindIn types name := by
  unfold applyExtension at h
  split at h
  · cases h
  · rename_i type ht
    split at h
    · rename_i extended hx
      cases h
      unfold kindIn
      rw [Table.get?_insert]
      split <;> rename_i hname
      · rw [hname, ht, Option.map_some, Option.map_some, (NamedType.extend?_kind hx).2]
      · rfl
    · cases h

/-- **Extensions can be added** when there are types of their names and kinds. -/
theorem succeeds_applyAll_iff : Succeeds (extensions.foldlM applyExtension types) ↔
    ∀ e ∈ extensions, kindIn types e.name = some e.body.kind := by
  refine succeeds_foldlM_iff (fun now => ∀ name, kindIn now name = kindIn types name) (fun now e hnow => ?_)
    (fun now e next hnow hx name => ?_) extensions fun _ => rfl
  · rw [succeeds_applyExtension_iff, hnow]
  · rw [kindIn_applyExtension hx, hnow]

/-! ## Documents -/

section Documents

variable {document : SchemaDocument} {schema : Schema} {name : String} {kind : TypeKind}

theorem Entered.kindIn_iff (h : Entered (definedTypes document) types) :
    kindIn types name = some kind ↔ document.HasType name kind := by
  unfold kindIn SchemaDocument.HasType
  by_cases hn : name ∈ builtinScalars
  · rw [if_pos hn, h.builtin name hn]
    exact Option.some_inj.trans eq_comm
  · rw [if_neg hn, Option.map_eq_some_iff]
    constructor
    · rintro ⟨type, ht, rfl⟩
      obtain ⟨d, hd, rfl⟩ := h.origin name (Table.mem_keys_iff.2 ⟨type, ht⟩) hn
      cases ht.symm.trans (h.entered d hd hn)
      exact ⟨d, hd, rfl, (NamedType.kind_ofDeclaration d).symm⟩
    · rintro ⟨d, hd, rfl, rfl⟩
      exact ⟨.ofDeclaration d, h.entered d hd hn, NamedType.kind_ofDeclaration d⟩

/-- **The documents that have types:** their definitions can be entered, and they have types of the names and kinds of their
extensions. -/
theorem succeeds_typesOf_iff : Succeeds (typesOf document) ↔
    Declarable (definedTypes document) ∧ ∀ e ∈ extensionsOf document, document.HasType e.name e.body.kind := by
  rw [typesOf, succeeds_bind_iff, ← succeeds_declareAll_iff]
  constructor
  · rintro ⟨defined, hd, hx⟩
    refine ⟨⟨defined, hd⟩, fun e he => ?_⟩
    rw [← (entered_of_foldlM hd).kindIn_iff]
    exact succeeds_applyAll_iff.1 hx e he
  · rintro ⟨⟨defined, hd⟩, hx⟩
    refine ⟨defined, hd, succeeds_applyAll_iff.2 fun e he => ?_⟩
    rw [(entered_of_foldlM hd).kindIn_iff]
    exact hx e he

/-- **The types of a document** have the names and kinds that it says. -/
theorem kindIn_typesOf (h : typesOf document = .ok types) :
    kindIn types name = some kind ↔ document.HasType name kind := by
  obtain ⟨defined, hd, hx⟩ := bind_eq_ok_iff.1 h
  have hsame : ∀ name, kindIn types name = kindIn defined name :=
    foldlM_invariant (fun now => ∀ name, kindIn now name = kindIn defined name)
      (fun _ _ _ _ hnow hstep name => (kindIn_applyExtension hstep name).trans (hnow name)) (fun _ => rfl) hx
  rw [hsame, (entered_of_foldlM hd).kindIn_iff]

theorem kind?_eq_some_iff (hs : ofDocument document = .ok schema) :
    schema.kind? name = some kind ↔ document.HasType name kind := by
  obtain ⟨types, ht, -, rfl⟩ := ofDocument_eq_ok_iff.1 hs
  exact kindIn_typesOf ht

/-- the built-in scalars are scalars of every schema, extended or not -/
theorem kind?_builtin (hs : ofDocument document = .ok schema) (hn : name ∈ builtinScalars) :
    schema.kind? name = some .scalar := by
  rw [kind?_eq_some_iff hs, SchemaDocument.HasType, if_pos hn]

/-- the declarations of a type are all of its kind -/
theorem kind?_of_declaration (hs : ofDocument document = .ok schema) (hd : d ∈ document.typeDeclarations) :
    schema.kind? d.name = some d.body.kind := by
  obtain ⟨types, ht, -, rfl⟩ := ofDocument_eq_ok_iff.1 hs
  obtain ⟨hdefined, hextensions⟩ := succeeds_typesOf_iff.1 ⟨types, ht⟩
  refine (kindIn_typesOf ht).2 ?_
  rcases List.mem_append.1 hd with hd | hd
  · unfold SchemaDocument.HasType
    split <;> rename_i hn
    · exact hdefined.builtin d hd hn
    · exact ⟨d, hd, rfl, rfl⟩
  · exact hextensions d hd

end Documents

end Schema

end GraphGen
