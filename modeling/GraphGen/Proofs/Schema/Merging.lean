/-
An extension says the same as its content in the type.

`mergeExtensions` writes the content of extensions into the definitions: an extension of a type that the document defines
with the same kind goes away, and its directives and content stand behind those of the definition. Extensions of built-in
scalars, of types that the document does not define, and of other kinds stay.

Extensions change types where they stand, so that those of one name do not see those of another. This is `Extended`, what a
run over all extensions leaves: the names of before, and under each of them the type with the extensions of that name
(`foldlM_applyExtension_iff`). What a run over definitions leaves is `Entered`; and it succeeds for definitions of the same
names and kinds alike (`foldlM_declareType_same`).

- `typesOf_mergeExtensions`: the types of a document are those of the merged one.
- `typesOf_samePlaces`: they do not depend on where extensions stand, as long as those of one type keep their order.

Main result:
- `sameSchemas_mergeExtensions`: merging and moving extensions leaves everything but the document itself as it was.
-/
import GraphGen.Proofs.Schema.Accepted
import Mathlib.Data.List.Induction

namespace GraphGen

/-! ## Merging -/

/-- what a body holds, with the content of another one of its kind behind it -/
def TypeBody.append : TypeBody → TypeBody → TypeBody
  | .object interfaces fields, .object more added => .object (interfaces ++ more) (fields ++ added)
  | .interface interfaces fields, .interface more added => .interface (interfaces ++ more) (fields ++ added)
  | .union members, .union added => .union (members ++ added)
  | .enum values, .enum added => .enum (values ++ added)
  | .inputObject fields, .inputObject added => .inputObject (fields ++ added)
  | body, _ => body

namespace TypeDeclaration

/-- the definition with the directives and the content of an extension behind its own -/
def append (d extension : TypeDeclaration) : TypeDeclaration :=
  { d with directives := d.directives ++ extension.directives, body := d.body.append extension.body }

/-- whether an extension is one of the type that is defined: of its name and kind, and not of a built-in scalar -/
def takes (d extension : TypeDeclaration) : Bool :=
  extension.name = d.name && extension.body.kind = d.body.kind && !Schema.builtinScalars.contains d.name

/-- the definition with its extensions among those of a document -/
def merged (extensions : List TypeDeclaration) (d : TypeDeclaration) : TypeDeclaration :=
  (extensions.filter d.takes).foldl append d

end TypeDeclaration

namespace SchemaDocument

/-- the document with extensions written into the definitions that they are of -/
def mergeExtensions (document : SchemaDocument) : SchemaDocument :=
  document.filterMap fun
    | .type d => some (.type (d.merged (Schema.extensionsOf document)))
    | .extension e => if (Schema.definedTypes document).any (·.takes e) then none else some (.extension e)
    | definition => some definition

/-- whether a definition is a type extension -/
def isExtension : SchemaDefinition → Bool
  | .extension _ => true
  | _ => false

/-- the documents differ in nothing but the places of extensions, where those of one type keep their order -/
structure SamePlaces (document other : SchemaDocument) : Prop where
  rest : other.filter (!isExtension ·) = document.filter (!isExtension ·)
  extensions : ∀ name, (Schema.extensionsOf other).filter (·.name = name) =
    (Schema.extensionsOf document).filter (·.name = name)

end SchemaDocument

/-! ## One type -/

theorem NamedType.kind_ofDeclaration (d : TypeDeclaration) : (ofDeclaration d).kind = d.body.kind := by
  unfold kind ofDeclaration
  cases d.body <;> rfl

theorem TypeBody.kind_append (body added : TypeBody) : (body.append added).kind = body.kind := by
  cases body <;> cases added <;> rfl

theorem TypeContent.extend?_ofBody {body added : TypeBody} (h : added.kind = body.kind) :
    (TypeContent.ofBody body).extend? added = some (.ofBody (body.append added)) := by
  cases body <;> cases added <;> try cases h
  all_goals simp [ofBody, extend?, TypeBody.append, fieldEntries, inputEntries, Table.insertAll_ofList]

namespace NamedType

/-- the type with several extensions added, which must all be of its kind -/
def extendAll? (type : NamedType) (extensions : List TypeDeclaration) : Option NamedType :=
  extensions.foldlM extend? type

/-- extensions add directives, and leave everything but the content -/
theorem extendAll?_eq {type extended : NamedType} {extensions : List TypeDeclaration}
    (h : type.extendAll? extensions = some extended) :
    extended = { type with
      directives := type.directives ++ extensions.flatMap fun e => e.directives.map .ofDirective
      content := extended.content } := by
  induction extensions generalizing type with
  | nil =>
    cases h
    simp
  | cons e rest ih =>
    rw [extendAll?, List.foldlM_cons] at h
    obtain ⟨next, hnext, hrest⟩ := Option.bind_eq_some_iff.1 h
    obtain ⟨content, -, rfl⟩ := Option.map_eq_some_iff.1 hnext
    rw [ih hrest]
    simp

/-- an extension of another kind is refused -/
theorem extendAll?_eq_none {type : NamedType} {extensions : List TypeDeclaration}
    (h : ∃ e ∈ extensions, e.body.kind ≠ type.kind) : type.extendAll? extensions = none := by
  induction extensions generalizing type with
  | nil => simp at h
  | cons first rest ih =>
    rw [extendAll?, List.foldlM_cons]
    cases hx : type.extend? first with
    | none => rfl
    | some extended =>
      obtain ⟨hfirst, hkind⟩ := extend?_kind hx
      obtain ⟨e, hm, hne⟩ := h
      rcases List.mem_cons.1 hm with rfl | hm
      · exact absurd hfirst hne
      · exact ih ⟨e, hm, hkind ▸ hne⟩

/-- **Extending a type is writing into its definition.** -/
theorem extendAll?_ofDeclaration {d : TypeDeclaration} {extensions : List TypeDeclaration}
    (h : ∀ e ∈ extensions, e.body.kind = d.body.kind) :
    (ofDeclaration d).extendAll? extensions = some (.ofDeclaration (extensions.foldl .append d)) := by
  induction extensions generalizing d with
  | nil => rfl
  | cons first rest ih =>
    have hfirst : (ofDeclaration d).extend? first = some (.ofDeclaration (d.append first)) := by
      have hcontent := TypeContent.extend?_ofBody (h first List.mem_cons_self)
      simp [extend?, ofDeclaration, hcontent, TypeDeclaration.append]
    have hrest : ∀ e ∈ rest, e.body.kind = (d.append first).body.kind := by
      intro e he
      rw [TypeDeclaration.append, TypeBody.kind_append]
      exact h e (List.mem_cons_of_mem _ he)
    calc (ofDeclaration d).extendAll? (first :: rest)
        = (ofDeclaration (d.append first)).extendAll? rest := by
          rw [extendAll?, List.foldlM_cons, hfirst]
          rfl
      _ = some (.ofDeclaration ((first :: rest).foldl .append d)) := ih hrest

end NamedType

namespace TypeDeclaration

theorem takes_iff {d e : TypeDeclaration} :
    d.takes e = true ↔ e.name = d.name ∧ e.body.kind = d.body.kind ∧ d.name ∉ Schema.builtinScalars := by
  simp [takes, and_assoc]

/-- merging keeps name and kind -/
theorem sameHead_merged (extensions : List TypeDeclaration) (d : TypeDeclaration) :
    (d.merged extensions).name = d.name ∧ (d.merged extensions).body.kind = d.body.kind := by
  unfold merged
  generalize extensions.filter d.takes = taken
  induction taken generalizing d with
  | nil => exact ⟨rfl, rfl⟩
  | cons e rest ih =>
    obtain ⟨hname, hkind⟩ := ih (d.append e)
    exact ⟨hname, hkind.trans (TypeBody.kind_append _ _)⟩

end TypeDeclaration

namespace Schema

/-! ## All extensions -/

/-- the result has the names of the types, and under each of them the type with the extensions of that name -/
structure Extended (extensions : List TypeDeclaration) (types result : Table NamedType) : Prop where
  keys : result.keys = types.keys
  known : ∀ e ∈ extensions, e.name ∈ types.keys
  held : ∀ name type, types.get? name = some type →
    result.get? name = type.extendAll? (extensions.filter (·.name = name))

theorem extended_nil {types result : Table NamedType} : Extended [] types result ↔ types = result := by
  constructor
  · intro h
    refine Table.eq_of_get? h.keys.symm fun name => ?_
    cases ht : types.get? name with
    | none =>
      rw [Table.get?_eq_none_iff, ← h.keys] at ht
      exact (Table.get?_eq_none_iff.2 ht).symm
    | some type => exact (h.held name type ht).symm
  · rintro rfl
    exact ⟨rfl, by simp, fun _ _ ht => ht⟩

/-- adding an extension to its type is the first step of adding all -/
theorem extended_cons {types result : Table NamedType} {e : TypeDeclaration} {rest : List TypeDeclaration}
    {type extended : NamedType} (ht : types.get? e.name = some type) (hx : type.extend? e = some extended) :
    Extended (e :: rest) types result ↔ Extended rest (types.insert e.name extended) result := by
  have hmem : e.name ∈ types.keys := Table.mem_keys_iff.2 ⟨type, ht⟩
  have hkeys : (types.insert e.name extended).keys = types.keys := by rw [Table.keys_insert, if_pos hmem]
  have hfirst : type.extendAll? ((e :: rest).filter (·.name = e.name)) =
      extended.extendAll? (rest.filter (·.name = e.name)) := by
    rw [List.filter_cons_of_pos (by simp), NamedType.extendAll?, List.foldlM_cons, hx]
    rfl
  have hother : ∀ name, name ≠ e.name → (e :: rest).filter (·.name = name) = rest.filter (·.name = name) :=
    fun name hne => List.filter_cons_of_neg (by simpa using fun he => hne he.symm)
  constructor
  · intro h
    refine ⟨h.keys.trans hkeys.symm, fun e' he' => hkeys ▸ h.known e' (List.mem_cons_of_mem _ he'), ?_⟩
    intro name found hf
    rw [Table.get?_insert] at hf
    split at hf
    · rename_i hname
      cases hf
      rw [hname, ← hfirst]
      exact h.held e.name type ht
    · rename_i hname
      rw [← hother name hname]
      exact h.held name found hf
  · intro h
    refine ⟨h.keys.trans hkeys, List.forall_mem_cons.2 ⟨hmem, fun e' he' => hkeys ▸ h.known e' he'⟩, ?_⟩
    intro name found hf
    by_cases hname : name = e.name
    · subst hname
      rw [ht] at hf
      cases hf
      rw [hfirst]
      exact h.held e.name extended (by rw [Table.get?_insert, if_pos rfl])
    · rw [hother name hname]
      exact h.held name found (by rw [Table.get?_insert, if_neg hname, hf])

/-- **What a run over extensions leaves.** -/
theorem foldlM_applyExtension_iff {extensions : List TypeDeclaration} {types result : Table NamedType} :
    extensions.foldlM applyExtension types = .ok result ↔ Extended extensions types result := by
  induction extensions generalizing types with
  | nil =>
    rw [extended_nil]
    exact ⟨fun h => by cases h; rfl, fun h => by rw [h]; rfl⟩
  | cons e rest ih =>
    rw [List.foldlM_cons, applyExtension]
    cases ht : types.get? e.name with
    | none =>
      refine iff_of_false nofun fun h => ?_
      exact Table.get?_eq_none_iff.1 ht (h.known e List.mem_cons_self)
    | some type =>
      dsimp only
      cases hx : type.extend? e with
      | none =>
        refine iff_of_false nofun fun h => ?_
        -- the name would have to be there still, but nothing stands under it
        have hnone : result.get? e.name = none := by
          rw [h.held e.name type ht, List.filter_cons_of_pos (by simp), NamedType.extendAll?, List.foldlM_cons, hx]
          rfl
        rw [Table.get?_eq_none_iff, h.keys] at hnone
        exact hnone (Table.mem_keys_iff.2 ⟨type, ht⟩)
      | some extended =>
        rw [extended_cons ht hx]
        exact ih

/-- extensions do the same to two tables of types where they do so name by name -/
theorem extended_congr {extensions left : List TypeDeclaration} {types others result : Table NamedType}
    (hkeys : others.keys = types.keys)
    (hknown : (∀ e ∈ extensions, e.name ∈ types.keys) ↔ ∀ e ∈ left, e.name ∈ types.keys)
    (hheld : ∀ name type, types.get? name = some type → ∃ other, others.get? name = some other ∧
      type.extendAll? (extensions.filter (·.name = name)) = other.extendAll? (left.filter (·.name = name))) :
    Extended extensions types result ↔ Extended left others result := by
  constructor
  · intro h
    refine ⟨h.keys.trans hkeys.symm, hkeys ▸ hknown.1 h.known, fun name other ho => ?_⟩
    obtain ⟨type, ht⟩ := Table.mem_keys_iff.1 (hkeys ▸ Table.mem_keys_iff.2 ⟨other, ho⟩)
    obtain ⟨found, hf, hsame⟩ := hheld name type ht
    cases ho.symm.trans hf
    exact (h.held name type ht).trans hsame
  · intro h
    refine ⟨h.keys.trans hkeys, hknown.2 (hkeys ▸ h.known), fun name type ht => ?_⟩
    obtain ⟨other, ho, hsame⟩ := hheld name type ht
    exact (h.held name other ho).trans hsame.symm

/-! ## All definitions -/

/-- the built-in scalars are there, and every other name is that of a definition, under which its type stands -/
structure Entered (definitions : List TypeDeclaration) (types : Table NamedType) : Prop where
  builtin : ∀ name ∈ builtinScalars, types.get? name = some (.builtinScalar name)
  entered : ∀ d ∈ definitions, d.name ∉ builtinScalars → types.get? d.name = some (.ofDeclaration d)
  origin : ∀ name ∈ types.keys, name ∉ builtinScalars → ∃ d ∈ definitions, d.name = name

theorem entered_builtinTypes : Entered [] builtinTypes := by
  have hkeys : builtinTypes.keys = builtinScalars := by decide
  refine ⟨?_, by simp, fun name hk hn => absurd (hkeys ▸ hk) hn⟩
  intro name hm
  simp only [builtinScalars, List.mem_cons, List.not_mem_nil, or_false] at hm
  rcases hm with rfl | rfl | rfl | rfl | rfl <;> rfl

section Declare

variable {definitions : List TypeDeclaration} {types next : Table NamedType} {d : TypeDeclaration}

/-- a definition of a new name is entered under it -/
theorem Entered.insert (h : Entered definitions types) (hnone : types.get? d.name = none) :
    Entered (definitions ++ [d]) (types.insert d.name (.ofDeclaration d)) := by
  have hnew : ∀ name, (∃ type, types.get? name = some type) → name ≠ d.name := by
    rintro name ⟨type, ht⟩ rfl
    rw [hnone] at ht
    cases ht
  refine ⟨fun name hm => ?_, fun e he hn => ?_, fun name hk hn => ?_⟩
  · rw [Table.get?_insert, if_neg (hnew name ⟨_, h.builtin name hm⟩)]
    exact h.builtin name hm
  · rcases List.mem_append.1 he with he | he
    · rw [Table.get?_insert, if_neg (hnew e.name ⟨_, h.entered e he hn⟩)]
      exact h.entered e he hn
    · rw [List.mem_singleton.1 he, Table.get?_insert, if_pos rfl]
  · obtain ⟨type, ht⟩ := Table.mem_keys_iff.1 hk
    rw [Table.get?_insert] at ht
    split at ht
    · rename_i hname
      exact ⟨d, by simp, hname.symm⟩
    · obtain ⟨e, he, hname⟩ := h.origin name (Table.mem_keys_iff.2 ⟨type, ht⟩) hn
      exact ⟨e, List.mem_append_left _ he, hname⟩

/-- a definition of a built-in type is left out, since a type that was defined is not built in -/
theorem Entered.leaveOut (h : Entered definitions types) {existing : NamedType}
    (hexisting : types.get? d.name = some existing) (hbuiltin : existing.builtin = true) :
    Entered (definitions ++ [d]) types := by
  refine ⟨h.builtin, fun e he hn => ?_, fun name hk hn => ?_⟩
  · rcases List.mem_append.1 he with he | he
    · exact h.entered e he hn
    · rw [List.mem_singleton.1 he] at hn ⊢
      obtain ⟨other, ho, hname⟩ := h.origin d.name (Table.mem_keys_iff.2 ⟨existing, hexisting⟩) hn
      have hother := h.entered other ho (hname ▸ hn)
      rw [hname, hexisting] at hother
      cases hother
      cases hbuiltin
  · obtain ⟨e, he, hname⟩ := h.origin name hk hn
    exact ⟨e, List.mem_append_left _ he, hname⟩

theorem Entered.declare (h : Entered definitions types) (hd : declareType types d = .ok next) :
    Entered (definitions ++ [d]) next := by
  unfold declareType at hd
  split at hd
  · rename_i hnone
    cases hd
    exact h.insert hnone
  · split at hd
    · rename_i existing hexisting hbuiltin
      cases hd
      exact h.leaveOut hexisting (Bool.and_eq_true_iff.1 hbuiltin).1
    · cases hd

end Declare

/-- **What a run over definitions leaves.** -/
theorem entered_of_foldlM {definitions : List TypeDeclaration} {types : Table NamedType}
    (h : definitions.foldlM declareType builtinTypes = .ok types) : Entered definitions types := by
  induction definitions using List.reverseRecOn generalizing types with
  | nil =>
    cases h
    exact entered_builtinTypes
  | append_singleton definitions d ih =>
    rw [List.foldlM_append] at h
    obtain ⟨before, hbefore, h⟩ := bind_eq_ok_iff.1 h
    rw [List.foldlM_cons] at h
    obtain ⟨next, hnext, h⟩ := bind_eq_ok_iff.1 h
    cases h
    exact (ih hbefore).declare hnext

/-- the definitions have the same name and kind -/
def SameHead (d other : TypeDeclaration) : Prop := other.name = d.name ∧ other.body.kind = d.body.kind

/-- the tables have the same names, and built-in scalars under the same names -/
structure SameSlots (types others : Table NamedType) : Prop where
  keys : others.keys = types.keys
  builtin : ∀ name, (others.get? name).map NamedType.builtin = (types.get? name).map NamedType.builtin

theorem SameSlots.declare {types others next : Table NamedType} {d other : TypeDeclaration}
    (h : SameSlots types others) (hd : SameHead d other) (hn : declareType types d = .ok next) :
    ∃ next', declareType others other = .ok next' ∧ SameSlots next next' := by
  obtain ⟨hname, hkind⟩ := hd
  have hslot := h.builtin d.name
  unfold declareType at hn ⊢
  rw [hname]
  cases ht : types.get? d.name with
  | none =>
    rw [ht, Option.map_none, Option.map_eq_none_iff] at hslot
    rw [ht] at hn
    rw [hslot]
    cases hn
    refine ⟨_, rfl, ?_, fun name => ?_⟩
    · rw [Table.keys_insert, Table.keys_insert, h.keys]
    · rw [Table.get?_insert, Table.get?_insert]
      split
      · rfl
      · exact h.builtin name
  | some type =>
    rw [ht, Option.map_some, Option.map_eq_some_iff] at hslot
    obtain ⟨type', ht', hbuiltin⟩ := hslot
    rw [ht] at hn
    dsimp only at hn
    rw [ht']
    dsimp only
    rw [hbuiltin, hkind]
    split at hn
    · cases hn
      exact ⟨others, if_pos (by assumption), h⟩
    · cases hn

/-- definitions of the same names and kinds are entered alike -/
theorem foldlM_declareType_same {definitions others : List TypeDeclaration} {types types' result : Table NamedType}
    (hd : List.Forall₂ SameHead definitions others) (hs : SameSlots types types')
    (h : definitions.foldlM declareType types = .ok result) :
    ∃ result', others.foldlM declareType types' = .ok result' ∧ SameSlots result result' := by
  induction hd generalizing types types' with
  | nil =>
    cases h
    exact ⟨types', rfl, hs⟩
  | cons hhead _ ih =>
    rw [List.foldlM_cons] at h
    obtain ⟨next, hnext, h⟩ := bind_eq_ok_iff.1 h
    obtain ⟨next', hnext', hs'⟩ := hs.declare hhead hnext
    obtain ⟨result', hresult', hslots⟩ := ih hs' h
    exact ⟨result', by rw [List.foldlM_cons, hnext']; exact hresult', hslots⟩

/-! ## Merged documents -/

section Merged

variable {document : SchemaDocument}

theorem definedTypes_mergeExtensions : definedTypes document.mergeExtensions =
    (definedTypes document).map (·.merged (extensionsOf document)) := by
  unfold SchemaDocument.mergeExtensions definedTypes
  rw [List.filterMap_filterMap, List.map_filterMap]
  refine congrArg (List.filterMap · document) (funext fun definition => ?_)
  cases definition with
  | extension e =>
    dsimp only
    split <;> rfl
  | _ => rfl

theorem extensionsOf_mergeExtensions : extensionsOf document.mergeExtensions =
    (extensionsOf document).filter fun e => !(definedTypes document).any (·.takes e) := by
  rw [extensionsOf, SchemaDocument.mergeExtensions, extensionsOf, List.filterMap_filterMap, List.filter_filterMap]
  refine congrArg (List.filterMap · document) (funext fun definition => ?_)
  cases definition with
  | extension e =>
    dsimp only
    cases htaken : (definedTypes document).any (·.takes e) <;> simp [Option.filter, htaken]
  | _ => rfl

theorem namedRoots_mergeExtensions : namedRoots document.mergeExtensions = namedRoots document := by
  unfold SchemaDocument.mergeExtensions namedRoots
  rw [List.filterMap_eq_flatMap_toList, List.flatMap_assoc]
  refine congrArg (List.flatMap · document) (funext fun definition => ?_)
  cases definition with
  | extension e =>
    dsimp only
    split <;> rfl
  | _ => simp

theorem declaredDirectives_mergeExtensions :
    declaredDirectives document.mergeExtensions = declaredDirectives document := by
  unfold SchemaDocument.mergeExtensions declaredDirectives
  rw [List.filterMap_filterMap]
  refine congrArg (fun f => Table.ofList (List.filterMap f document)) (funext fun definition => ?_)
  cases definition with
  | extension e =>
    dsimp only
    split <;> rfl
  | _ => rfl

theorem forall₂_merged : List.Forall₂ SameHead (definedTypes document)
    ((definedTypes document).map (·.merged (extensionsOf document))) := by
  rw [List.forall₂_map_right_iff, List.forall₂_same]
  exact fun d _ => d.sameHead_merged _

/-- the definitions of a name that is not that of a built-in scalar are of one kind -/
theorem Entered.kind_eq {definitions : List TypeDeclaration} {types : Table NamedType} (h : Entered definitions types)
    {d other : TypeDeclaration} (hd : d ∈ definitions) (ho : other ∈ definitions) (hname : other.name = d.name)
    (hn : d.name ∉ builtinScalars) : other.body.kind = d.body.kind := by
  have hsame : some (NamedType.ofDeclaration d) = some (NamedType.ofDeclaration other) := by
    rw [← h.entered d hd hn, ← h.entered other ho (hname ▸ hn), hname]
  rw [← NamedType.kind_ofDeclaration, ← NamedType.kind_ofDeclaration, Option.some.inj hsame]

/-- when all extensions of a name are of the kind of its definition, the definition takes them, and none of them stays -/
theorem takes_of_same_kind {d : TypeDeclaration} (hd : d ∈ definedTypes document) (hn : d.name ∉ builtinScalars)
    (hkinds : ∀ e ∈ (extensionsOf document).filter (·.name = d.name), e.body.kind = d.body.kind) :
    (extensionsOf document).filter (·.name = d.name) = (extensionsOf document).filter d.takes ∧
      (extensionsOf document.mergeExtensions).filter (·.name = d.name) = [] := by
  have htakes : ∀ e ∈ extensionsOf document, e.name = d.name → d.takes e = true := fun e he hname =>
    TypeDeclaration.takes_iff.2 ⟨hname, hkinds e (List.mem_filter.2 ⟨he, by simpa using hname⟩), hn⟩
  constructor
  · refine List.filter_congr fun e he => ?_
    rw [Bool.eq_iff_iff, decide_eq_true_iff]
    exact ⟨htakes e he, fun ht => (TypeDeclaration.takes_iff.1 ht).1⟩
  · rw [extensionsOf_mergeExtensions, List.filter_eq_nil_iff]
    intro e he hname
    obtain ⟨he, hstays⟩ := List.mem_filter.1 he
    rw [List.any_eq_true.2 ⟨d, hd, htakes e he (by simpa using hname)⟩] at hstays
    cases hstays

/-- an extension of another kind than the definitions of its name is nobody's, so that it stays -/
theorem stays_of_other_kind {defined : Table NamedType} (hdefined : Entered (definedTypes document) defined)
    {d : TypeDeclaration} (hd : d ∈ definedTypes document) (hn : d.name ∉ builtinScalars) {e : TypeDeclaration}
    (he : e ∈ extensionsOf document) (hname : e.name = d.name) (hkind : e.body.kind ≠ d.body.kind) :
    e ∈ extensionsOf document.mergeExtensions := by
  rw [extensionsOf_mergeExtensions]
  refine List.mem_filter.2 ⟨he, ?_⟩
  rw [Bool.not_eq_true', List.any_eq_false]
  intro other ho htakes
  obtain ⟨hother, hsame, -⟩ := TypeDeclaration.takes_iff.1 htakes
  exact hkind (hsame.trans (hdefined.kind_eq hd ho (hother.symm.trans hname) hn))

/-- the extensions that stay do to the merged definition what all extensions do to the definition -/
theorem extendAll?_merged {defined : Table NamedType} (hdefined : Entered (definedTypes document) defined)
    {d : TypeDeclaration} (hd : d ∈ definedTypes document) (hn : d.name ∉ builtinScalars) :
    (NamedType.ofDeclaration d).extendAll? ((extensionsOf document).filter (·.name = d.name)) =
      (NamedType.ofDeclaration (d.merged (extensionsOf document))).extendAll?
        ((extensionsOf document.mergeExtensions).filter (·.name = d.name)) := by
  by_cases hkinds : ∀ e ∈ (extensionsOf document).filter (·.name = d.name), e.body.kind = d.body.kind
  · -- all are written into the definition, and none is left
    obtain ⟨htaken, hleft⟩ := takes_of_same_kind hd hn hkinds
    rw [hleft, NamedType.extendAll?_ofDeclaration hkinds, htaken]
    rfl
  · -- one of another kind stays, and is refused in both
    push Not at hkinds
    obtain ⟨e, he, hkind⟩ := hkinds
    obtain ⟨hext, hname⟩ := List.mem_filter.1 he
    have hstays := stays_of_other_kind hdefined hd hn hext (by simpa using hname) hkind
    have hmerged := (d.sameHead_merged (extensionsOf document)).2
    rw [NamedType.extendAll?_eq_none ⟨e, he, by rwa [NamedType.kind_ofDeclaration]⟩,
      NamedType.extendAll?_eq_none
        ⟨e, List.mem_filter.2 ⟨hstays, hname⟩, by rwa [NamedType.kind_ofDeclaration, hmerged]⟩]

/-- all extensions are of types that are there when those that stay are -/
theorem known_mergeExtensions {defined : Table NamedType} (hdefined : Entered (definedTypes document) defined) :
    (∀ e ∈ extensionsOf document, e.name ∈ defined.keys) ↔
      ∀ e ∈ extensionsOf document.mergeExtensions, e.name ∈ defined.keys := by
  rw [extensionsOf_mergeExtensions]
  constructor
  · exact fun h e he => h e (List.mem_filter.1 he).1
  · intro h e he
    cases htaken : (definedTypes document).any (·.takes e) with
    | false => exact h e (List.mem_filter.2 ⟨he, by rw [htaken]; rfl⟩)
    | true =>
      obtain ⟨d, hd, htakes⟩ := List.any_eq_true.1 htaken
      obtain ⟨hname, -, hn⟩ := TypeDeclaration.takes_iff.1 htakes
      exact hname ▸ Table.mem_keys_iff.2 ⟨_, hdefined.entered d hd hn⟩

/-- **Extensions of the merged document.** -/
theorem extended_mergeExtensions {defined merged result : Table NamedType}
    (hdefined : Entered (definedTypes document) defined)
    (hmerged : Entered ((definedTypes document).map (·.merged (extensionsOf document))) merged)
    (hkeys : merged.keys = defined.keys) :
    Extended (extensionsOf document) defined result ↔ Extended (extensionsOf document.mergeExtensions) merged result := by
  refine extended_congr hkeys (known_mergeExtensions hdefined) fun name type ht => ?_
  by_cases hn : name ∈ builtinScalars
  · refine ⟨type, ?_, ?_⟩
    · rw [hmerged.builtin name hn, ← hdefined.builtin name hn, ht]
    · -- no definition takes an extension of a built-in scalar
      rw [extensionsOf_mergeExtensions, List.filter_filter]
      refine congrArg _ (List.filter_congr fun e _ => ?_)
      by_cases hname : e.name = name
      · have hstays : (definedTypes document).any (·.takes e) = false := by
          rw [List.any_eq_false]
          intro d _ htakes
          obtain ⟨hd, -, hnot⟩ := TypeDeclaration.takes_iff.1 htakes
          exact hnot (hd ▸ hname ▸ hn)
        simp [hname, hstays]
      · simp [hname]
  · obtain ⟨d, hd, rfl⟩ := hdefined.origin name (Table.mem_keys_iff.2 ⟨type, ht⟩) hn
    have hd' := (d.sameHead_merged (extensionsOf document)).1
    refine ⟨.ofDeclaration (d.merged (extensionsOf document)), ?_, ?_⟩
    · have hentered := hmerged.entered _ (List.mem_map_of_mem hd) (hd' ▸ hn)
      rwa [hd'] at hentered
    · cases ht.symm.trans (hdefined.entered d hd hn)
      exact extendAll?_merged hdefined hd hn

/-- **A document and the merged one have the same types,** or neither has any. -/
theorem typesOf_mergeExtensions {types : Table NamedType} :
    typesOf document.mergeExtensions = .ok types ↔ typesOf document = .ok types := by
  unfold typesOf
  rw [definedTypes_mergeExtensions, bind_eq_ok_iff, bind_eq_ok_iff]
  have hslots : SameSlots builtinTypes builtinTypes := ⟨rfl, fun _ => rfl⟩
  constructor
  · rintro ⟨merged, hm, he⟩
    have hflip : List.Forall₂ SameHead ((definedTypes document).map (·.merged (extensionsOf document)))
        (definedTypes document) := (forall₂_merged.flip).imp fun _ _ h => ⟨h.1.symm, h.2.symm⟩
    obtain ⟨defined, hd, hsame⟩ := foldlM_declareType_same hflip hslots hm
    refine ⟨defined, hd, ?_⟩
    rw [foldlM_applyExtension_iff] at he ⊢
    exact (extended_mergeExtensions (entered_of_foldlM hd) (entered_of_foldlM hm) hsame.keys.symm).2 he
  · rintro ⟨defined, hd, he⟩
    obtain ⟨merged, hm, hsame⟩ := foldlM_declareType_same forall₂_merged hslots hd
    refine ⟨merged, hm, ?_⟩
    rw [foldlM_applyExtension_iff] at he ⊢
    exact (extended_mergeExtensions (entered_of_foldlM hd) (entered_of_foldlM hm) hsame.keys).1 he

end Merged

/-! ## Moved extensions -/

section Moved

variable {document other : SchemaDocument}

/-- what is left out of a list does not matter where nothing is made of it -/
theorem flatMap_filter {α β : Type} {f : α → List β} {p : α → Bool} (hf : ∀ x, p x = false → f x = []) (l : List α) :
    (l.filter p).flatMap f = l.flatMap f := by
  induction l with
  | nil => rfl
  | cons x rest ih =>
    rw [List.flatMap_cons, ← ih]
    cases hp : p x with
    | false => rw [List.filter_cons_of_neg (by simp [hp]), hf x hp, List.nil_append]
    | true => rw [List.filter_cons_of_pos hp, List.flatMap_cons]

theorem flatMap_samePlaces {β : Type} (h : document.SamePlaces other) {f : SchemaDefinition → List β}
    (hf : ∀ e, f (.extension e) = []) : other.flatMap f = document.flatMap f := by
  have hleft : ∀ definition, (!SchemaDocument.isExtension definition) = false → f definition = [] := by
    intro definition hd
    cases definition with
    | extension e => exact hf e
    | _ => cases hd
  rw [← flatMap_filter hleft other, h.rest, flatMap_filter hleft document]

theorem filterMap_samePlaces {β : Type} (h : document.SamePlaces other) {f : SchemaDefinition → Option β}
    (hf : ∀ e, f (.extension e) = none) : other.filterMap f = document.filterMap f := by
  rw [List.filterMap_eq_flatMap_toList, List.filterMap_eq_flatMap_toList]
  exact flatMap_samePlaces h fun e => by rw [hf e]; rfl

/-- **The places of extensions do not matter for the types.** -/
theorem typesOf_samePlaces (h : document.SamePlaces other) {types : Table NamedType} :
    typesOf other = .ok types ↔ typesOf document = .ok types := by
  have hdefined : definedTypes other = definedTypes document := filterMap_samePlaces h fun _ => rfl
  have hmem : ∀ e, e ∈ extensionsOf other ↔ e ∈ extensionsOf document := by
    intro e
    have hsame := h.extensions e.name
    constructor <;> intro he
    · exact (List.mem_filter.1 (hsame ▸ List.mem_filter.2 ⟨he, by simp⟩)).1
    · exact (List.mem_filter.1 (hsame ▸ List.mem_filter.2 ⟨he, by simp⟩)).1
  unfold typesOf
  rw [hdefined, bind_eq_ok_iff, bind_eq_ok_iff]
  refine exists_congr fun defined => and_congr_right fun _ => ?_
  rw [foldlM_applyExtension_iff, foldlM_applyExtension_iff]
  refine extended_congr rfl (forall_congr' fun e => by rw [hmem e]) fun name type ht => ⟨type, ht, ?_⟩
  rw [h.extensions name]

end Moved

/-! ## Schemas -/

/-- the schemas differ in nothing but their documents -/
structure SameButDocument (schema other : Schema) : Prop where
  types : other.types = schema.types
  directives : other.directives = schema.directives
  roots : other.roots = schema.roots
  possibleTypes : ∀ name, other.possibleTypes name = schema.possibleTypes name
  fits : ∀ concrete condition, other.fits concrete condition = schema.fits concrete condition

/-- the documents are both accepted or both refused, and their schemas differ in nothing but the documents -/
structure SameSchemas (document other : SchemaDocument) : Prop where
  accepted : Succeeds (ofDocument other) ↔ Succeeds (ofDocument document)
  schemas : ∀ schema schema', ofDocument document = .ok schema → ofDocument other = .ok schema' →
    schema.SameButDocument schema'

/-- documents with the same types, root types and directives have the same schemas -/
theorem sameSchemas_of_eq {document other : SchemaDocument}
    (ht : ∀ types, typesOf other = .ok types ↔ typesOf document = .ok types)
    (hr : namedRoots other = namedRoots document)
    (hd : declaredDirectives other = declaredDirectives document) : SameSchemas document other := by
  constructor
  · unfold Succeeds
    simp only [ofDocument_eq_ok_iff, hr, ht]
    constructor
    · rintro ⟨_, types, htypes, hknown, -⟩
      exact ⟨_, types, htypes, hknown, rfl⟩
    · rintro ⟨_, types, htypes, hknown, -⟩
      exact ⟨_, types, htypes, hknown, rfl⟩
  · intro schema schema' hs hs'
    obtain ⟨types, htypes, -, rfl⟩ := ofDocument_eq_ok_iff.1 hs
    obtain ⟨types', htypes', -, rfl⟩ := ofDocument_eq_ok_iff.1 hs'
    cases htypes.symm.trans ((ht types').1 htypes')
    rw [hr, hd]
    exact ⟨rfl, rfl, rfl, fun _ => rfl, fun _ _ => rfl⟩

/-- **An extension says the same as its content in the type.** Any document has the same schema as the merged one, in which
extensions are written into the definitions that they are of, or neither has a schema. And extensions may be moved: only the
order of those of one type matters. -/
theorem sameSchemas_mergeExtensions (document : SchemaDocument) :
    SameSchemas document document.mergeExtensions ∧
      ∀ other, document.SamePlaces other → SameSchemas document other := by
  constructor
  · exact sameSchemas_of_eq (fun _ => typesOf_mergeExtensions) namedRoots_mergeExtensions
      declaredDirectives_mergeExtensions
  · intro other h
    refine sameSchemas_of_eq (fun _ => typesOf_samePlaces h) (flatMap_samePlaces h fun _ => rfl) ?_
    exact congrArg Table.ofList (filterMap_samePlaces h fun _ => rfl)

/-- a field of a type without arguments -/
def plainField (name type : String) : FieldDeclaration := ⟨none, name, [], .named type, []⟩

/-- a user that is a node by an extension before its definition, which also declares its name again, and that gets a mail
address by another one; a role that gets a value; and an extension of a built-in scalar -/
def extendedSchema : SchemaDocument :=
  [.extension ⟨none, "User", [], .object ["Node"] [⟨none, "name", [], .nonNull (.named "String"), []⟩]⟩,
    .type ⟨none, "User", [], .object [] [plainField "name" "String", plainField "role" "Role"]⟩,
    .extension ⟨none, "Role", [⟨"flags", []⟩], .enum [⟨none, "MEMBER", []⟩]⟩,
    .type ⟨none, "Role", [], .enum [⟨none, "ADMIN", []⟩]⟩,
    .extension ⟨none, "ID", [⟨"opaque", []⟩], .scalar⟩,
    .type ⟨none, "Node", [], .interface [] [plainField "id" "ID"]⟩,
    .extension ⟨none, "User", [], .object [] [plainField "mail" "String"]⟩]

/-- the same definitions, and then the extensions in another order -/
def movedSchema : SchemaDocument :=
  [.type ⟨none, "User", [], .object [] [plainField "name" "String", plainField "role" "Role"]⟩,
    .type ⟨none, "Role", [], .enum [⟨none, "ADMIN", []⟩]⟩,
    .type ⟨none, "Node", [], .interface [] [plainField "id" "ID"]⟩,
    .extension ⟨none, "Role", [⟨"flags", []⟩], .enum [⟨none, "MEMBER", []⟩]⟩,
    .extension ⟨none, "ID", [⟨"opaque", []⟩], .scalar⟩,
    .extension ⟨none, "User", [], .object ["Node"] [⟨none, "name", [], .nonNull (.named "String"), []⟩]⟩,
    .extension ⟨none, "User", [], .object [] [plainField "mail" "String"]⟩]

theorem samePlaces_movedSchema : extendedSchema.SamePlaces movedSchema := by
  refine ⟨rfl, fun name => ?_⟩
  by_cases hu : "User" = name
  · subst hu
    rfl
  · have hother : ∀ document ∈ [extendedSchema, movedSchema], (extensionsOf document).filter (·.name = name) =
        ((extensionsOf document).filter (·.name ≠ "User")).filter (·.name = name) := by
      intro document _
      rw [List.filter_filter]
      refine List.filter_congr fun e _ => ?_
      by_cases he : e.name = name
      · simp [he, Ne.symm hu]
      · simp [he]
    rw [hother extendedSchema (by simp), hother movedSchema (by simp)]
    rfl

theorem sameSchemas_mergeExtensions_user :
    (∃ schema merged, ofDocument extendedSchema = .ok schema ∧ ofDocument extendedSchema.mergeExtensions = .ok merged ∧
      schema.SameButDocument merged ∧
      extendedSchema.mergeExtensions =
        [.type ⟨none, "User", [], .object ["Node"] [plainField "name" "String", plainField "role" "Role",
            ⟨none, "name", [], .nonNull (.named "String"), []⟩, plainField "mail" "String"]⟩,
          .type ⟨none, "Role", [⟨"flags", []⟩], .enum [⟨none, "ADMIN", []⟩, ⟨none, "MEMBER", []⟩]⟩,
          .extension ⟨none, "ID", [⟨"opaque", []⟩], .scalar⟩,
          .type ⟨none, "Node", [], .interface [] [plainField "id" "ID"]⟩]) ∧
    extendedSchema.SamePlaces movedSchema ∧ SameSchemas extendedSchema movedSchema := by
  obtain ⟨hmerged, hmoved⟩ := sameSchemas_mergeExtensions extendedSchema
  exact ⟨⟨_, _, rfl, rfl, hmerged.schemas _ _ rfl rfl, rfl⟩, samePlaces_movedSchema, hmoved _ samePlaces_movedSchema⟩

end Schema

end GraphGen
