/-
The printed schema in sorted order.

Documents may differ in the order of their definitions, and in the order of the fields and values inside types and extensions of
types (`SchemaDocument.Reordered`). Where no two things of one scope have the same name (`SchemaDocument.Distinct`), sorting brings
definitions and the inside of types to one order. It does not reach the inside of extensions.

- `Distinct.nodup_place`: no two definitions are at one place.
- `SchemaDefinition.Reordered.sorted_eq`: definitions other than extensions are the same when they are sorted on the inside.

Main result:
- `sorted_canonical_iff`: sorted documents are reordered, they are the same but for extensions, and their texts are the same when the
  extensions are.

An extension keeps the order of its fields, so that the texts of two documents that only differ in it are different
(`extension_order_kept`).
-/
import GraphGen.Proofs.Schema.Sorted

namespace GraphGen

/-! ## Reordered documents -/

/-- the bodies differ in the order of their fields or values only -/
inductive TypeBody.Reordered : TypeBody → TypeBody → Prop where
  | scalar : Reordered .scalar .scalar
  | object (interfaces : List String) {fields others : List FieldDeclaration} (h : fields.Perm others) :
    Reordered (.object interfaces fields) (.object interfaces others)
  | interface (interfaces : List String) {fields others : List FieldDeclaration} (h : fields.Perm others) :
    Reordered (.interface interfaces fields) (.interface interfaces others)
  | union (members : List String) : Reordered (.union members) (.union members)
  | enum {values others : List EnumValueDeclaration} (h : values.Perm others) : Reordered (.enum values) (.enum others)
  | inputObject {fields others : List InputValueDeclaration} (h : fields.Perm others) :
    Reordered (.inputObject fields) (.inputObject others)

theorem TypeBody.Reordered.refl (body : TypeBody) : body.Reordered body := by
  cases body with
  | scalar => exact .scalar
  | object interfaces fields => exact .object interfaces (.refl fields)
  | interface interfaces fields => exact .interface interfaces (.refl fields)
  | union members => exact .union members
  | enum values => exact .enum (.refl values)
  | inputObject fields => exact .inputObject (.refl fields)

/-- the declarations differ in the order of their fields or values only -/
structure TypeDeclaration.Reordered (d other : TypeDeclaration) : Prop where
  head : other = { d with body := other.body }
  body : d.body.Reordered other.body

/-- the definitions differ in the order inside a type or an extension only -/
inductive SchemaDefinition.Reordered : SchemaDefinition → SchemaDefinition → Prop where
  | roots (d : RootDeclaration) : Reordered (.roots d) (.roots d)
  | type {d other : TypeDeclaration} (h : d.Reordered other) : Reordered (.type d) (.type other)
  | extension {d other : TypeDeclaration} (h : d.Reordered other) : Reordered (.extension d) (.extension other)
  | directive (d : DirectiveDeclaration) : Reordered (.directive d) (.directive d)

/-- the body has no two fields, input fields or values of one name -/
structure TypeBody.Distinct (body : TypeBody) : Prop where
  fields : (body.fields.map (·.name)).Nodup
  inputFields : (body.inputFields.map (·.name)).Nodup
  enumValues : (body.enumValues.map (·.name)).Nodup

namespace SchemaDocument

/-- the documents differ in the order of their definitions, and in the order inside types and extensions only -/
def Reordered (document other : SchemaDocument) : Prop :=
  ∃ middle : SchemaDocument, document.Perm middle ∧ List.Forall₂ SchemaDefinition.Reordered middle other

/-- the schema definitions of a document in order -/
def rootDeclarations (document : SchemaDocument) : List RootDeclaration :=
  document.filterMap fun
    | .roots d => some d
    | _ => none

/-- the directive definitions of a document in order -/
def directiveDeclarations (document : SchemaDocument) : List DirectiveDeclaration :=
  document.filterMap fun
    | .directive d => some d
    | _ => none

/-- the document has one schema definition at most, and no two types, extensions, directives, fields or values of one name in one
scope -/
structure Distinct (document : SchemaDocument) : Prop where
  roots : document.rootDeclarations.length ≤ 1
  types : ((Schema.definedTypes document).map (·.name)).Nodup
  extensions : ((Schema.extensionsOf document).map (·.name)).Nodup
  directives : (document.directiveDeclarations.map (·.name)).Nodup
  inside : ∀ d ∈ document.typeDeclarations, d.body.Distinct

end SchemaDocument

/-! ## One place for each definition -/

section Places

variable {document : SchemaDocument}

/-- no two elements of which something is made have the same made of them -/
theorem pairwise_of_nodup_filterMap {α β : Type} {f : α → Option β} {l : List α} (h : (l.filterMap f).Nodup) :
    l.Pairwise fun a b => ∀ x y, f a = some x → f b = some y → x ≠ y :=
  (List.pairwise_filterMap.1 h).imp fun hab x y hx hy => hab x hx y hy

/-- **No two definitions are at one place.** -/
theorem SchemaDocument.Distinct.nodup_place (h : document.Distinct) : (document.map SchemaDefinition.place).Nodup := by
  have hroots : (document.rootDeclarations.map fun _ => ()).Nodup := by
    have hlength := h.roots
    generalize document.rootDeclarations = declarations at hlength
    cases declarations with
    | nil => exact .nil
    | cons d rest =>
      have hrest : rest = [] := List.eq_nil_of_length_eq_zero (by simpa using hlength)
      rw [hrest]
      exact List.nodup_singleton ()
  have htypes := h.types
  have hextensions := h.extensions
  have hdirectives := h.directives
  unfold SchemaDocument.rootDeclarations at hroots
  unfold Schema.definedTypes at htypes
  unfold Schema.extensionsOf at hextensions
  unfold SchemaDocument.directiveDeclarations at hdirectives
  rw [List.map_filterMap] at hroots htypes hextensions hdirectives
  -- definitions of one sort are at different places by their names, those of two sorts by their groups
  have hall := (pairwise_of_nodup_filterMap hroots).and ((pairwise_of_nodup_filterMap htypes).and
    ((pairwise_of_nodup_filterMap hextensions).and (pairwise_of_nodup_filterMap hdirectives)))
  refine List.pairwise_map.2 (hall.imp ?_)
  rintro a b ⟨hroots, htypes, hextensions, hdirectives⟩ hplace
  obtain ⟨hgroup, hname⟩ := Prod.mk.inj hplace
  cases a with
  | roots d => cases b with
    | roots other => exact hroots () () rfl rfl rfl
    | _ => cases hgroup
  | type d => cases b with
    | type other => exact htypes d.name other.name rfl rfl hname
    | _ => cases hgroup
  | extension d => cases b with
    | extension other => exact hextensions d.name other.name rfl rfl hname
    | _ => cases hgroup
  | directive d => cases b with
    | directive other => exact hdirectives d.name other.name rfl rfl hname
    | _ => cases hgroup

end Places

/-! ## Sorted on the inside -/

section Inside

theorem TypeBody.reordered_sorted (body : TypeBody) : body.Reordered body.sorted := by
  cases body with
  | object interfaces fields => exact .object interfaces (sortByName_perm _ fields).symm
  | interface interfaces fields => exact .interface interfaces (sortByName_perm _ fields).symm
  | enum values => exact .enum (sortByName_perm _ values).symm
  | inputObject fields => exact .inputObject (sortByName_perm _ fields).symm
  | _ => exact .refl _

theorem SchemaDefinition.reordered_sorted (d : SchemaDefinition) : d.Reordered d.sorted := by
  cases d with
  | roots d => exact .roots d
  | type d => exact .type ⟨rfl, d.body.reordered_sorted⟩
  | extension d => exact .extension ⟨rfl, .refl d.body⟩
  | directive d => exact .directive d

/-- **Sorting reorders,** and does nothing else. -/
theorem SchemaDocument.reordered_sorted (document : SchemaDocument) : document.Reordered document.sorted := by
  refine ⟨document.mergeSort SchemaDefinition.before, (List.mergeSort_perm document _).symm, ?_⟩
  exact List.forall₂_map_right_iff.2 (List.forall₂_same.2 fun d _ => d.reordered_sorted)

theorem TypeBody.Reordered.sorted_eq {body other : TypeBody} (h : body.Reordered other) (hd : body.Distinct) :
    body.sorted = other.sorted := by
  cases h with
  | scalar => rfl
  | object interfaces h => exact congrArg (TypeBody.object interfaces) (sortByName_eq_of_perm h hd.fields)
  | interface interfaces h => exact congrArg (TypeBody.interface interfaces) (sortByName_eq_of_perm h hd.fields)
  | union members => rfl
  | enum h => exact congrArg TypeBody.enum (sortByName_eq_of_perm h hd.enumValues)
  | inputObject h => exact congrArg TypeBody.inputObject (sortByName_eq_of_perm h hd.inputFields)

theorem TypeDeclaration.Reordered.sorted_eq {d other : TypeDeclaration} (h : d.Reordered other) (hd : d.body.Distinct) :
    d.sorted = other.sorted := by
  rw [h.head]
  unfold TypeDeclaration.sorted
  rw [h.body.sorted_eq hd]

variable {document other : SchemaDocument}

/-- what is made of related elements is the same when it is for any two of them -/
theorem map_eq_of_forall₂ {α β γ : Type} {R : α → β → Prop} {f : α → γ} {g : β → γ} {l : List α} {l' : List β}
    (h : List.Forall₂ R l l') (hfg : ∀ a ∈ l, ∀ b ∈ l', R a b → f a = g b) : l.map f = l'.map g := by
  induction h with
  | nil => rfl
  | cons hab _ ih =>
    rw [List.map_cons, List.map_cons, hfg _ List.mem_cons_self _ List.mem_cons_self hab,
      ih fun a ha b hb => hfg a (List.mem_cons_of_mem _ ha) b (List.mem_cons_of_mem _ hb)]

/-- definitions other than extensions are the same when they are sorted on the inside -/
theorem SchemaDefinition.Reordered.sorted_eq {a b : SchemaDefinition} (h : a.Reordered b) (hdistinct : document.Distinct)
    (ha : a ∈ document) (hx : SchemaDocument.isExtension a = false) : a.sorted = b.sorted := by
  cases h with
  | roots d => rfl
  | type h =>
    have hdefined := Schema.mem_definedTypes_iff.2 ha
    exact congrArg SchemaDefinition.type (h.sorted_eq (hdistinct.inside _ (List.mem_append_left _ hdefined)))
  | extension h => cases hx
  | directive d => rfl

/-- an extension of a document that is one of the other one, too, is the same in both -/
theorem TypeDeclaration.Reordered.eq_of_mem {d d' : TypeDeclaration} (h : d.Reordered d') (hdistinct : document.Distinct)
    (hd : d ∈ Schema.extensionsOf document) (hd' : d' ∈ Schema.extensionsOf document) : d = d' := by
  have hname : d.name = d'.name := by rw [h.head]
  exact List.inj_on_of_nodup_map hdistinct.extensions hd hd' hname

/-- **Reordered documents have the same definitions** when they are sorted on the inside and their extensions are the same. -/
theorem SchemaDocument.Reordered.map_sorted_perm (h : document.Reordered other) (hdistinct : document.Distinct)
    (hx : Schema.extensionsOf other ⊆ Schema.extensionsOf document) :
    (document.map SchemaDefinition.sorted).Perm (other.map SchemaDefinition.sorted) := by
  obtain ⟨middle, hperm, hinside⟩ := h
  have hsame : middle.map SchemaDefinition.sorted = other.map SchemaDefinition.sorted := by
    refine map_eq_of_forall₂ hinside fun a ha b hb hab => ?_
    have ha : a ∈ document := hperm.mem_iff.2 ha
    cases hab with
    | extension h =>
      have hd := Schema.mem_extensionsOf_iff.2 ha
      have hd' := hx (Schema.mem_extensionsOf_iff.2 hb)
      rw [h.eq_of_mem hdistinct hd hd']
    | roots d => rfl
    | type h => exact (SchemaDefinition.Reordered.type h).sorted_eq hdistinct ha rfl
    | directive d => rfl
  rw [← hsame]
  exact hperm.map _

/-- definitions other than extensions are the same in reordered documents when they are sorted on the inside -/
theorem SchemaDocument.Reordered.filter_map_sorted_perm (h : document.Reordered other) (hdistinct : document.Distinct) :
    ((document.map SchemaDefinition.sorted).filter (!isExtension ·)).Perm
      ((other.map SchemaDefinition.sorted).filter (!isExtension ·)) := by
  obtain ⟨middle, hperm, hinside⟩ := h
  have hkept : ∀ l : SchemaDocument, (l.map SchemaDefinition.sorted).filter (!isExtension ·) =
      (l.map fun a => Option.guard (!isExtension ·) a.sorted).filterMap id := by
    intro l
    rw [← List.filterMap_eq_filter, List.filterMap_map, List.filterMap_map]
    rfl
  have hsame : (middle.map fun a => Option.guard (!isExtension ·) a.sorted) =
      other.map fun a => Option.guard (!isExtension ·) a.sorted := by
    refine map_eq_of_forall₂ hinside fun a ha b _ hab => ?_
    have ha : a ∈ document := hperm.mem_iff.2 ha
    cases hab with
    | extension h => rfl
    | roots d => rfl
    | type h => rw [(SchemaDefinition.Reordered.type h).sorted_eq hdistinct ha rfl]
    | directive d => rfl
  rw [hkept other, ← hsame, ← hkept middle]
  exact (hperm.map _).filter _

end Inside

/-! ## Without directives -/

section WithoutDirectives

theorem TypeBody.withoutDirectives_sorted (body : TypeBody) :
    body.sorted.withoutDirectives = body.withoutDirectives.sorted := by
  have hfields : ∀ fields : List FieldDeclaration, sortByName (·.name) (fields.map (·.withoutDirectives)) =
      (sortByName (·.name) fields).map (·.withoutDirectives) := fun fields => sortByName_map (fun _ => rfl) fields
  cases body with
  | object interfaces fields => exact congrArg (TypeBody.object interfaces) (hfields fields).symm
  | interface interfaces fields => exact congrArg (TypeBody.interface interfaces) (hfields fields).symm
  | enum values =>
    have hvalues : sortByName (·.name) (values.map (·.withoutDirectives)) =
      (sortByName (·.name) values).map (·.withoutDirectives) := sortByName_map (fun _ => rfl) values
    exact congrArg TypeBody.enum hvalues.symm
  | inputObject fields =>
    have hinputs : sortByName (·.name) (fields.map (·.withoutDirectives)) =
      (sortByName (·.name) fields).map (·.withoutDirectives) := sortByName_map (fun _ => rfl) fields
    exact congrArg TypeBody.inputObject hinputs.symm
  | _ => rfl

theorem SchemaDefinition.withoutDirectives?_sorted (d : SchemaDefinition) :
    d.sorted.withoutDirectives? = d.withoutDirectives?.map SchemaDefinition.sorted := by
  cases d with
  | type d =>
    have hbody := d.body.withoutDirectives_sorted
    unfold sorted withoutDirectives? TypeDeclaration.withoutDirectives
    dsimp only
    rw [hbody]
    rfl
  | _ => rfl

theorem SchemaDefinition.place_withoutDirectives? {d d' : SchemaDefinition} (h : d.withoutDirectives? = some d') :
    d'.place = d.place := by
  cases d <;> cases h <;> rfl

variable {document other : SchemaDocument}

/-- directives may be left out before or after sorting on the inside -/
theorem SchemaDocument.map_sorted_withoutDirectives (document : SchemaDocument) :
    document.withoutDirectives.map SchemaDefinition.sorted =
      (document.map SchemaDefinition.sorted).filterMap SchemaDefinition.withoutDirectives? := by
  unfold withoutDirectives
  rw [List.map_filterMap, List.filterMap_map]
  exact List.filterMap_congr fun d _ => d.withoutDirectives?_sorted.symm

theorem SchemaDocument.nodup_place_withoutDirectives (h : (document.map SchemaDefinition.place).Nodup) :
    (document.withoutDirectives.map SchemaDefinition.place).Nodup := by
  refine List.pairwise_map.2 (List.pairwise_filterMap.2 ((List.pairwise_map.1 h).imp ?_))
  intro a b hab a' ha b' hb
  rw [SchemaDefinition.place_withoutDirectives? ha, SchemaDefinition.place_withoutDirectives? hb]
  exact hab

end WithoutDirectives

namespace SchemaText

open Schema

variable {document other : SchemaDocument}

/-! ## Texts -/

/-- what is printed of reordered documents with the same extensions is the same -/
theorem apply_eq (hdistinct : document.Distinct) (hreordered : document.Reordered other)
    (hx : extensionsOf other ⊆ extensionsOf document) {options : SchemaTextOptions} (hsort : options.sort = true) :
    options.apply other = options.apply document := by
  have hperm := hreordered.map_sorted_perm hdistinct hx
  unfold SchemaTextOptions.apply
  rw [hsort]
  dsimp only
  rw [if_pos rfl, if_pos rfl]
  split
  · exact (SchemaDocument.sorted_eq_of_perm hperm hdistinct.nodup_place).symm
  · refine (SchemaDocument.sorted_eq_of_perm ?_ (SchemaDocument.nodup_place_withoutDirectives hdistinct.nodup_place)).symm
    rw [SchemaDocument.map_sorted_withoutDirectives, SchemaDocument.map_sorted_withoutDirectives]
    exact hperm.filterMap _

/-- sorted documents are the same only if their extensions are -/
theorem extensionsOf_subset_of_sorted_eq (h : other.sorted = document.sorted) :
    extensionsOf other ⊆ extensionsOf document := by
  intro e he
  have hsorted : e ∈ extensionsOf document.sorted := h ▸ (extensionsOf_sorted_perm other).mem_iff.2 he
  exact (extensionsOf_sorted_perm document).mem_iff.1 hsorted

theorem generate_eq {view : PluginView} {options : SchemaTextOptions}
    (hconfig : SchemaTextOptions.decode view.config = .ok options) (ctx : SharedValues) :
    Plugin.schemaText.generate view ctx =
      (.ok { content := Text.trimEnd (options.apply view.schema.document).print }, ctx) := by
  have hoptions : Config.read pluginName SchemaTextOptions.decode view.config = .ok options :=
    Config.read_eq_ok_iff.2 hconfig
  have houtput : output view = .ok { content := Text.trimEnd (options.apply view.schema.document).print } := by
    unfold output
    rw [hoptions]
    rfl
  exact congrArg (Prod.mk · ctx) houtput

/-- **Sorted texts are canonical but for the inside of extensions.** Let two documents have no two things of one name in a scope, and
differ in the order of their definitions, and in the order inside types and extensions. A sorted document is again one that differs
in this way. The sorted documents of the two have the same definitions in the same order but for extensions, and are the same if
and only if the extensions are the same. In this case the plugin gives the same text for both, with directives or without. -/
theorem sorted_canonical_iff (hdistinct : document.Distinct) (hreordered : document.Reordered other) :
    document.Reordered document.sorted ∧
    other.sorted.filter (!SchemaDocument.isExtension ·) = document.sorted.filter (!SchemaDocument.isExtension ·) ∧
    (other.sorted = document.sorted ↔ extensionsOf other ⊆ extensionsOf document) ∧
    (extensionsOf other ⊆ extensionsOf document →
      ∀ (view view' : PluginView) (options : SchemaTextOptions), view.schema.document = document →
        view'.schema.document = other → SchemaTextOptions.decode view.config = .ok options →
        SchemaTextOptions.decode view'.config = .ok options → options.sort = true →
        ∀ ctx, ∃ contribution, Plugin.schemaText.generate view ctx = (.ok contribution, ctx) ∧
          Plugin.schemaText.generate view' ctx = (.ok contribution, ctx)) := by
  refine ⟨document.reordered_sorted, ?_, ⟨extensionsOf_subset_of_sorted_eq, fun hx => ?_⟩, ?_⟩
  · have hperm := hreordered.filter_map_sorted_perm hdistinct
    exact (SchemaDocument.filter_sorted_eq_of_perm hperm hdistinct.nodup_place).symm
  · have hperm := hreordered.map_sorted_perm hdistinct hx
    exact (SchemaDocument.sorted_eq_of_perm hperm hdistinct.nodup_place).symm
  · intro hx view view' options hdocument hother hconfig hconfig' hsort ctx
    refine ⟨_, generate_eq hconfig ctx, ?_⟩
    rw [generate_eq hconfig' ctx, hdocument, hother, apply_eq hdistinct hreordered hx hsort]

/-- a type with its fields by name, and an extension with fields in any order -/
def userSchema (added : List FieldDeclaration) : SchemaDocument :=
  [.type ⟨none, "User", [], .object [] [plainField "id" "ID", plainField "name" "String"]⟩,
    .extension ⟨none, "User", [], .object [] added⟩]

/-- the same definitions in the opposite order, and the fields of the type, too -/
def mixedSchema (added : List FieldDeclaration) : SchemaDocument :=
  [.extension ⟨none, "User", [], .object [] added⟩,
    .type ⟨none, "User", [], .object [] [plainField "name" "String", plainField "id" "ID"]⟩]

/-- what the plugin sees of a document when sorting is configured -/
def sortedView (document : SchemaDocument) : PluginView :=
  ⟨{ (default : Schema) with document }, [], default, .obj [("sort", .bool true)], "schema.graphql", []⟩

/-- a role and a mail address -/
def roleFields : List FieldDeclaration := [plainField "role" "String", plainField "mail" "String"]

theorem sorted_userSchema (added : List FieldDeclaration) : (userSchema added).sorted = userSchema added := by
  simp +decide [userSchema, SchemaDocument.sorted, SchemaDefinition.sorted, TypeBody.sorted, sortByName, List.mergeSort,
    SchemaDefinition.before, SchemaDefinition.group, SchemaDefinition.sortName]

theorem sorted_mixedSchema (added : List FieldDeclaration) : (mixedSchema added).sorted = userSchema added := by
  simp +decide [userSchema, mixedSchema, SchemaDocument.sorted, SchemaDefinition.sorted, TypeBody.sorted, sortByName,
    List.mergeSort, SchemaDefinition.before, SchemaDefinition.group, SchemaDefinition.sortName]

theorem distinct_userSchema : (userSchema roleFields).Distinct := by
  refine ⟨by decide, by decide, by decide, by decide, ?_⟩
  have hinside : ∀ body ∈ (userSchema roleFields).typeDeclarations.map (·.body), (body.fields.map (·.name)).Nodup ∧
      (body.inputFields.map (·.name)).Nodup ∧ (body.enumValues.map (·.name)).Nodup := by decide
  intro d hd
  obtain ⟨hfields, hinputs, hvalues⟩ := hinside d.body (List.mem_map_of_mem hd)
  exact ⟨hfields, hinputs, hvalues⟩

theorem reordered_mixedSchema {added others : List FieldDeclaration} (h : added.Perm others) :
    (userSchema added).Reordered (mixedSchema others) := by
  refine ⟨(userSchema added).reverse, (List.reverse_perm _).symm, .cons ?_ (.cons ?_ .nil)⟩
  · exact .extension ⟨rfl, .object [] h⟩
  · exact .type ⟨rfl, .object [] (.swap _ _ [])⟩

theorem sorted_canonical_iff_user :
    (userSchema roleFields).Distinct ∧ (userSchema roleFields).Reordered (mixedSchema roleFields) ∧
    ∃ contribution : Contribution,
      Plugin.schemaText.generate (sortedView (userSchema roleFields)) .empty = (.ok contribution, .empty) ∧
      Plugin.schemaText.generate (sortedView (mixedSchema roleFields)) .empty = (.ok contribution, .empty) := by
  have hreordered := reordered_mixedSchema (List.Perm.refl roleFields)
  obtain ⟨-, -, -, htexts⟩ := sorted_canonical_iff distinct_userSchema hreordered
  exact ⟨distinct_userSchema, hreordered,
    htexts (List.Subset.refl _) (sortedView _) (sortedView _) ⟨true, true⟩ rfl rfl rfl rfl rfl .empty⟩

/-- **The fields of an extension are not sorted:** the texts of two documents that differ in the order only are different. -/
theorem extension_order_kept :
    (userSchema roleFields).Distinct ∧ (userSchema roleFields).Reordered (mixedSchema roleFields.reverse) ∧
    ∃ contribution contribution' : Contribution,
      Plugin.schemaText.generate (sortedView (userSchema roleFields)) .empty = (.ok contribution, .empty) ∧
      Plugin.schemaText.generate (sortedView (mixedSchema roleFields.reverse)) .empty = (.ok contribution', .empty) ∧
      contribution.content ≠ contribution'.content := by
  have hconfig : ∀ document, SchemaTextOptions.decode (sortedView document).config = .ok ⟨true, true⟩ := fun _ => rfl
  refine ⟨distinct_userSchema, reordered_mixedSchema (List.reverse_perm _).symm, _, _, generate_eq (hconfig _) _,
    generate_eq (hconfig _) _, ?_⟩
  have hleft : (SchemaTextOptions.mk true true).apply (sortedView (userSchema roleFields)).schema.document =
      userSchema roleFields := sorted_userSchema _
  have hright : (SchemaTextOptions.mk true true).apply (sortedView (mixedSchema roleFields.reverse)).schema.document =
      userSchema roleFields.reverse := sorted_mixedSchema _
  rw [hleft, hright]
  decide +kernel

end SchemaText

end GraphGen
