/-
A schema document without directives.

Directives stand on schema definitions, on types and extensions, on their fields, input fields and values, and on the arguments of
fields. `SchemaDefinition.applied` has all that stand in a definition, and a document is `Bare` when it has none and defines none.
What may differ when only directives do is said level by level, by a `SameButDirectives` for each: a change of anything else, of
a name, a type, a default, a description or an order, is not of this kind.

- `eq_withoutDirectives_iff`, at every level: what is left is the only thing that has no directives and is the same but for them.

Main result:
- `withoutDirectives_exact`: directives go and all else stays; leaving them out again changes nothing, and it makes no difference
  whether a document is sorted before or after.
-/
import GraphGen.Proofs.Targets.SchemaText

namespace GraphGen

/-! ## Directives in a definition -/

/-- the directives applied to a field and to its arguments -/
def FieldDeclaration.applied (d : FieldDeclaration) : List Directive :=
  d.directives ++ d.arguments.flatMap (·.directives)

/-- the directives applied in the body of a type -/
def TypeBody.applied : TypeBody → List Directive
  | scalar => []
  | object _ fields => fields.flatMap (·.applied)
  | interface _ fields => fields.flatMap (·.applied)
  | union _ => []
  | enum values => values.flatMap (·.directives)
  | inputObject fields => fields.flatMap (·.directives)

/-- the directives applied to a type and in it -/
def TypeDeclaration.applied (d : TypeDeclaration) : List Directive :=
  d.directives ++ d.body.applied

/-- the directives applied anywhere in a definition -/
def SchemaDefinition.applied : SchemaDefinition → List Directive
  | roots d => d.directives
  | type d => d.applied
  | extension d => d.applied
  | directive d => d.arguments.flatMap (·.directives)

/-- whether a definition is one of a directive -/
def SchemaDefinition.isDirective : SchemaDefinition → Bool
  | directive _ => true
  | _ => false

/-- the document defines no directives and applies none -/
def SchemaDocument.Bare (document : SchemaDocument) : Prop :=
  ∀ d ∈ document, d.isDirective = false ∧ d.applied = []

/-! ## The same but for directives -/

/-- the arguments or input fields differ in their directives only -/
def InputValueDeclaration.SameButDirectives (d other : InputValueDeclaration) : Prop :=
  other = { d with directives := other.directives }

/-- the enum values differ in their directives only -/
def EnumValueDeclaration.SameButDirectives (d other : EnumValueDeclaration) : Prop :=
  other = { d with directives := other.directives }

/-- the fields differ in directives only, their own and those of their arguments -/
structure FieldDeclaration.SameButDirectives (d other : FieldDeclaration) : Prop where
  head : other = { d with arguments := other.arguments, directives := other.directives }
  arguments : List.Forall₂ InputValueDeclaration.SameButDirectives d.arguments other.arguments

/-- the bodies differ in the directives in them only -/
inductive TypeBody.SameButDirectives : TypeBody → TypeBody → Prop where
  | scalar : SameButDirectives .scalar .scalar
  | object (interfaces : List String) {fields others : List FieldDeclaration}
    (h : List.Forall₂ FieldDeclaration.SameButDirectives fields others) :
    SameButDirectives (.object interfaces fields) (.object interfaces others)
  | interface (interfaces : List String) {fields others : List FieldDeclaration}
    (h : List.Forall₂ FieldDeclaration.SameButDirectives fields others) :
    SameButDirectives (.interface interfaces fields) (.interface interfaces others)
  | union (members : List String) : SameButDirectives (.union members) (.union members)
  | enum {values others : List EnumValueDeclaration}
    (h : List.Forall₂ EnumValueDeclaration.SameButDirectives values others) :
    SameButDirectives (.enum values) (.enum others)
  | inputObject {fields others : List InputValueDeclaration}
    (h : List.Forall₂ InputValueDeclaration.SameButDirectives fields others) :
    SameButDirectives (.inputObject fields) (.inputObject others)

/-- the types differ in directives only, their own and those in them -/
structure TypeDeclaration.SameButDirectives (d other : TypeDeclaration) : Prop where
  head : other = { d with directives := other.directives, body := other.body }
  body : d.body.SameButDirectives other.body

/-- the definitions are of one sort, not of directives, and differ in directives only -/
inductive SchemaDefinition.SameButDirectives : SchemaDefinition → SchemaDefinition → Prop where
  | roots (d : RootDeclaration) (directives : List Directive) : SameButDirectives (.roots d) (.roots { d with directives })
  | type {d other : TypeDeclaration} (h : d.SameButDirectives other) : SameButDirectives (.type d) (.type other)
  | extension {d other : TypeDeclaration} (h : d.SameButDirectives other) : SameButDirectives (.extension d) (.extension other)

/-! ## What is left -/

/-- what is determined for every element is determined for the list -/
theorem eq_map_iff_forall₂ {α β : Type} {R : α → β → Prop} {bare : β → Prop} {f : α → β}
    (h : ∀ a b, b = f a ↔ R a b ∧ bare b) {l : List α} {l' : List β} :
    l' = l.map f ↔ List.Forall₂ R l l' ∧ ∀ b ∈ l', bare b := by
  constructor
  · rintro rfl
    refine ⟨List.forall₂_map_right_iff.2 (List.forall₂_same.2 fun a _ => ((h a _).1 rfl).1), fun b hb => ?_⟩
    obtain ⟨a, -, rfl⟩ := List.mem_map.1 hb
    exact ((h a _).1 rfl).2
  · rintro ⟨hsame, hbare⟩
    induction hsame with
    | nil => rfl
    | cons hab _ ih =>
      obtain ⟨hb, hrest⟩ := List.forall_mem_cons.1 hbare
      rw [List.map_cons, ← (h _ _).2 ⟨hab, hb⟩, ih hrest]

theorem InputValueDeclaration.eq_withoutDirectives_iff (d other : InputValueDeclaration) :
    other = d.withoutDirectives ↔ d.SameButDirectives other ∧ other.directives = [] := by
  constructor
  · rintro rfl
    exact ⟨rfl, rfl⟩
  · rintro ⟨hsame, hbare⟩
    rw [hsame, hbare]
    rfl

theorem EnumValueDeclaration.eq_withoutDirectives_iff (d other : EnumValueDeclaration) :
    other = d.withoutDirectives ↔ d.SameButDirectives other ∧ other.directives = [] := by
  constructor
  · rintro rfl
    exact ⟨rfl, rfl⟩
  · rintro ⟨hsame, hbare⟩
    rw [hsame, hbare]
    rfl

theorem FieldDeclaration.eq_withoutDirectives_iff (d other : FieldDeclaration) :
    other = d.withoutDirectives ↔ d.SameButDirectives other ∧ other.applied = [] := by
  have harguments : other.arguments = d.arguments.map (·.withoutDirectives) ↔ _ :=
    eq_map_iff_forall₂ InputValueDeclaration.eq_withoutDirectives_iff
  unfold applied
  rw [List.append_eq_nil_iff, List.flatMap_eq_nil_iff]
  constructor
  · rintro rfl
    obtain ⟨hsame, hbare⟩ := harguments.1 rfl
    exact ⟨⟨rfl, hsame⟩, rfl, hbare⟩
  · rintro ⟨⟨hhead, hsame⟩, hnone, hbare⟩
    rw [hhead, hnone, harguments.2 ⟨hsame, hbare⟩]
    rfl

theorem TypeBody.eq_withoutDirectives_iff (body other : TypeBody) :
    other = body.withoutDirectives ↔ body.SameButDirectives other ∧ other.applied = [] := by
  have hfields : ∀ fields others : List FieldDeclaration, others = fields.map (·.withoutDirectives) ↔ _ :=
    fun _ _ => eq_map_iff_forall₂ FieldDeclaration.eq_withoutDirectives_iff
  have hvalues : ∀ values others : List EnumValueDeclaration, others = values.map (·.withoutDirectives) ↔ _ :=
    fun _ _ => eq_map_iff_forall₂ EnumValueDeclaration.eq_withoutDirectives_iff
  have hinputs : ∀ fields others : List InputValueDeclaration, others = fields.map (·.withoutDirectives) ↔ _ :=
    fun _ _ => eq_map_iff_forall₂ InputValueDeclaration.eq_withoutDirectives_iff
  constructor
  · rintro rfl
    cases body with
    | scalar => exact ⟨.scalar, rfl⟩
    | object interfaces fields =>
      obtain ⟨hsame, hbare⟩ := (hfields fields _).1 rfl
      exact ⟨.object interfaces hsame, List.flatMap_eq_nil_iff.2 hbare⟩
    | interface interfaces fields =>
      obtain ⟨hsame, hbare⟩ := (hfields fields _).1 rfl
      exact ⟨.interface interfaces hsame, List.flatMap_eq_nil_iff.2 hbare⟩
    | union members => exact ⟨.union members, rfl⟩
    | enum values =>
      obtain ⟨hsame, hbare⟩ := (hvalues values _).1 rfl
      exact ⟨.enum hsame, List.flatMap_eq_nil_iff.2 hbare⟩
    | inputObject fields =>
      obtain ⟨hsame, hbare⟩ := (hinputs fields _).1 rfl
      exact ⟨.inputObject hsame, List.flatMap_eq_nil_iff.2 hbare⟩
  · rintro ⟨hsame, hbare⟩
    cases hsame with
    | scalar => rfl
    | object interfaces h =>
      exact congrArg (TypeBody.object interfaces) ((hfields _ _).2 ⟨h, List.flatMap_eq_nil_iff.1 hbare⟩)
    | interface interfaces h =>
      exact congrArg (TypeBody.interface interfaces) ((hfields _ _).2 ⟨h, List.flatMap_eq_nil_iff.1 hbare⟩)
    | union members => rfl
    | enum h => exact congrArg TypeBody.enum ((hvalues _ _).2 ⟨h, List.flatMap_eq_nil_iff.1 hbare⟩)
    | inputObject h => exact congrArg TypeBody.inputObject ((hinputs _ _).2 ⟨h, List.flatMap_eq_nil_iff.1 hbare⟩)

theorem TypeDeclaration.eq_withoutDirectives_iff (d other : TypeDeclaration) :
    other = d.withoutDirectives ↔ d.SameButDirectives other ∧ other.applied = [] := by
  unfold applied
  rw [List.append_eq_nil_iff]
  constructor
  · rintro rfl
    obtain ⟨hsame, hbare⟩ := (TypeBody.eq_withoutDirectives_iff d.body _).1 rfl
    exact ⟨⟨rfl, hsame⟩, rfl, hbare⟩
  · rintro ⟨⟨hhead, hsame⟩, hnone, hbare⟩
    rw [hhead, hnone, (TypeBody.eq_withoutDirectives_iff d.body _).2 ⟨hsame, hbare⟩]
    rfl

/-- **A definition without directives** is the only one without them that is the same but for them. -/
theorem SchemaDefinition.withoutDirectives?_eq_some_iff {d other : SchemaDefinition} :
    d.withoutDirectives? = some other ↔ d.SameButDirectives other ∧ other.applied = [] := by
  constructor
  · intro h
    cases d with
    | roots d =>
      cases h
      exact ⟨.roots d [], rfl⟩
    | type d =>
      cases h
      obtain ⟨hsame, hbare⟩ := (TypeDeclaration.eq_withoutDirectives_iff d _).1 rfl
      exact ⟨.type hsame, hbare⟩
    | extension d =>
      cases h
      obtain ⟨hsame, hbare⟩ := (TypeDeclaration.eq_withoutDirectives_iff d _).1 rfl
      exact ⟨.extension hsame, hbare⟩
    | directive d => cases h
  · rintro ⟨hsame, hbare⟩
    cases hsame with
    | roots d directives =>
      cases (show directives = [] from hbare)
      rfl
    | type h => exact congrArg (some <| SchemaDefinition.type ·) ((TypeDeclaration.eq_withoutDirectives_iff _ _).2 ⟨h, hbare⟩).symm
    | extension h =>
      exact congrArg (some <| SchemaDefinition.extension ·) ((TypeDeclaration.eq_withoutDirectives_iff _ _).2 ⟨h, hbare⟩).symm

/-! ## Documents -/

theorem SchemaDefinition.SameButDirectives.not_directive {d other : SchemaDefinition} (h : d.SameButDirectives other) :
    d.isDirective = false ∧ other.isDirective = false := by
  cases h <;> exact ⟨rfl, rfl⟩

theorem TypeBody.SameButDirectives.refl (body : TypeBody) : body.SameButDirectives body := by
  have hfields : ∀ fields : List FieldDeclaration, List.Forall₂ FieldDeclaration.SameButDirectives fields fields :=
    fun _ => List.forall₂_same.2 fun _ _ => ⟨rfl, List.forall₂_same.2 fun _ _ => rfl⟩
  cases body with
  | scalar => exact .scalar
  | object interfaces fields => exact .object interfaces (hfields fields)
  | interface interfaces fields => exact .interface interfaces (hfields fields)
  | union members => exact .union members
  | enum values => exact .enum (List.forall₂_same.2 fun _ _ => rfl)
  | inputObject fields => exact .inputObject (List.forall₂_same.2 fun _ _ => rfl)

theorem SchemaDefinition.SameButDirectives.refl {d : SchemaDefinition} (h : d.isDirective = false) :
    d.SameButDirectives d := by
  cases d with
  | roots d => exact .roots d d.directives
  | type d => exact .type ⟨rfl, .refl d.body⟩
  | extension d => exact .extension ⟨rfl, .refl d.body⟩
  | directive d => cases h

namespace SchemaDocument

variable {document other : SchemaDocument}

theorem isDirective_of_none {d : SchemaDefinition} (h : d.withoutDirectives? = none) : d.isDirective = true := by
  cases d <;> cases h
  rfl

/-- **A document without directives** is the only one without them that is the same as the rest of it but for them. -/
theorem eq_withoutDirectives_iff :
    other = document.withoutDirectives ↔
      List.Forall₂ SchemaDefinition.SameButDirectives (document.filter (!·.isDirective)) other ∧ other.Bare := by
  induction document generalizing other with
  | nil =>
    rw [List.filter_nil, List.forall₂_nil_left_iff]
    exact ⟨fun h => ⟨h, h ▸ List.forall_mem_nil _⟩, fun h => h.1⟩
  | cons d rest ih =>
    unfold withoutDirectives at ih ⊢
    cases hd : d.withoutDirectives? with
    | none =>
      rw [List.filterMap_cons_none hd, List.filter_cons_of_neg (by simp [isDirective_of_none hd])]
      exact ih
    | some left =>
      obtain ⟨hsame, hbare⟩ := SchemaDefinition.withoutDirectives?_eq_some_iff.1 hd
      obtain ⟨hkept, hnone⟩ := hsame.not_directive
      rw [List.filterMap_cons_some hd, List.filter_cons_of_pos (by simp [hkept]), List.forall₂_cons_left_iff]
      constructor
      · rintro rfl
        obtain ⟨hrest, hbares⟩ := ih.1 rfl
        exact ⟨⟨left, _, hsame, hrest, rfl⟩, List.forall_mem_cons.2 ⟨⟨hnone, hbare⟩, hbares⟩⟩
      · rintro ⟨⟨first, more, hfirst, hmore, rfl⟩, hbares⟩
        obtain ⟨⟨-, hfirstBare⟩, hmoreBare⟩ := List.forall_mem_cons.1 hbares
        have hleft := SchemaDefinition.withoutDirectives?_eq_some_iff.2 ⟨hfirst, hfirstBare⟩
        cases hd.symm.trans hleft
        rw [ih.2 ⟨hmore, hmoreBare⟩]

/-- a document without directives stays as it is -/
theorem Bare.withoutDirectives_eq (h : document.Bare) : document.withoutDirectives = document := by
  have hkept : document.filter (!·.isDirective) = document :=
    List.filter_eq_self.2 fun d hd => by simp [(h d hd).1]
  refine (eq_withoutDirectives_iff.2 ⟨?_, h⟩).symm
  rw [hkept]
  exact List.forall₂_same.2 fun d hd => .refl (h d hd).1

/-- **Directives go and all else stays.** Of every document all definitions are left, in order, but those of directives, and they
differ in directives only, of which none is left. Leaving directives out again changes nothing, and documents may be sorted before
or after it. -/
theorem withoutDirectives_exact (document : SchemaDocument) :
    document.withoutDirectives.Bare ∧
    List.Forall₂ SchemaDefinition.SameButDirectives (document.filter (!·.isDirective)) document.withoutDirectives ∧
    document.withoutDirectives.withoutDirectives = document.withoutDirectives ∧
    document.withoutDirectives.sorted = document.sorted.withoutDirectives := by
  obtain ⟨hsame, hbare⟩ := eq_withoutDirectives_iff.1 (Eq.refl document.withoutDirectives)
  refine ⟨hbare, hsame, hbare.withoutDirectives_eq, ?_⟩
  calc document.withoutDirectives.sorted
      = (document.withoutDirectives.map SchemaDefinition.sorted).mergeSort SchemaDefinition.before := sorted_eq _
    _ = ((document.map SchemaDefinition.sorted).filterMap SchemaDefinition.withoutDirectives?).mergeSort
          SchemaDefinition.before := by rw [map_sorted_withoutDirectives]
    _ = ((document.map SchemaDefinition.sorted).mergeSort SchemaDefinition.before).filterMap
          SchemaDefinition.withoutDirectives? :=
        mergeSort_filterMap (fun _ _ => SchemaDefinition.place_withoutDirectives?) _
    _ = document.sorted.withoutDirectives := by rw [← sorted_eq, withoutDirectives]

end SchemaDocument

end GraphGen
