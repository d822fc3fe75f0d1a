/-
Shapes as terms.

What picks write is text of a dialect. A `TypeTerm` is the same type before it is written, with its references to schema types
as such: picks of fields, look-ups of a field, and names; nothing in it depends on the dialect. `Target.shapeTerm` gives the
term of a shape, and writing it gives what the shape is written as (`write_shapeTerm`), in every dialect.

- `TypeTerm.Refers`: the type and field names of picks and look-ups, at any depth.
- `takesFrom_of_refers`: a reference of a shape's term is to a field without selections of a shape in it.
- `hasField_of_leaf`: resolving takes such fields from the type of the shape.

Main result:
- `hasField_of_refers`: whatever selections refer to is a field of the type that it is taken from.
-/
import GraphGen.Proofs.Schema.Accepted
import GraphGen.Proofs.Shape.Keys
import GraphGen.Shape.Render
import GraphGen.Targets.Declaration

namespace GraphGen

/-! ## Terms -/

mutual

/-- a type that refers to schema types -/
inductive TypeTerm where
  /-- several strings as alternatives -/
  | literals (texts : List String)
  /-- a type by the name it is declared under -/
  | named (name : String)
  /-- a scalar, as a property of the type of all scalars -/
  | scalar (name : String)
  /-- some fields of a type -/
  | pick (type : String) (names : List String)
  /-- the type of one field of a type -/
  | lookup (type name : String)
  | wrapped (wrapping : Wrapping) (term : TypeTerm)
  | object (members : List TermMember)
  /-- a type with the properties of all parts -/
  | all (parts : List TypeTerm)
  /-- a type of which one of the parts holds -/
  | any (parts : List TypeTerm)

/-- a property of an object type -/
inductive TermMember where
  | mk (key : String) (term : TypeTerm) (optional : Bool)

end

namespace TypeTerm

mutual

/-- the type in a dialect -/
def write (dialect : Dialect) : TypeTerm → String
  | .literals texts => String.intercalate " | " (texts.map dialect.stringLiteral)
  | .named name => name
  | .scalar name => dialect.propertyType SchemaScope.scalarsName name
  | .pick type names => dialect.pick type names
  | .lookup type name => dialect.propertyType type name
  | .wrapped wrapping term => wrapping.wrap (write dialect term) dialect.encoder
  | .object members => dialect.object (writeMembers dialect members)
  | .all parts => dialect.intersection (writeParts dialect parts)
  | .any parts => dialect.union (writeParts dialect parts)

/-- several types in a dialect -/
def writeParts (dialect : Dialect) : List TypeTerm → List String
  | [] => []
  | part :: rest => write dialect part :: writeParts dialect rest

/-- the properties of an object type in a dialect -/
def writeMembers (dialect : Dialect) : List TermMember → List ObjectMember
  | [] => []
  | .mk key term optional :: rest => ⟨key, write dialect term, optional⟩ :: writeMembers dialect rest

end

/-- the term picks the field from the type or looks it up there, at any depth; scalars aside -/
inductive Refers (type name : String) : TypeTerm → Prop where
  | pick {names : List String} (hn : name ∈ names) : Refers type name (.pick type names)
  | lookup : Refers type name (.lookup type name)
  | wrapped {wrapping : Wrapping} {term : TypeTerm} (h : Refers type name term) : Refers type name (.wrapped wrapping term)
  | object {members : List TermMember} {key : String} {term : TypeTerm} {optional : Bool}
      (hm : .mk key term optional ∈ members) (h : Refers type name term) : Refers type name (.object members)
  | all {parts : List TypeTerm} {part : TypeTerm} (hm : part ∈ parts) (h : Refers type name part) :
      Refers type name (.all parts)
  | any {parts : List TypeTerm} {part : TypeTerm} (hm : part ∈ parts) (h : Refers type name part) :
      Refers type name (.any parts)

end TypeTerm

/-- the property in a dialect -/
def TermMember.write (dialect : Dialect) : TermMember → ObjectMember
  | .mk key term optional => ⟨key, term.write dialect, optional⟩

namespace TypeTerm

variable (dialect : Dialect)

theorem writeParts_eq_map (parts : List TypeTerm) : writeParts dialect parts = parts.map (write dialect) := by
  induction parts with
  | nil => rw [writeParts, List.map_nil]
  | cons part rest ih => rw [writeParts, ih, List.map_cons]

theorem writeMembers_eq_map (members : List TermMember) :
    writeMembers dialect members = members.map (TermMember.write dialect) := by
  induction members with
  | nil => rw [writeMembers, List.map_nil]
  | cons member rest ih =>
    cases member
    rw [writeMembers, ih, List.map_cons, TermMember.write]

end TypeTerm

/-! ## The terms of shapes -/

namespace ShapeField

/-- the type name of a shape as a property -/
def typenameTerm? : ShapeField → Option TermMember
  | .typename key names optional => some (.mk key (.literals names) optional)
  | _ => none

/-- the name of a field without selections under its own name -/
def pickedName? : ShapeField → Option String
  | .leaf key field => if key = field.name then some field.name else none
  | _ => none

/-- a field without selections under another name -/
def renamedTerm? (target : Target) (typeName : String) : ShapeField → Option TermMember
  | .leaf key field =>
    if key = field.name then none else some (.mk key (.lookup typeName field.name) (target.isOptional field.type))
  | _ => none

end ShapeField

namespace Target

/-- an object type unless there are no properties -/
def objectTerm (members : List TermMember) : List TypeTerm :=
  if members.isEmpty then [] else [.object members]

/-- some fields of a type unless there are none -/
def pickTerm (type : String) (names : List String) : List TypeTerm :=
  if names.isEmpty then [] else [.pick type names]

mutual

/-- the term of a shape as references into the schema types -/
def shapeTerm (target : Target) : TypeShape → TypeTerm
  | .mk type fields =>
    .all (objectTerm (fields.filterMap ShapeField.typenameTerm?)
      ++ pickTerm (target.typeName type) (fields.filterMap ShapeField.pickedName?)
      ++ objectTerm (fields.filterMap (ShapeField.renamedTerm? target (target.typeName type)))
      ++ objectTerm (linkTerms target fields))

/-- the terms of shapes -/
def shapeTerms (target : Target) : List TypeShape → List TypeTerm
  | [] => []
  | shape :: rest => shapeTerm target shape :: shapeTerms target rest

/-- the fields with selections as properties -/
def linkTerms (target : Target) : List ShapeField → List TermMember
  | [] => []
  | .link key field shapes :: rest =>
    .mk key (.wrapped field.type.wrapping (.any (shapeTerms target shapes))) (target.isOptional field.type)
      :: linkTerms target rest
  | .typename _ _ _ :: rest => linkTerms target rest
  | .leaf _ _ :: rest => linkTerms target rest

end

/-- the term of the shapes of a selection set -/
def unionTerm (target : Target) (shapes : List TypeShape) : TypeTerm :=
  .any (target.shapeTerms shapes)

/-! ## Writing them -/

variable (target : Target)

theorem write_objectTerm (members : List TermMember) :
    (objectTerm members).map (TypeTerm.write target.dialect) =
      (objectPart (members.map (TermMember.write target.dialect))).map (ShapePart.write target.dialect) := by
  cases members with
  | nil => rfl
  | cons member rest =>
    show [TypeTerm.write target.dialect (.object (member :: rest))] = _
    rw [TypeTerm.write, TypeTerm.writeMembers_eq_map]
    rfl

theorem write_pickTerm (type : String) (names : List String) :
    (pickTerm type names).map (TypeTerm.write target.dialect) =
      (pickPart type names).map (ShapePart.write target.dialect) := by
  cases names with
  | nil => rfl
  | cons name rest =>
    show [TypeTerm.write target.dialect (.pick type (name :: rest))] = _
    rw [TypeTerm.write]
    rfl

/-- the properties that some of the fields become are those that their flat fields become -/
theorem write_filterMap (fields : List ShapeField) (term? : ShapeField → Option TermMember)
    (flat? : FlatField → Option ObjectMember)
    (h : ∀ field ∈ fields, (term? field).map (TermMember.write target.dialect) = flat? (target.flattenField .pick field)) :
    (fields.filterMap term?).map (TermMember.write target.dialect) =
      (target.flattenFields .pick fields).filterMap flat? := by
  rw [List.map_filterMap, flattenFields_eq_map, List.filterMap_map]
  exact List.filterMap_congr h

theorem write_typenameTerms (fields : List ShapeField) :
    (fields.filterMap ShapeField.typenameTerm?).map (TermMember.write target.dialect) =
      (target.flattenFields .pick fields).filterMap typenameField? :=
  write_filterMap target fields _ _ fun field _ => by
    cases field <;>
      simp [flattenField, ShapeField.typenameTerm?, typenameField?, TermMember.write, TypeTerm.write, literals]

theorem write_renamedTerms (type : String) (fields : List ShapeField) :
    (fields.filterMap (ShapeField.renamedTerm? target type)).map (TermMember.write target.dialect) =
      (target.flattenFields .pick fields).filterMap (target.renamedField? type) := by
  refine write_filterMap target fields _ _ fun field _ => ?_
  cases field with
  | leaf key field =>
    by_cases hk : key = field.name <;>
      simp [flattenField, ShapeField.renamedTerm?, renamedField?, TermMember.write, TypeTerm.write, hk]
  | typename => simp [flattenField, ShapeField.renamedTerm?, renamedField?]
  | link => simp [flattenField, ShapeField.renamedTerm?, renamedField?]

theorem filterMap_pickedName? (fields : List ShapeField) :
    (target.flattenFields .pick fields).filterMap pickedName? = fields.filterMap ShapeField.pickedName? := by
  rw [flattenFields_eq_map, List.filterMap_map]
  refine List.filterMap_congr fun field _ => ?_
  cases field <;> simp [flattenField, ShapeField.pickedName?, pickedName?]

mutual

/-- **Writing the term of a shape** gives what the shape is written as. -/
theorem write_shapeTerm : (shape : TypeShape) →
    (target.shapeTerm shape).write target.dialect = target.renderFlat .pick (target.flatten .pick shape)
  | .mk type fields => by
    rw [shapeTerm, TypeTerm.write, TypeTerm.writeParts_eq_map, List.map_append, List.map_append, List.map_append,
      write_objectTerm, write_pickTerm, write_objectTerm, write_objectTerm, write_typenameTerms, write_renamedTerms,
      write_linkTerms fields, ← filterMap_pickedName? target, ← List.map_append, ← List.map_append, ← List.map_append]
    rw [flatten, renderFlat, pickParts]

theorem write_shapeTerms : (shapes : List TypeShape) →
    TypeTerm.writeParts target.dialect (target.shapeTerms shapes) = target.renderShapes .pick shapes
  | [] => by rw [shapeTerms, TypeTerm.writeParts, renderShapes]
  | shape :: rest => by rw [shapeTerms, TypeTerm.writeParts, renderShapes, write_shapeTerm shape, write_shapeTerms rest]

theorem write_linkTerms : (fields : List ShapeField) →
    (target.linkTerms fields).map (TermMember.write target.dialect) =
      (target.flattenFields .pick fields).filterMap target.linkField?
  | [] => by rw [linkTerms, flattenFields, List.map_nil, List.filterMap_nil]
  | .typename _ _ _ :: rest => by
    rw [linkTerms, flattenFields, flattenField, List.filterMap_cons, write_linkTerms rest]
    rfl
  | .leaf _ _ :: rest => by
    rw [linkTerms, flattenFields, flattenField, List.filterMap_cons, write_linkTerms rest]
    rfl
  | .link key field shapes :: rest => by
    rw [linkTerms, flattenFields, flattenField, List.filterMap_cons, List.map_cons, write_linkTerms rest]
    rw [TermMember.write, TypeTerm.write, TypeTerm.write, write_shapeTerms shapes]
    rfl

end

/-- writing the term of the shapes of a selection set gives what they are written as -/
theorem write_unionTerm (shapes : List TypeShape) :
    (target.unionTerm shapes).write target.dialect = target.renderUnion .pick shapes := by
  rw [unionTerm, TypeTerm.write, write_shapeTerms, renderUnion]

/-! ## What they refer to -/

/-- somewhere in the shape a field without selections is taken from the type -/
def TakesFrom (target : Target) (shape : TypeShape) (type name : String) : Prop :=
  ∃ inner : TypeShape, inner.Within shape ∧ ∃ (key : String) (field : Field), .leaf key field ∈ inner.fields ∧
    type = target.typeName inner.type ∧ name = field.name

variable {target} {type name : String}

theorem refers_of_mem_objectTerm {members : List TermMember} {part : TypeTerm} (hm : part ∈ objectTerm members)
    (h : part.Refers type name) : ∃ key term optional, .mk key term optional ∈ members ∧ term.Refers type name := by
  unfold objectTerm at hm
  split at hm
  · cases hm
  · rw [List.mem_singleton.1 hm] at h
    cases h with
    | object hm h => exact ⟨_, _, _, hm, h⟩

theorem not_refers_typenameTerm {fields : List ShapeField} {part : TypeTerm}
    (hm : part ∈ objectTerm (fields.filterMap ShapeField.typenameTerm?)) : ¬ part.Refers type name := by
  intro h
  obtain ⟨key, term, optional, hmember, h⟩ := refers_of_mem_objectTerm hm h
  obtain ⟨field, -, hterm⟩ := List.mem_filterMap.1 hmember
  cases field with
  | typename =>
    cases hterm
    cases h
  | leaf => cases hterm
  | link => cases hterm

theorem leaf_of_pickTerm {fields : List ShapeField} {owner : String} {part : TypeTerm}
    (hm : part ∈ pickTerm owner (fields.filterMap ShapeField.pickedName?)) (h : part.Refers type name) :
    type = owner ∧ ∃ (key : String) (field : Field), .leaf key field ∈ fields ∧ name = field.name := by
  unfold pickTerm at hm
  split at hm
  · cases hm
  · rw [List.mem_singleton.1 hm] at h
    cases h with
    | pick hn =>
      obtain ⟨field, hf, hpicked⟩ := List.mem_filterMap.1 hn
      cases field with
      | leaf key field =>
        dsimp only [ShapeField.pickedName?] at hpicked
        split at hpicked
        · cases hpicked
          exact ⟨rfl, key, field, hf, rfl⟩
        · cases hpicked
      | typename => cases hpicked
      | link => cases hpicked

theorem leaf_of_renamedTerm {fields : List ShapeField} {owner : String} {part : TypeTerm}
    (hm : part ∈ objectTerm (fields.filterMap (ShapeField.renamedTerm? target owner))) (h : part.Refers type name) :
    type = owner ∧ ∃ (key : String) (field : Field), .leaf key field ∈ fields ∧ name = field.name := by
  obtain ⟨key, term, optional, hmember, h⟩ := refers_of_mem_objectTerm hm h
  obtain ⟨field, hf, hterm⟩ := List.mem_filterMap.1 hmember
  cases field with
  | leaf key field =>
    dsimp only [ShapeField.renamedTerm?] at hterm
    split at hterm
    · cases hterm
    · cases hterm
      cases h
      exact ⟨rfl, key, field, hf, rfl⟩
  | typename => cases hterm
  | link => cases hterm

mutual

/-- **The references of a shape's term** are to fields without selections of shapes in it. -/
theorem takesFrom_of_refers : (shape : TypeShape) → (target.shapeTerm shape).Refers type name →
    target.TakesFrom shape type name
  | .mk owner fields, h => by
    rw [shapeTerm] at h
    cases h with
    | all hm h =>
      have hleaf : (type = target.typeName owner ∧
          ∃ (key : String) (field : Field), .leaf key field ∈ fields ∧ name = field.name) →
            target.TakesFrom (.mk owner fields) type name := by
        rintro ⟨htype, key, field, hf, hname⟩
        exact ⟨_, .self, key, field, hf, htype, hname⟩
      rcases List.mem_append.1 hm with hm | hm
      · rcases List.mem_append.1 hm with hm | hm
        · rcases List.mem_append.1 hm with hm | hm
          · exact absurd h (not_refers_typenameTerm hm)
          · exact hleaf (leaf_of_pickTerm hm h)
        · exact hleaf (leaf_of_renamedTerm hm h)
      · obtain ⟨key, term, optional, hmember, h⟩ := refers_of_mem_objectTerm hm h
        obtain ⟨key, field, shapes, hl, between, hb, inner, hw, htakes⟩ := takesFrom_of_linkTerms fields hmember h
        exact ⟨inner, .nested hl hb hw, htakes⟩

theorem takesFrom_of_shapeTerms {part : TypeTerm} : (shapes : List TypeShape) → part ∈ target.shapeTerms shapes →
    part.Refers type name → ∃ shape ∈ shapes, target.TakesFrom shape type name
  | [], hm, _ => by
    rw [shapeTerms] at hm
    cases hm
  | shape :: rest, hm, h => by
    rw [shapeTerms] at hm
    rcases List.mem_cons.1 hm with rfl | hm
    · exact ⟨shape, List.mem_cons_self, takesFrom_of_refers shape h⟩
    · obtain ⟨other, ho, htakes⟩ := takesFrom_of_shapeTerms rest hm h
      exact ⟨other, List.mem_cons_of_mem _ ho, htakes⟩

theorem takesFrom_of_linkTerms {key : String} {term : TypeTerm} {optional : Bool} : (fields : List ShapeField) →
    .mk key term optional ∈ target.linkTerms fields → term.Refers type name →
    ∃ (key : String) (field : Field) (shapes : List TypeShape), .link key field shapes ∈ fields ∧
      ∃ between ∈ shapes, target.TakesFrom between type name
  | [], hm, _ => by
    rw [linkTerms] at hm
    cases hm
  | .typename _ _ _ :: rest, hm, h => by
    rw [linkTerms] at hm
    obtain ⟨key, field, shapes, hl, htakes⟩ := takesFrom_of_linkTerms rest hm h
    exact ⟨key, field, shapes, List.mem_cons_of_mem _ hl, htakes⟩
  | .leaf _ _ :: rest, hm, h => by
    rw [linkTerms] at hm
    obtain ⟨key, field, shapes, hl, htakes⟩ := takesFrom_of_linkTerms rest hm h
    exact ⟨key, field, shapes, List.mem_cons_of_mem _ hl, htakes⟩
  | .link own field shapes :: rest, hm, h => by
    rw [linkTerms] at hm
    rcases List.mem_cons.1 hm with heq | hm
    · cases heq
      cases h with
      | wrapped h =>
        cases h with
        | any hm h => exact ⟨_, field, shapes, List.mem_cons_self, takesFrom_of_shapeTerms shapes hm h⟩
    · obtain ⟨key, field, shapes, hl, htakes⟩ := takesFrom_of_linkTerms rest hm h
      exact ⟨key, field, shapes, List.mem_cons_of_mem _ hl, htakes⟩

end

end Target

/-! ## Where they are taken from -/

/-- the field is one of the type of that name -/
def Schema.HasField (schema : Schema) (type : String) (field : Field) : Prop :=
  ∃ found, schema.type? type = some found ∧ field ∈ found.fields.values

namespace ShapeContext

variable {ctx : ShapeContext} {concrete : String}

theorem hasField_of_fieldContent {provenance : Provenance} {name : String} {selections : SelectionSet} {field : Field}
    (h : ctx.fieldContent concrete provenance name selections = .ok (.leaf field)) : ctx.schema.HasField concrete field := by
  unfold fieldContent at h
  split at h
  · cases h
  · split at h
    · cases h
    · rename_i found hfound
      split at h
      · cases h
        obtain ⟨type, ht, hget⟩ := Schema.exists_of_requireField hfound
        exact ⟨type, ht, List.mem_map.2 ⟨_, Table.get?_eq_some_iff.1 hget, rfl⟩⟩
      · cases h

/-- the fields without selections that are collected on a type are fields of it -/
theorem hasField_of_gather {sets : List TaggedSet} {collected : Table Slot} (hg : ctx.gather concrete sets = .ok collected)
    {key : String} {slot : Slot} (hm : (key, slot) ∈ collected.entries) {field : Field} (hl : slot.value = .leaf field) :
    ctx.schema.HasField concrete field := by
  obtain ⟨met, hmet, rfl⟩ := gather_ok hg
  refine fillAll_invariant (fun _ slot => ∀ field, slot.value = .leaf field → ctx.schema.HasField concrete field)
    (fun key old new ho hn field h => (merge_leaf h).elim (ho field) (hn field)) met .empty (fun key slot h => ?_)
    (fun o ho field h => ?_) key slot (Table.get?_eq_some_iff.2 hm) field hl
  · cases h
  · exact hasField_of_fieldContent ((hmet.content o ho).trans (congrArg Except.ok h))

/-- **The fields without selections of a shape** are fields of its type, and so at every depth of a result. -/
theorem hasField_of_leaf {parent : String} {sets : List TaggedSet} {shapes : List TypeShape}
    (hr : (ctx.resolveTagged parent sets).result = .ok shapes) {outer inner : TypeShape} (hm : outer ∈ shapes)
    (hw : inner.Within outer) {key : String} {field : Field} (hl : .leaf key field ∈ inner.fields) :
    ctx.schema.HasField inner.type field := by
  obtain ⟨level, -, descend, concrete, hs⟩ := exists_level hr hm hw
  obtain ⟨htype, ⟨_, _, _, heq⟩ | ⟨collected, hg, ⟨entryKey, slot⟩, hentry, hfield⟩⟩ := exists_entry_of_mem hs hl
  · cases heq
  · unfold fieldResult at hfield
    split at hfield
    · cases hfield
    · rename_i collectedField hv
      cases hfield
      rw [htype]
      exact hasField_of_gather hg hentry hv
    · obtain ⟨_, -, heq⟩ := map_eq_ok_iff.1 hfield
      cases heq

/-- **What selections refer to** is a field of the type that it is taken from. -/
theorem hasField_of_refers {target : Target} {parent : String} {sets : List TaggedSet} {shapes : List TypeShape}
    (hr : (ctx.resolveTagged parent sets).result = .ok shapes) {type name : String}
    (h : (target.unionTerm shapes).Refers type name) :
    ∃ owner field, ctx.schema.HasField owner field ∧ type = target.typeName owner ∧ name = field.name := by
  cases h with
  | any hm h =>
    obtain ⟨outer, ho, inner, hw, key, field, hl, htype, hname⟩ := Target.takesFrom_of_shapeTerms shapes hm h
    exact ⟨inner.type, field, hasField_of_leaf hr ho hw hl, htype, hname⟩

end ShapeContext

end GraphGen
