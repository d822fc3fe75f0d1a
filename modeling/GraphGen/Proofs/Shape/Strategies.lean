/-
The strategies write the same fields.

Shapes are resolved first and written afterwards. The same can be done in one go: a collected link is written as soon as its
selections are resolved, and its shape holds the text. `Target.written` resolves in this way under either strategy, and
`written_eq` says that it gives what `ShapeContext.resolve` gives with the nested shapes written.

- `FlatShape.Agree`: shapes of the two strategies that differ in nothing but the texts of links; and these are written from
  shapes that agree, at every depth. So is everything that is flattened from one tree (`flatten_agree`, by induction on it).
- `Target.propertyNames`: the names of all properties that a shape is written with. Picks sort the fields of a shape into
  four parts, and every field goes to one of them (`propertyNames_perm`).

Main result:
- `strategies_agree`: both strategies fail with the same error or give shapes that agree, and write the keys of every shape.
-/
import GraphGen.Proofs.Shape.Results
import GraphGen.Shape.Render

namespace GraphGen

namespace Target

/-! ## Resolving and writing in one go -/

/-- what selections are resolved against when they are written with the target -/
def context (target : Target) (fragments : FragmentIndex) : ShapeContext := ⟨target.schema, fragments, target.options⟩

/-- shapes with written nested shapes as one type -/
def writeUnion (target : Target) (strategy : Strategy) (shapes : List FlatShape) : String :=
  target.dialect.union (shapes.map (target.renderFlat strategy))

/-- the field of a collected entry; `write` gives the type of nested selections -/
def flatFieldOf (target : Target) (fragments : FragmentIndex) (write : String → List TaggedSet → Resolve String)
    (concrete key : String) (entry : Slot) : Resolve FlatField :=
  match entry.value with
  | .typename => pure (.typename key (target.literals ((target.context fragments).typenames concrete)) false)
  | .leaf field => pure (.leaf key field)
  | .link field sets => do
    let text ← write field.type.name sets
    pure (.link key field text)

/-- the shape of selection sets on a concrete type -/
def flatShapeOn (target : Target) (fragments : FragmentIndex) (strategy : Strategy)
    (write : String → List TaggedSet → Resolve String) (sets : List TaggedSet) (concrete : String) :
    Resolve FlatShape := do
  ShapeContext.note concrete
  let collected ← Resolve.ofExcept ((target.context fragments).gather concrete sets)
  let fields ← collected.entries.mapM fun (key, entry) => target.flatFieldOf fragments write concrete key entry
  pure ⟨concrete,
    target.flattenFields strategy ((target.context fragments).implicitTypename concrete collected) ++ fields⟩

/-- the shapes of selection sets on a type, at most `fuel` levels deep, with nested shapes written on the way -/
def flatShapesUpTo (target : Target) (fragments : FragmentIndex) (strategy : Strategy) :
    Nat → String → List TaggedSet → Resolve (List FlatShape)
  | 0, _, _ => throw (.cyclicFragment [])
  | fuel + 1, parent, sets => do
    let write (parent : String) (sets : List TaggedSet) : Resolve String := do
      let shapes ← flatShapesUpTo target fragments strategy fuel parent sets
      pure (target.writeUnion strategy shapes)
    let concretes ← Resolve.ofExcept ((target.context fragments).shapeTypes parent sets)
    concretes.mapM (target.flatShapeOn fragments strategy write sets)

/-- the shapes of several selection sets on a type, as if they were one, with nested shapes written on the way -/
def written (target : Target) (fragments : FragmentIndex) (strategy : Strategy) (parent : String)
    (sets : List SelectionSet) : Resolve (List FlatShape) :=
  let tagged : List TaggedSet := sets.map (⟨·, .inPlace⟩)
  target.flatShapesUpTo fragments strategy ((target.context fragments).levels (tagged.map (·.selections))) parent tagged

variable {target : Target} {fragments : FragmentIndex} {strategy : Strategy}

theorem flattenFields_eq_map (fields : List ShapeField) :
    target.flattenFields strategy fields = fields.map (target.flattenField strategy) := by
  induction fields with
  | nil => rw [flattenFields, List.map_nil]
  | cons field rest ih => rw [flattenFields, ih, List.map_cons]

theorem renderShapes_eq_map (shapes : List TypeShape) :
    target.renderShapes strategy shapes = (shapes.map (target.flatten strategy)).map (target.renderFlat strategy) := by
  induction shapes with
  | nil => rw [renderShapes, List.map_nil, List.map_nil]
  | cons shape rest ih => rw [renderShapes, ih, List.map_cons, List.map_cons]

theorem renderUnion_eq (shapes : List TypeShape) :
    target.renderUnion strategy shapes = target.writeUnion strategy (shapes.map (target.flatten strategy)) := by
  rw [renderUnion, renderShapes_eq_map, writeUnion]

theorem flatFieldOf_eq (descend : String → List TaggedSet → Resolve (List TypeShape)) (concrete key : String)
    (slot : Slot) :
    target.flatFieldOf fragments (fun parent sets => target.renderUnion strategy <$> descend parent sets) concrete key
        slot =
      target.flattenField strategy <$> (target.context fragments).fieldOf descend concrete key slot := by
  obtain ⟨provenance, content⟩ := slot
  cases content with
  | typename => simp [flatFieldOf, ShapeContext.fieldOf, flattenField]
  | leaf field => simp [flatFieldOf, ShapeContext.fieldOf, flattenField]
  | link field sets =>
    simp only [flatFieldOf, ShapeContext.fieldOf, map_bind, bind_map_left, map_pure, flattenField]
    rfl

theorem flatShapeOn_eq (descend : String → List TaggedSet → Resolve (List TypeShape)) (sets : List TaggedSet)
    (concrete : String) :
    target.flatShapeOn fragments strategy (fun parent sets => target.renderUnion strategy <$> descend parent sets) sets
        concrete =
      target.flatten strategy <$> (target.context fragments).shapeOn descend sets concrete := by
  unfold flatShapeOn ShapeContext.shapeOn
  rw [map_bind]
  refine congrArg _ (funext fun _ => ?_)
  rw [map_bind]
  refine congrArg _ (funext fun collected => ?_)
  have hfields : (collected.entries.mapM fun (key, entry) => target.flatFieldOf fragments
        (fun parent sets => target.renderUnion strategy <$> descend parent sets) concrete key entry) =
      List.map (target.flattenField strategy) <$>
        collected.entries.mapM fun (key, entry) => (target.context fragments).fieldOf descend concrete key entry := by
    rw [← mapM_map_values]
    exact mapM_congr fun entry _ => flatFieldOf_eq descend concrete entry.1 entry.2
  rw [hfields, map_bind, bind_map_left]
  refine congrArg _ (funext fun fields => ?_)
  rw [map_pure, flatten, flattenFields_eq_map, flattenFields_eq_map, List.map_append]

theorem flatShapesUpTo_eq (fuel : Nat) (parent : String) (sets : List TaggedSet) :
    target.flatShapesUpTo fragments strategy fuel parent sets =
      List.map (target.flatten strategy) <$> (target.context fragments).shapesUpTo fuel parent sets := by
  induction fuel generalizing parent sets with
  | zero => rfl
  | succ fuel ih =>
    have hwrite : (fun parent sets => do
          let shapes ← target.flatShapesUpTo fragments strategy fuel parent sets
          pure (target.writeUnion strategy shapes)) =
        fun parent sets => target.renderUnion strategy <$> (target.context fragments).shapesUpTo fuel parent sets := by
      funext parent sets
      rw [ih, bind_map_left, map_eq_pure_bind]
      simp only [renderUnion_eq]
    rw [flatShapesUpTo, ShapeContext.shapesUpTo, map_bind]
    refine congrArg _ (funext fun concretes => ?_)
    rw [hwrite, ← mapM_map_values]
    exact mapM_congr fun concrete _ => flatShapeOn_eq _ sets concrete

/-- **Writing on the way gives what writing afterwards gives.** -/
theorem written_eq (parent : String) (sets : List SelectionSet) :
    target.written fragments strategy parent sets =
      List.map (target.flatten strategy) <$> (target.context fragments).resolve parent sets :=
  flatShapesUpTo_eq _ parent _

end Target

/-! ## Agreement -/

mutual

/-- a shape of picks and an inlined one: the type is the same, and the fields agree in order -/
inductive FlatShape.Agree (target : Target) : FlatShape → FlatShape → Prop where
  | mk {type : String} {fields others : List FlatField} (h : List.Forall₂ (FlatField.Agree target) fields others) :
      FlatShape.Agree target ⟨type, fields⟩ ⟨type, others⟩

/-- a field of a shape of picks and one of an inlined shape: they are the same, up to the texts that nested shapes have
under the two strategies; and these shapes agree -/
inductive FlatField.Agree (target : Target) : FlatField → FlatField → Prop where
  | typename (key literal : String) (optional : Bool) :
      FlatField.Agree target (.typename key literal optional) (.typename key literal optional)
  | leaf (key : String) (field : Field) : FlatField.Agree target (.leaf key field) (.leaf key field)
  | link (key : String) (field : Field) {shapes others : List FlatShape}
      (h : List.Forall₂ (FlatShape.Agree target) shapes others) :
      FlatField.Agree target (.link key field (target.writeUnion .pick shapes))
        (.link key field (target.writeUnion .inline others))

end

namespace Target

variable {target : Target} {fragments : FragmentIndex}

mutual

/-- **One tree is flattened to shapes that agree.** -/
theorem flatten_agree : (shape : TypeShape) →
    FlatShape.Agree target (target.flatten .pick shape) (target.flatten .inline shape)
  | .mk _ fields => by
    rw [flatten, flatten]
    exact .mk (flattenFields_agree fields)

theorem flattenAll_agree : (shapes : List TypeShape) →
    List.Forall₂ (FlatShape.Agree target) (shapes.map (target.flatten .pick)) (shapes.map (target.flatten .inline))
  | [] => .nil
  | shape :: rest => .cons (flatten_agree shape) (flattenAll_agree rest)

theorem flattenField_agree : (field : ShapeField) →
    FlatField.Agree target (target.flattenField .pick field) (target.flattenField .inline field)
  | .typename key names optional => by
    rw [flattenField, flattenField]
    exact .typename key _ optional
  | .leaf key field => by
    rw [flattenField, flattenField]
    exact .leaf key field
  | .link key field shapes => by
    rw [flattenField, flattenField, renderShapes_eq_map, renderShapes_eq_map]
    exact .link key field (flattenAll_agree shapes)

theorem flattenFields_agree : (fields : List ShapeField) →
    List.Forall₂ (FlatField.Agree target) (target.flattenFields .pick fields) (target.flattenFields .inline fields)
  | [] => by
    rw [flattenFields, flattenFields]
    exact .nil
  | field :: rest => by
    rw [flattenFields, flattenFields]
    exact .cons (flattenField_agree field) (flattenFields_agree rest)

end

/-- the runs noted the same types, and they failed with one error or gave shapes that agree -/
def OutcomesAgree (target : Target) :
    Except Error (List FlatShape) × List String → Except Error (List FlatShape) × List String → Prop
  | (.ok shapes, noted), (.ok others, noted') => List.Forall₂ (FlatShape.Agree target) shapes others ∧ noted = noted'
  | (.error error, noted), (.error error', noted') => error = error' ∧ noted = noted'
  | _, _ => False

/-! ## Property names -/

/-- the names of all properties that a shape is written with -/
def propertyNames (target : Target) (shape : FlatShape) : Strategy → List String
  | .pick => (target.pickParts shape).flatMap (·.names)
  | .inline => (target.inlinePart shape).names

theorem names_objectPart (members : List ObjectMember) :
    (objectPart members).flatMap (·.names) = members.map (·.key) := by
  cases members <;> simp [objectPart, ShapePart.names]

theorem names_pickPart (type : String) (names : List String) : (pickPart type names).flatMap (·.names) = names := by
  cases names <;> simp [pickPart, ShapePart.names]

/-- **Every field goes to one part.** -/
theorem pickParts_perm (type : String) (fields : List FlatField) :
    ((target.pickParts ⟨type, fields⟩).flatMap (·.names)).Perm (fields.map FlatField.key) := by
  simp only [pickParts, List.flatMap_append, names_objectPart, names_pickPart, List.append_assoc]
  induction fields with
  | nil => exact .nil
  | cons field rest ih =>
    -- the name of the field stands first in its part, behind the parts before
    have hplace : ∀ (before after : List String) (key : String), (before ++ after).Perm (rest.map FlatField.key) →
        (before ++ key :: after).Perm (key :: rest.map FlatField.key) :=
      fun _ _ key h => List.perm_middle.trans (h.cons key)
    cases field with
    | typename key literal optional =>
      simp only [List.filterMap_cons, typenameField?, pickedName?, renamedField?, linkField?, List.map_cons,
        List.cons_append, FlatField.key]
      exact hplace [] _ key ih
    | leaf key field =>
      by_cases hk : key = field.name
      · simp only [List.filterMap_cons, typenameField?, pickedName?, renamedField?, linkField?, List.map_cons,
          List.cons_append, FlatField.key, hk, if_true]
        exact hplace _ _ field.name ih
      · simp only [List.filterMap_cons, typenameField?, pickedName?, renamedField?, linkField?, List.map_cons,
          List.cons_append, FlatField.key, hk, if_false]
        rw [← List.append_assoc] at ih ⊢
        exact hplace _ _ key ih
    | link key field shape =>
      simp only [List.filterMap_cons, typenameField?, pickedName?, renamedField?, linkField?, List.map_cons,
        FlatField.key]
      rw [← List.append_assoc, ← List.append_assoc] at ih ⊢
      exact hplace _ _ key ih

theorem inlineField_key (field : FlatField) : (target.inlineField field).key = field.key := by
  cases field <;> rfl

theorem propertyNames_perm (strategy : Strategy) (shape : FlatShape) :
    (target.propertyNames shape strategy).Perm shape.keys := by
  cases strategy with
  | pick => exact pickParts_perm shape.type shape.fields
  | inline =>
    have hkeys : target.propertyNames shape .inline = shape.keys := by
      rw [propertyNames, inlinePart, ShapePart.names, List.map_map, FlatShape.keys]
      exact List.map_congr_left fun field _ => inlineField_key field
    rw [hkeys]

/-- **The strategies agree.** For any target and fragments, on any type and selection sets, and whatever types were noted
before: resolving with picks and resolving with inlined types fail with one error, or give shapes that agree in order. And
every shape, under either strategy, is written with its keys as property names, each as often as it is a key. -/
theorem strategies_agree (target : Target) (fragments : FragmentIndex) (parent : String) (sets : List SelectionSet)
    (noted : List String) :
    OutcomesAgree target (ShapeContext.runResolve (target.written fragments .pick parent sets) noted)
      (ShapeContext.runResolve (target.written fragments .inline parent sets) noted) ∧
    ∀ (shape : FlatShape) (strategy : Strategy), (target.propertyNames shape strategy).Perm shape.keys := by
  refine ⟨?_, fun shape strategy => propertyNames_perm strategy shape⟩
  rw [written_eq, written_eq, Resolve.run_map, Resolve.run_map]
  obtain ⟨outcome, after⟩ := ShapeContext.runResolve ((target.context fragments).resolve parent sets) noted
  cases outcome with
  | error error => exact ⟨rfl, rfl⟩
  | ok shapes => exact ⟨flattenAll_agree shapes, rfl⟩

end Target

end GraphGen
