/-
One shape for an interface.

When no selection on an interface asks for another type, the interface gets one shape, as if it were a concrete type. Its
implementors would all have got the same one:
- `Unnarrowed`: selections whose conditions, through inline fragments and spreads, are all on the interface itself.
  `unnarrowed_of_specializes`: the search for other conditions finds none only in such selections.
- `Unnarrowed.meets_alike`: all conditions hold for the interface and for every type that its values can have. So both meet the
  same field selections in the same way.
- `alike_of_settles`: then each key goes to the same field, by the rule for collisions.

Main result:
- `interface_shortcut`: the shape of a type that values of the interface can have has the keys of the shape of the interface,
  and under each key the same field.
-/
import GraphGen.Proofs.Shape.Collisions
import GraphGen.Proofs.Shape.Keys

namespace GraphGen

/-- what an occurrence is apart from the type it is on: the field selection and how it came to its level -/
def Occurrence.seen (o : Occurrence) : KeyedField × Provenance :=
  (o.toKeyedField, o.provenance)

namespace ShapeContext

variable {ctx : ShapeContext} {interface : String}

/-! ## Selections that ask for no other type -/

/-- all conditions on the level, through inline fragments and spreads, are on the interface -/
inductive Unnarrowed (ctx : ShapeContext) (interface : String) : List Selection → Prop where
  | nil : Unnarrowed ctx interface []
  | field {aliasName : Option String} {name : String} {arguments : List (String × Value)} {directives : List Directive}
      {selections rest : List Selection} (hr : Unnarrowed ctx interface rest) :
      Unnarrowed ctx interface (.field aliasName name arguments directives selections :: rest)
  | inline {condition : Option String} {directives : List Directive} {selections rest : List Selection}
      (hc : ∀ other, condition = some other → other = interface) (hi : Unnarrowed ctx interface selections)
      (hr : Unnarrowed ctx interface rest) : Unnarrowed ctx interface (.inline condition directives selections :: rest)
  | spread {name : String} {directives : List Directive} {rest : List Selection} {entry : IndexedFragment}
      (he : ctx.fragments.get? name = some entry) (hc : entry.fragment.condition = interface)
      (hi : Unnarrowed ctx interface entry.fragment.selections) (hr : Unnarrowed ctx interface rest) :
      Unnarrowed ctx interface (.spread name directives :: rest)

/-- a spread in which no other condition is found may stand in front -/
def SpreadStays (ctx : ShapeContext) (interface : String) (expand : String → Except Error Bool) : Prop :=
  ∀ name, expand name = .ok false → ∀ directives rest, Unnarrowed ctx interface rest →
    Unnarrowed ctx interface (.spread name directives :: rest)

mutual

theorem unnarrowed_of_selection {expand : String → Except Error Bool} (hx : SpreadStays ctx interface expand) :
    (selection : Selection) → specializesSelection expand interface selection = .ok false →
    ∀ rest, Unnarrowed ctx interface rest → Unnarrowed ctx interface (selection :: rest)
  | .field _ _ _ _ _, _, _, hr => .field hr
  | .inline condition _ selections, h, _, hr => by
    rw [specializesSelection] at h
    split at h
    · cases h
    · rename_i hcondition
      refine .inline (fun other ho => ?_) (unnarrowed_of_selections hx selections h) hr
      subst ho
      simpa using hcondition
  | .spread name directives, h, rest, hr => by
    rw [specializesSelection] at h
    exact hx name h directives rest hr

theorem unnarrowed_of_selections {expand : String → Except Error Bool} (hx : SpreadStays ctx interface expand) :
    (selections : List Selection) → specializesSelections expand interface selections = .ok false →
    Unnarrowed ctx interface selections
  | [], _ => .nil
  | selection :: rest, h => by
    rw [specializesSelections] at h
    split at h
    · rename_i hfirst
      exact unnarrowed_of_selection hx selection hfirst rest (unnarrowed_of_selections hx rest h)
    · rename_i hother
      exact absurd h hother

end

theorem unnarrowed_of_specializesSet (fuel : Nat) {stack : List String} {selections : SelectionSet}
    (h : ctx.specializesSet interface fuel stack selections = .ok false) : Unnarrowed ctx interface selections := by
  induction fuel generalizing stack selections with
  | zero => cases h
  | succ fuel ih =>
    rw [specializesSet] at h
    refine unnarrowed_of_selections ?_ selections h
    intro name h directives rest hr
    dsimp only at h
    split at h
    · cases h
    · rename_i entry ho
      split at h
      · cases h
      · rename_i hcondition
        exact .spread (openFragment_ok ho).2 (not_not.1 hcondition) (ih h) hr

/-- **The search finds no other condition only when there is none.** -/
theorem unnarrowed_of_specializes {sets : List TaggedSet} (h : ctx.specializes interface sets = .ok false) :
    ∀ set ∈ sets, Unnarrowed ctx interface set.selections := by
  induction sets with
  | nil => simp
  | cons set rest ih =>
    rw [specializes] at h
    split at h
    · rename_i hset
      intro other ho
      rcases List.mem_cons.1 ho with rfl | ho
      · exact unnarrowed_of_specializesSet _ hset
      · exact ih h other ho
    · rename_i hother
      exact absurd h hother

/-! ## What is met is the same -/

section Alike

variable {one other : String}

/-- **Types for which the condition holds meet the same field selections** in selections that have no other condition. -/
theorem Unnarrowed.meets_alike {selections : List Selection} (h : Unnarrowed ctx interface selections)
    (hone : ctx.conditionHolds one interface = true) (hother : ctx.conditionHolds other interface = true)
    {stack stack' : List String} {provenance : Provenance} {met met' : List Occurrence}
    (hm : Meets ctx one stack provenance selections met) (hm' : Meets ctx other stack' provenance selections met') :
    met.map (·.seen) = met'.map (·.seen) := by
  induction h generalizing stack stack' provenance met met' with
  | nil =>
    cases hm
    cases hm'
    rfl
  | field _ ih =>
    cases hm with
    | field _ hr =>
      cases hm' with
      | field _ hr' => rw [List.map_cons, List.map_cons, ih hr hr', Occurrence.seen, Occurrence.seen]
  | @inline condition _ _ _ hc _ _ ihi ihr =>
    have happlies : ∀ type, ctx.conditionHolds type interface = true →
        (condition.map (ctx.conditionHolds type)).getD true = true := by
      intro type ht
      cases condition with
      | none => rfl
      | some other =>
        rw [hc other rfl]
        exact ht
    cases hm with
    | inlineSkip ha _ => exact absurd (happlies one hone) (by simp [ha])
    | inline _ hi hr =>
      cases hm' with
      | inlineSkip ha _ => exact absurd (happlies other hother) (by simp [ha])
      | inline _ hi' hr' => rw [List.map_append, List.map_append, ihi hi hi', ihr hr hr']
  | spread he hc _ _ ihi ihr =>
    cases hm with
    | spreadSkip _ he' ha _ =>
      cases he.symm.trans he'
      exact absurd hone (by simp [← hc, ha])
    | spread _ he' _ hi hr =>
      cases he.symm.trans he'
      cases hm' with
      | spreadSkip _ he' ha _ =>
        cases he.symm.trans he'
        exact absurd hother (by simp [← hc, ha])
      | spread _ he' _ hi' hr' =>
        cases he.symm.trans he'
        rw [List.map_append, List.map_append, ihi hi hi', ihr hr hr']

theorem meetsSets_alike {sets : List TaggedSet} (h : ∀ set ∈ sets, Unnarrowed ctx interface set.selections)
    (hone : ctx.conditionHolds one interface = true) (hother : ctx.conditionHolds other interface = true)
    {met met' : List Occurrence} (hm : MeetsSets ctx one sets met) (hm' : MeetsSets ctx other sets met') :
    met.map (·.seen) = met'.map (·.seen) := by
  induction hm generalizing met' with
  | nil =>
    cases hm'
    rfl
  | cons hset _ ih =>
    cases hm' with
    | cons hset' hrest' =>
      have hfirst := (h _ List.mem_cons_self).meets_alike hone hother hset hset'
      have hrest := ih (fun set hs => h set (List.mem_cons_of_mem _ hs)) hrest'
      rw [List.map_append, List.map_append, hfirst, hrest]

end Alike

end ShapeContext

/-! ## What is collected is alike -/

/-- both are the type name, or both are fields, of one name -/
structure SlotContent.Alike (content content' : SlotContent) : Prop where
  typename : content = .typename ↔ content' = .typename
  name : content.fieldName = content'.fieldName

/-- collected entries under one key that are alike -/
structure EntryAlike (entry entry' : String × Slot) : Prop where
  key : entry.1 = entry'.1
  value : SlotContent.Alike entry.2.value entry'.2.value

/-- whether the type name stands there -/
def Slot.isTypename (slot : Slot) : Bool :=
  match slot.value with
  | .typename => true
  | _ => false

theorem Slot.isTypename_iff {slot : Slot} : slot.isTypename = true ↔ slot.value = .typename := by
  unfold isTypename
  cases slot.value <;> simp

theorem winner?_seen (occurrences : List Occurrence) :
    (winner? occurrences).map (·.seen)
      = ((occurrences.map (·.seen)).find? (·.2 = .inPlace)).or (occurrences.map (·.seen)).head? := by
  simp only [winner?, List.find?_map, List.head?_map, ← Option.map_or]
  rfl

theorem occurrencesOf_seen (key : String) (met : List Occurrence) :
    (occurrencesOf key met).map (·.seen) = (met.map (·.seen)).filter (·.1.key = key) := by
  rw [occurrencesOf, List.filter_map]
  rfl

/-- winners of occurrences that look alike look alike -/
theorem winners_alike {met met' : List Occurrence} (h : met.map (·.seen) = met'.map (·.seen)) {key : String}
    {winner winner' : Occurrence} (hw : winner? (occurrencesOf key met) = some winner)
    (hw' : winner? (occurrencesOf key met') = some winner') : winner.seen = winner'.seen := by
  have hseen := winner?_seen (occurrencesOf key met)
  rw [occurrencesOf_seen, h, ← occurrencesOf_seen, ← winner?_seen, hw, hw'] at hseen
  exact Option.some.inj hseen

theorem any_eq_of_forall₂ {α β : Type} {R : α → β → Prop} {l : List α} {others : List β} (h : List.Forall₂ R l others)
    {p : α → Bool} {q : β → Bool} (hpq : ∀ x y, R x y → p x = q y) : l.any p = others.any q := by
  induction h with
  | nil => rfl
  | cons hxy _ ih => rw [List.any_cons, List.any_cons, hpq _ _ hxy, ih]

/-- entries of tables with the same keys, one for one -/
theorem forall₂_entries {α β : Type} {R : α → β → Prop} {entries : List (String × α)} {others : List (String × β)}
    (hk : entryKeys entries = entryKeys others)
    (h : ∀ entry ∈ entries, ∀ other ∈ others, entry.1 = other.1 → R entry.2 other.2) :
    List.Forall₂ (fun entry other => entry.1 = other.1 ∧ R entry.2 other.2) entries others := by
  induction entries generalizing others with
  | nil =>
    cases others with
    | nil => exact .nil
    | cons other others => cases hk
  | cons entry entries ih =>
    cases others with
    | nil => cases hk
    | cons other others =>
      obtain ⟨hfirst, hrest⟩ := List.cons.inj hk
      refine .cons ⟨hfirst, h _ List.mem_cons_self _ List.mem_cons_self hfirst⟩ (ih hrest fun e he o ho => ?_)
      exact h e (List.mem_cons_of_mem _ he) o (List.mem_cons_of_mem _ ho)

namespace ShapeContext

variable {ctx : ShapeContext} {interface one other : String} {document : SchemaDocument}

/-- a field selection collects the type name when it selects that -/
theorem typename_iff_of_fieldContent {type : String} {provenance : Provenance} {name : String} {selections : SelectionSet}
    {content : SlotContent} (h : ctx.fieldContent type provenance name selections = .ok content) :
    content = .typename ↔ name = "__typename" := by
  rcases fieldContent_cases h with ⟨hname, hc⟩ | ⟨hname, _, -, hc | hc⟩ <;> simp [hname, hc]

/-- what stands under a key is the type name when its winner selects that -/
theorem typename_iff_of_settles {type : String} {sets : List TaggedSet} {met : List Occurrence}
    (hm : MeetsSets ctx type sets met) {key : String} {slot : Slot} {winner : Occurrence}
    (h : slot.Settles (occurrencesOf key met) winner) : slot.value = .typename ↔ winner.name = "__typename" := by
  obtain ⟨links, hvalue, -⟩ := h.content
  have hmem : winner ∈ met := List.filter_subset_self _ (mem_of_winner? h.wins)
  rw [← typename_iff_of_fieldContent (hm.content winner hmem), hvalue]
  cases winner.content <;> simp [SlotContent.withSets]

/-- **Types that meet the same field selections collect alike:** the same keys, and under each the type name or a field of one
name. -/
theorem collected_alike (hs : Schema.ofDocument document = .ok ctx.schema) {sets : List TaggedSet}
    {met met' : List Occurrence} (hm : MeetsSets ctx one sets met) (hm' : MeetsSets ctx other sets met')
    (h : met.map (·.seen) = met'.map (·.seen)) :
    List.Forall₂ EntryAlike (fillAll .empty met).entries (fillAll .empty met').entries := by
  have hmapped : ∀ met : List Occurrence, met.map (·.key) = (met.map (·.seen)).map (·.1.key) := by
    intro met
    rw [List.map_map]
    rfl
  have hkeys : (fillAll .empty met).keys = (fillAll .empty met').keys := by
    rw [keys_fillAll, keys_fillAll, hmapped, hmapped, h]
  have hc := hm.consistent hs
  have hc' := hm'.consistent hs
  have hvalues : ∀ entry ∈ (fillAll .empty met).entries, ∀ entry' ∈ (fillAll .empty met').entries, entry.1 = entry'.1 →
      SlotContent.Alike entry.2.value entry'.2.value := by
    rintro ⟨key, slot⟩ he ⟨_, slot'⟩ he' rfl
    rw [← Table.get?_eq_some_iff] at he he'
    obtain ⟨_, winner, hfound, hsettles⟩ := settles_of_mem_keys hc (Table.mem_keys_iff.2 ⟨slot, he⟩)
    obtain ⟨_, winner', hfound', hsettles'⟩ := settles_of_mem_keys hc' (Table.mem_keys_iff.2 ⟨slot', he'⟩)
    cases he.symm.trans hfound
    cases he'.symm.trans hfound'
    have hname : winner.name = winner'.name :=
      congrArg (fun seen => seen.1.name) (winners_alike h hsettles.wins hsettles'.wins)
    refine ⟨?_, ?_⟩
    · rw [typename_iff_of_settles hm hsettles, typename_iff_of_settles hm' hsettles', hname]
    · rw [hsettles.fieldName (hc.subset (List.filter_subset_self _)),
        hsettles'.fieldName (hc'.subset (List.filter_subset_self _)), hname]
  exact (forall₂_entries (R := fun slot slot' => SlotContent.Alike slot.value slot'.value) hkeys hvalues).imp
    fun _ _ halike => ⟨halike.1, halike.2⟩

end ShapeContext

/-! ## Shapes that are alike -/

/-- the field of an entry that is not the type name -/
def ShapeField.field? : ShapeField → Option Field
  | typename _ _ _ => none
  | leaf _ field => some field
  | link _ field _ => some field

/-- entries under one key: both the type name, under an optional key or not, or both fields, of one name -/
inductive ShapeField.Alike : ShapeField → ShapeField → Prop where
  | typename {key : String} {names names' : List String} {optional : Bool} :
      Alike (.typename key names optional) (.typename key names' optional)
  | field {entry entry' : ShapeField} {field field' : Field} (hk : entry.key = entry'.key) (hf : entry.field? = some field)
      (hf' : entry'.field? = some field') (hn : field.name = field'.name) : Alike entry entry'

theorem ShapeField.Alike.key {entry entry' : ShapeField} (h : entry.Alike entry') : entry.key = entry'.key := by
  cases h with
  | typename => rfl
  | field hk => exact hk

namespace ShapeContext

variable {ctx : ShapeContext} {interface one other : String} {document : SchemaDocument}

/-- the type name is added in front unless it was selected or is left out -/
theorem implicitTypename_eq (ctx : ShapeContext) (concrete : String) (collected : Table Slot) :
    ctx.implicitTypename concrete collected =
      if collected.entries.any (·.2.isTypename) || ctx.options.skipTypename then []
      else [.typename "__typename" (ctx.typenames concrete) (!ctx.options.nonOptionalTypename)] := by
  unfold implicitTypename Table.values
  rw [List.any_map]
  rfl

/-- a collected field that is not the type name is written with its name -/
theorem field_of_fieldResult {descend : String → List TaggedSet → Except Error (List TypeShape)} {entry : String × Slot}
    {field : ShapeField} (h : ctx.fieldResult descend one entry = .ok field) (hv : entry.2.value ≠ .typename) :
    ∃ found, field.field? = some found ∧ found.name = entry.2.value.fieldName := by
  unfold fieldResult at h
  split at h
  · rename_i htypename
    exact absurd htypename hv
  · rename_i found hleaf
    cases h
    exact ⟨found, rfl, by rw [hleaf]; rfl⟩
  · rename_i found links hlink
    obtain ⟨shapes, -, rfl⟩ := map_eq_ok_iff.1 h
    exact ⟨found, rfl, by rw [hlink]; rfl⟩

theorem fieldResult_alike {descend : String → List TaggedSet → Except Error (List TypeShape)}
    {entry entry' : String × Slot} (h : EntryAlike entry entry') {field field' : ShapeField}
    (hf : ctx.fieldResult descend one entry = .ok field) (hf' : ctx.fieldResult descend other entry' = .ok field') :
    field.Alike field' := by
  by_cases hv : entry.2.value = .typename
  · have hv' := h.value.typename.1 hv
    unfold fieldResult at hf hf'
    rw [hv] at hf
    rw [hv'] at hf'
    cases hf
    cases hf'
    rw [h.key]
    exact .typename
  · have hv' : entry'.2.value ≠ .typename := fun he => hv (h.value.typename.2 he)
    obtain ⟨found, hfound, hname⟩ := field_of_fieldResult hf hv
    obtain ⟨found', hfound', hname'⟩ := field_of_fieldResult hf' hv'
    refine .field ?_ hfound hfound' (by rw [hname, hname', h.value.name])
    rw [fieldResult_key hf, fieldResult_key hf', h.key]

/-- entries that are alike are written as fields that are alike -/
theorem fieldResults_alike {descend : String → List TaggedSet → Except Error (List TypeShape)}
    {entries others : List (String × Slot)} (h : List.Forall₂ EntryAlike entries others)
    {fields fields' : List ShapeField} (hf : entries.mapM (ctx.fieldResult descend one) = .ok fields)
    (hf' : others.mapM (ctx.fieldResult descend other) = .ok fields') : List.Forall₂ ShapeField.Alike fields fields' := by
  apply forall₂_of_results h (mapM_eq_ok_iff.1 hf) (mapM_eq_ok_iff.1 hf')
  intro entry entry' field field' halike hfield hfield'
  exact fieldResult_alike halike hfield hfield'

/-- the type name is added in front of both or of neither -/
theorem implicitTypename_alike {collected collected' : Table Slot}
    (h : List.Forall₂ EntryAlike collected.entries collected'.entries) :
    List.Forall₂ ShapeField.Alike (ctx.implicitTypename one collected) (ctx.implicitTypename other collected') := by
  have hselected : collected.entries.any (·.2.isTypename) = collected'.entries.any (·.2.isTypename) := by
    refine any_eq_of_forall₂ h fun entry entry' halike => ?_
    rw [Bool.eq_iff_iff, Slot.isTypename_iff, Slot.isTypename_iff]
    exact halike.value.typename
  rw [implicitTypename_eq, implicitTypename_eq, hselected]
  split
  · exact .nil
  · exact .cons .typename .nil

/-! ## The shape of the interface -/

/-- an interface that some values have gets one shape only when its selections ask for no other type -/
theorem shapeTypes_interface (hs : Schema.ofDocument document = .ok ctx.schema) {concretes : List String}
    {sets : List TaggedSet} (hi : ctx.schema.kind? interface = some .interface)
    (hp : ctx.schema.possibleTypes interface ≠ []) (h : ctx.shapeTypes interface sets = .ok concretes) :
    concretes = ctx.schema.possibleTypes interface ∨
      (concretes = [interface] ∧ ctx.specializes interface sets = .ok false) := by
  obtain ⟨type, ht, hkind⟩ := Schema.exists_type?_of_kind? hi
  unfold shapeTypes Schema.requireType at h
  simp only [ht, hkind, List.isEmpty_iff, hp, if_false] at h
  split at h
  · cases h
  · rename_i narrowed hnarrowed
    cases h
    cases narrowed with
    | true => exact .inl rfl
    | false => exact .inr ⟨by simp [Schema.name_eq hs ht], hnarrowed⟩

/-- shapes on two types are alike when both meet the same field selections -/
theorem shapes_alike (hs : Schema.ofDocument document = .ok ctx.schema)
    {descend : String → List TaggedSet → Except Error (List TypeShape)} {sets : List TaggedSet}
    (hsets : ∀ set ∈ sets, Unnarrowed ctx interface set.selections) (hone : ctx.conditionHolds one interface = true)
    (hother : ctx.conditionHolds other interface = true) {shape shape' : TypeShape}
    (h : ctx.shapeResult descend sets one = .ok shape) (h' : ctx.shapeResult descend sets other = .ok shape') :
    List.Forall₂ ShapeField.Alike shape.fields shape'.fields := by
  obtain ⟨-, collected, fields, hg, hf, hfields⟩ := shapeResult_ok h
  obtain ⟨-, collected', fields', hg', hf', hfields'⟩ := shapeResult_ok h'
  obtain ⟨met, hm, rfl⟩ := gather_ok hg
  obtain ⟨met', hm', rfl⟩ := gather_ok hg'
  have hentries := collected_alike hs hm hm' (meetsSets_alike hsets hone hother hm hm')
  rw [hfields, hfields']
  exact List.rel_append (implicitTypename_alike hentries) (fieldResults_alike hentries hf hf')

/-- an interface with one shape of its own: its selections ask for no other type, and the shape is that of the interface -/
theorem shape_of_interface (hs : Schema.ofDocument document = .ok ctx.schema) (hb : ctx.fragments.Built)
    (hi : ctx.schema.kind? interface = some .interface) (hp : ctx.schema.possibleTypes interface ≠ [])
    {sets : List TaggedSet} {shape : TypeShape} (hr : (ctx.resolveTagged interface sets).result = .ok [shape])
    (ht : shape.type = interface) :
    ctx.specializes interface sets = .ok false ∧
      ctx.shapeResult (fun parent sets => (ctx.resolveTagged parent sets).result) sets interface = .ok shape := by
  rw [result_resolveTagged hb] at hr
  obtain ⟨concretes, hconcretes, hshapes⟩ := bind_eq_ok_iff.1 hr
  obtain ⟨type, hmem, hshape⟩ := exists_of_mem_mapM hshapes shape List.mem_cons_self
  obtain rfl : type = interface := (shapeResult_ok hshape).1.symm.trans ht
  rcases shapeTypes_interface hs hi hp hconcretes with rfl | ⟨-, hspecializes⟩
  · -- the values of an interface have object types, of which it is none
    have hobject := Schema.object_of_mem_possibleTypes hs hmem
    rw [hi] at hobject
    cases hobject
  · exact ⟨hspecializes, hshape⟩

/-- an object gets one shape -/
theorem shape_of_object (hs : Schema.ofDocument document = .ok ctx.schema) (hb : ctx.fragments.Built) {concrete : String}
    (ho : ctx.schema.kind? concrete = some .object) {sets : List TaggedSet} {shapes : List TypeShape}
    (hr : (ctx.resolveTagged concrete sets).result = .ok shapes) :
    ∃ shape, shapes = [shape] ∧
      ctx.shapeResult (fun parent sets => (ctx.resolveTagged parent sets).result) sets concrete = .ok shape := by
  rw [result_resolveTagged hb] at hr
  obtain ⟨concretes, hconcretes, hshapes⟩ := bind_eq_ok_iff.1 hr
  obtain ⟨type, ht, hkind⟩ := Schema.exists_type?_of_kind? ho
  obtain rfl : concretes = [concrete] := by
    simp only [shapeTypes, Schema.requireType, ht, hkind, Schema.name_eq hs ht] at hconcretes
    exact (Except.ok.inj hconcretes).symm
  cases mapM_eq_ok_iff.1 hshapes with
  | cons hshape hrest =>
    cases hrest
    exact ⟨_, rfl, hshape⟩

theorem conditionHolds_of_mem_possibleTypes {concrete : String} (hc : concrete ∈ ctx.schema.possibleTypes interface) :
    ctx.conditionHolds concrete interface = true := by
  simp [conditionHolds, hc]

theorem conditionHolds_self (ctx : ShapeContext) (interface : String) : ctx.conditionHolds interface interface = true := by
  simp [conditionHolds, Schema.fits]

/-- **One shape for an interface speaks for all its types.** When selection sets on an interface resolve to one shape, that of
the interface itself, they resolve on every type that its values can have, if they resolve there at all, to one shape with the
same keys in the same order. Under each key it has the type name as the shape of the interface has it, or a field of the same
name. -/
theorem interface_shortcut (hs : Schema.ofDocument document = .ok ctx.schema) (hb : ctx.fragments.Built)
    (hi : ctx.schema.kind? interface = some .interface) {concrete : String}
    (hc : concrete ∈ ctx.schema.possibleTypes interface) {sets : List TaggedSet} {noted noted' : List String}
    {shape : TypeShape} (hr : (runResolve (ctx.resolveTagged interface sets) noted).1 = .ok [shape])
    (ht : shape.type = interface) {shapes : List TypeShape}
    (hr' : (runResolve (ctx.resolveTagged concrete sets) noted').1 = .ok shapes) :
    ∃ special, shapes = [special] ∧ special.type = concrete ∧ special.keys = shape.keys ∧
      List.Forall₂ ShapeField.Alike shape.fields special.fields := by
  rw [steady_resolveTagged] at hr hr'
  have hp : ctx.schema.possibleTypes interface ≠ [] := List.ne_nil_of_mem hc
  obtain ⟨hspecializes, hshape⟩ := shape_of_interface hs hb hi hp hr ht
  obtain ⟨special, rfl, hspecial⟩ := shape_of_object hs hb (Schema.object_of_mem_possibleTypes hs hc) hr'
  have halike := shapes_alike hs (unnarrowed_of_specializes hspecializes) (conditionHolds_self ctx interface)
    (conditionHolds_of_mem_possibleTypes hc) hshape hspecial
  refine ⟨special, rfl, (shapeResult_ok hspecial).1, ?_, halike⟩
  have hkeys : List.Forall₂ (fun key key' => key = key') shape.keys special.keys := by
    rw [TypeShape.keys, TypeShape.keys, List.forall₂_map_left_iff, List.forall₂_map_right_iff]
    exact halike.imp fun _ _ h => h.key
  exact (List.forall₂_eq_eq_eq ▸ hkeys).symm

/-- the owner of a node, from a fragment on nodes and under another key -/
def nodeSelections : SelectionSet :=
  [.spread "OwnerParts" [], .inline (some "Node") [] [.field (some "boss") "owner" [] [] [.field none "name" [] [] []]]]

theorem interface_shortcut_node :
    ∃ schema index shape special, Schema.ofDocument nodeSchema = .ok schema ∧
      FragmentIndex.ofDocuments [] ownerFragments = .ok index ∧
      (runResolve (resolve ⟨schema, index, .plain⟩ "Node" [nodeSelections]) []).1 = .ok [shape] ∧ shape.type = "Node" ∧
      (runResolve (resolve ⟨schema, index, .plain⟩ "User" [nodeSelections]) []).1 = .ok [special] ∧
      special.keys = ["__typename", "owner", "boss"] ∧ List.Forall₂ ShapeField.Alike shape.fields special.fields := by
  have hshortcut : ∀ schema index shape special, Schema.ofDocument nodeSchema = .ok schema →
      FragmentIndex.ofDocuments [] ownerFragments = .ok index →
      schema.kind? "Node" = some .interface → "User" ∈ schema.possibleTypes "Node" →
      (runResolve (resolve ⟨schema, index, .plain⟩ "Node" [nodeSelections]) []).1 = .ok [shape] → shape.type = "Node" →
      (runResolve (resolve ⟨schema, index, .plain⟩ "User" [nodeSelections]) []).1 = .ok [special] → _ :=
    fun schema index shape special hs hx hi hc hr ht hr' =>
      @interface_shortcut ⟨schema, index, .plain⟩ "Node" nodeSchema hs (Or.inr ⟨[], ownerFragments, hx⟩) hi "User" hc
        _ [] [] shape hr ht [special] hr'
  refine ⟨_, _, _, _, rfl, rfl, rfl, rfl, rfl, rfl, ?_⟩
  obtain ⟨special, hspecial, -, -, halike⟩ := hshortcut _ _ _ _ rfl rfl rfl (by decide) rfl rfl rfl
  cases hspecial
  exact halike

end ShapeContext

end GraphGen
