/-
The occurrences of response keys.

Collecting fields on a concrete type goes through the selections in document order and meets field selections: those of the
level itself, of inline fragments that apply, and of fragments that are spread and apply. An `Occurrence` is one field
selection that is met, with its response key, its provenance and what it collects. `Meets` says which occurrences a list of
selections has, with no bound on the walk; `gather_ok` says that collecting is entering them one after the other:
`gather` = `fillAll` of the occurrences.

From there on a collected table is looked at through its occurrences:
- `keys_fillAll`: the response keys are those of the occurrences, in the order of their first mention;
- `get?_fillAll_link`: when all occurrences of a key are selections of one composite field, the key holds the
  sub-selections of all of them, in order.
- `gather_linksFrom`: the sub-selections of any collected link are those of occurrences.
-/
import GraphGen.Shape.Resolve

namespace GraphGen

/-- a field selection: its response key, its name and its sub-selections -/
structure KeyedField where
  key : String
  name : String
  selections : SelectionSet

/-- a field selection that is met, how it came to its level, and what it collects -/
structure Occurrence extends KeyedField where
  provenance : Provenance
  content : SlotContent

/-- what the occurrence enters under its key -/
def Occurrence.slot (o : Occurrence) : Slot := ⟨o.provenance, o.content⟩

/-- the sub-selections of the occurrence, with its provenance -/
def Occurrence.tagged (o : Occurrence) : TaggedSet := ⟨o.selections, o.provenance⟩

/-- enters occurrences one after the other -/
def fillAll (out : Table Slot) (met : List Occurrence) : Table Slot :=
  met.foldl (fun out o => fillSlot out o.key o.slot) out

theorem fillAll_append (out : Table Slot) (met more : List Occurrence) :
    fillAll out (met ++ more) = fillAll (fillAll out met) more := by
  simp [fillAll]

namespace ShapeContext

/-- the occurrences that selections have on a concrete type, below entered fragments -/
inductive Meets (ctx : ShapeContext) (concrete : String) :
    List String → Provenance → List Selection → List Occurrence → Prop where
  | nil {stack : List String} {provenance : Provenance} : Meets ctx concrete stack provenance [] []
  | field {stack : List String} {provenance : Provenance} {aliasName : Option String} {name : String}
      {arguments : List (String × Value)} {directives : List Directive} {selections rest : List Selection}
      {content : SlotContent} {met : List Occurrence}
      (hc : ctx.fieldContent concrete provenance name selections = .ok content)
      (hr : Meets ctx concrete stack provenance rest met) :
      Meets ctx concrete stack provenance (.field aliasName name arguments directives selections :: rest)
        (⟨⟨aliasName.getD name, name, selections⟩, provenance, content⟩ :: met)
  | inline {stack : List String} {provenance : Provenance} {condition : Option String} {directives : List Directive}
      {selections rest : List Selection} {inner met : List Occurrence}
      (ha : (condition.map (ctx.conditionHolds concrete)).getD true = true)
      (hi : Meets ctx concrete stack provenance selections inner) (hr : Meets ctx concrete stack provenance rest met) :
      Meets ctx concrete stack provenance (.inline condition directives selections :: rest) (inner ++ met)
  | inlineSkip {stack : List String} {provenance : Provenance} {condition : Option String} {directives : List Directive}
      {selections rest : List Selection} {met : List Occurrence}
      (ha : (condition.map (ctx.conditionHolds concrete)).getD true = false)
      (hr : Meets ctx concrete stack provenance rest met) :
      Meets ctx concrete stack provenance (.inline condition directives selections :: rest) met
  | spread {stack : List String} {provenance : Provenance} {name : String} {directives : List Directive}
      {rest : List Selection} {entry : IndexedFragment} {inner met : List Occurrence} (hn : name ∉ stack)
      (he : ctx.fragments.get? name = some entry) (ha : ctx.conditionHolds concrete entry.fragment.condition = true)
      (hi : Meets ctx concrete (stack ++ [name]) .spread entry.fragment.selections inner)
      (hr : Meets ctx concrete stack provenance rest met) :
      Meets ctx concrete stack provenance (.spread name directives :: rest) (inner ++ met)
  | spreadSkip {stack : List String} {provenance : Provenance} {name : String} {directives : List Directive}
      {rest : List Selection} {entry : IndexedFragment} {met : List Occurrence} (hn : name ∉ stack)
      (he : ctx.fragments.get? name = some entry) (ha : ctx.conditionHolds concrete entry.fragment.condition = false)
      (hr : Meets ctx concrete stack provenance rest met) :
      Meets ctx concrete stack provenance (.spread name directives :: rest) met

/-- the occurrences that tagged selection sets have at one level -/
inductive MeetsSets (ctx : ShapeContext) (concrete : String) : List TaggedSet → List Occurrence → Prop where
  | nil : MeetsSets ctx concrete [] []
  | cons {set : TaggedSet} {rest : List TaggedSet} {met more : List Occurrence}
      (hm : Meets ctx concrete [] set.provenance set.selections met) (hr : MeetsSets ctx concrete rest more) :
      MeetsSets ctx concrete (set :: rest) (met ++ more)

variable {ctx : ShapeContext} {concrete : String}

/-! ## Collecting enters the occurrences -/

/-- a fragment that opens is known and not entered -/
theorem openFragment_ok {stack : List String} {name : String} {entry : IndexedFragment}
    (h : ctx.openFragment stack name = .ok entry) : name ∉ stack ∧ ctx.fragments.get? name = some entry := by
  unfold openFragment at h
  split at h
  · cases h
  · rename_i hn
    refine ⟨by simpa using hn, ?_⟩
    unfold FragmentIndex.require at h
    split at h
    · rename_i found hf
      cases h
      exact hf
    · cases h

/-- a successful spread puts occurrences in front of those that follow -/
def SpreadEnters (ctx : ShapeContext) (concrete : String) (stack : List String)
    (expand : String → Table Slot → Except Error (Table Slot)) : Prop :=
  ∀ name out after, expand name out = .ok after → ∃ met, after = fillAll out met ∧
    ∀ provenance directives rest more, Meets ctx concrete stack provenance rest more →
      Meets ctx concrete stack provenance (.spread name directives :: rest) (met ++ more)

mutual

theorem gatherSelection_ok {stack : List String} {expand : String → Table Slot → Except Error (Table Slot)}
    (hx : SpreadEnters ctx concrete stack expand) {provenance : Provenance} :
    (selection : Selection) → {out after : Table Slot} →
    gatherSelection ctx expand concrete provenance out selection = .ok after →
    ∃ met, after = fillAll out met ∧ ∀ rest more, Meets ctx concrete stack provenance rest more →
      Meets ctx concrete stack provenance (selection :: rest) (met ++ more)
  | .field aliasName name _ _ selections, out, after, h => by
    rw [gatherSelection] at h
    split at h
    · cases h
    · rename_i content hc
      cases h
      exact ⟨[⟨⟨aliasName.getD name, name, selections⟩, provenance, content⟩], rfl, fun _ _ hr => .field hc hr⟩
  | .inline condition _ selections, out, after, h => by
    rw [gatherSelection] at h
    split at h
    · rename_i ha
      obtain ⟨met, hm, he⟩ := gatherSelections_ok hx selections h
      exact ⟨met, he, fun _ _ hr => .inline ha hm hr⟩
    · rename_i ha
      cases h
      exact ⟨[], rfl, fun _ _ hr => .inlineSkip (by simpa using ha) hr⟩
  | .spread name directives, out, after, h => by
    rw [gatherSelection] at h
    obtain ⟨met, he, hm⟩ := hx name out after h
    exact ⟨met, he, fun rest more hr => hm provenance directives rest more hr⟩

theorem gatherSelections_ok {stack : List String} {expand : String → Table Slot → Except Error (Table Slot)}
    (hx : SpreadEnters ctx concrete stack expand) {provenance : Provenance} :
    (selections : List Selection) → {out after : Table Slot} →
    gatherSelections ctx expand concrete provenance out selections = .ok after →
    ∃ met, Meets ctx concrete stack provenance selections met ∧ after = fillAll out met
  | [], out, after, h => by
    rw [gatherSelections] at h
    cases h
    exact ⟨[], .nil, rfl⟩
  | selection :: rest, out, after, h => by
    rw [gatherSelections] at h
    split at h
    · cases h
    · rename_i between hb
      obtain ⟨met, rfl, hm⟩ := gatherSelection_ok hx selection hb
      obtain ⟨more, hr, rfl⟩ := gatherSelections_ok hx rest h
      exact ⟨met ++ more, hm rest more hr, (fillAll_append out met more).symm⟩

end

theorem gatherSet_ok (fuel : Nat) {stack : List String} {set : TaggedSet} {out after : Table Slot}
    (h : ctx.gatherSet concrete fuel stack set out = .ok after) :
    ∃ met, Meets ctx concrete stack set.provenance set.selections met ∧ after = fillAll out met := by
  induction fuel generalizing stack set out after with
  | zero => cases h
  | succ fuel ih =>
    rw [gatherSet] at h
    refine gatherSelections_ok ?_ set.selections h
    intro name out after h
    dsimp only at h
    split at h
    · cases h
    · rename_i entry ho
      obtain ⟨hn, he⟩ := openFragment_ok ho
      split at h
      · rename_i ha
        obtain ⟨met, hm, hf⟩ := ih h
        exact ⟨met, hf, fun _ _ _ _ hr => .spread hn he ha hm hr⟩
      · rename_i ha
        cases h
        exact ⟨[], rfl, fun _ _ _ _ hr => .spreadSkip hn he (by simpa using ha) hr⟩

theorem foldlM_gatherSet_ok (fuel : Nat) (sets : List TaggedSet) {out after : Table Slot}
    (h : sets.foldlM (fun out set => ctx.gatherSet concrete fuel [] set out) out = .ok after) :
    ∃ met, MeetsSets ctx concrete sets met ∧ after = fillAll out met := by
  induction sets generalizing out with
  | nil =>
    cases h
    exact ⟨[], .nil, rfl⟩
  | cons set rest ih =>
    rw [List.foldlM_cons] at h
    cases hs : ctx.gatherSet concrete fuel [] set out with
    | error error =>
      rw [hs] at h
      cases h
    | ok between =>
      rw [hs] at h
      obtain ⟨met, hm, rfl⟩ := gatherSet_ok fuel hs
      obtain ⟨more, hr, rfl⟩ := ih h
      exact ⟨met ++ more, .cons hm hr, (fillAll_append out met more).symm⟩

/-- **Collecting enters the occurrences one after the other.** -/
theorem gather_ok {sets : List TaggedSet} {collected : Table Slot} (h : ctx.gather concrete sets = .ok collected) :
    ∃ met, MeetsSets ctx concrete sets met ∧ collected = fillAll .empty met :=
  foldlM_gatherSet_ok _ sets h

/-! ## What the occurrences are -/

/-- selections have the same occurrences below whatever fragments are entered -/
theorem Meets.unique {stack other : List String} {provenance : Provenance} {selections : List Selection}
    {met met' : List Occurrence} (h : Meets ctx concrete stack provenance selections met)
    (h' : Meets ctx concrete other provenance selections met') : met = met' := by
  induction h generalizing other met' with
  | nil =>
    cases h'
    rfl
  | field hc _ ih =>
    cases h' with
    | field hc' hr' =>
      rw [hc] at hc'
      cases hc'
      rw [ih hr']
  | inline ha _ _ ihi ihr =>
    cases h' with
    | inline _ hi' hr' => rw [ihi hi', ihr hr']
    | inlineSkip ha' _ => rw [ha] at ha'; cases ha'
  | inlineSkip ha _ ih =>
    cases h' with
    | inline ha' _ _ => rw [ha] at ha'; cases ha'
    | inlineSkip _ hr' => exact ih hr'
  | spread _ he ha _ _ ihi ihr =>
    cases h' with
    | spread _ he' _ hi' hr' =>
      rw [he] at he'
      cases he'
      rw [ihi hi', ihr hr']
    | spreadSkip _ he' ha' _ =>
      rw [he] at he'
      cases he'
      rw [ha] at ha'
      cases ha'
  | spreadSkip _ he ha _ ih =>
    cases h' with
    | spread _ he' ha' _ _ =>
      rw [he] at he'
      cases he'
      rw [ha] at ha'
      cases ha'
    | spreadSkip _ _ _ hr' => exact ih hr'

/-- selections that follow each other are met one after the other -/
theorem Meets.append {stack : List String} {provenance : Provenance} {selections more : List Selection}
    {met others : List Occurrence} (h : Meets ctx concrete stack provenance selections met)
    (h' : Meets ctx concrete stack provenance more others) :
    Meets ctx concrete stack provenance (selections ++ more) (met ++ others) := by
  induction h with
  | nil => exact h'
  | field hc _ ih => exact .field hc (ih h')
  | inline ha hi _ _ ihr =>
    rw [List.append_assoc]
    exact .inline ha hi (ihr h')
  | inlineSkip ha _ ih => exact .inlineSkip ha (ih h')
  | spread hn he ha hi _ _ ihr =>
    rw [List.append_assoc]
    exact .spread hn he ha hi (ihr h')
  | spreadSkip hn he ha _ ih => exact .spreadSkip hn he ha (ih h')

/-- each of the selections that are met is met by itself -/
theorem Meets.single {stack : List String} {provenance : Provenance} {selections : List Selection} {met : List Occurrence}
    (h : Meets ctx concrete stack provenance selections met) {selection : Selection} (hm : selection ∈ selections) :
    ∃ own, Meets ctx concrete stack provenance [selection] own := by
  induction h with
  | nil => cases hm
  | field hc _ ih =>
    rcases List.mem_cons.1 hm with rfl | hm
    · exact ⟨_, .field hc .nil⟩
    · exact ih hm
  | inline ha hi _ _ ih =>
    rcases List.mem_cons.1 hm with rfl | hm
    · exact ⟨_, .inline ha hi .nil⟩
    · exact ih hm
  | inlineSkip ha _ ih =>
    rcases List.mem_cons.1 hm with rfl | hm
    · exact ⟨_, .inlineSkip ha .nil⟩
    · exact ih hm
  | spread hn he ha hi _ _ ih =>
    rcases List.mem_cons.1 hm with rfl | hm
    · exact ⟨_, .spread hn he ha hi .nil⟩
    · exact ih hm
  | spreadSkip hn he ha _ ih =>
    rcases List.mem_cons.1 hm with rfl | hm
    · exact ⟨_, .spreadSkip hn he ha .nil⟩
    · exact ih hm

/-- what holds of an occurrence: its content is that of a field selection on the type -/
theorem Meets.content {stack : List String} {provenance : Provenance} {selections : List Selection}
    {met : List Occurrence} (h : Meets ctx concrete stack provenance selections met) :
    ∀ o ∈ met, ctx.fieldContent concrete o.provenance o.name o.selections = .ok o.content := by
  induction h with
  | nil => simp
  | field hc _ ih =>
    intro o ho
    rcases List.mem_cons.1 ho with rfl | ho
    · exact hc
    · exact ih o ho
  | inline _ _ _ ihi ihr => exact fun o ho => (List.mem_append.1 ho).elim (ihi o) (ihr o)
  | inlineSkip _ _ ih => exact ih
  | spread _ _ _ _ _ ihi ihr => exact fun o ho => (List.mem_append.1 ho).elim (ihi o) (ihr o)
  | spreadSkip _ _ _ _ ih => exact ih

/-- every set of a level is met by itself -/
theorem MeetsSets.exists_of_mem {sets : List TaggedSet} {met : List Occurrence} (h : MeetsSets ctx concrete sets met)
    {set : TaggedSet} (hs : set ∈ sets) : ∃ own, Meets ctx concrete [] set.provenance set.selections own := by
  induction h with
  | nil => cases hs
  | cons hm _ ih =>
    rcases List.mem_cons.1 hs with rfl | hs
    · exact ⟨_, hm⟩
    · exact ih hs

/-- what the sets have is what one of them has -/
theorem MeetsSets.exists_meets {sets : List TaggedSet} {met : List Occurrence} (h : MeetsSets ctx concrete sets met) :
    ∀ o ∈ met, ∃ set ∈ sets, ∃ inner, Meets ctx concrete [] set.provenance set.selections inner ∧ o ∈ inner := by
  induction h with
  | nil => simp
  | @cons set _ inner _ hm _ ih =>
    intro o ho
    rcases List.mem_append.1 ho with ho | ho
    · exact ⟨set, List.mem_cons_self, inner, hm, ho⟩
    · obtain ⟨other, hs, hrest⟩ := ih o ho
      exact ⟨other, List.mem_cons_of_mem _ hs, hrest⟩

theorem MeetsSets.content {sets : List TaggedSet} {met : List Occurrence} (h : MeetsSets ctx concrete sets met) :
    ∀ o ∈ met, ctx.fieldContent concrete o.provenance o.name o.selections = .ok o.content := by
  intro o ho
  obtain ⟨_, _, _, hm, ho⟩ := h.exists_meets o ho
  exact hm.content o ho

/-- a link collects the sub-selections of its own field selection -/
theorem fieldContent_link {provenance : Provenance} {name : String} {selections : SelectionSet} {field : Field}
    {sets : List TaggedSet} (h : ctx.fieldContent concrete provenance name selections = .ok (.link field sets)) :
    sets = [⟨selections, provenance⟩] := by
  unfold fieldContent at h
  split at h
  · cases h
  · split at h
    · cases h
    · split at h
      · cases h
      · cases h
        rfl

end ShapeContext

/-! ## The keys of collected fields -/

theorem eraseDups_append_cons_of_mem {key : String} {l m : List String} (h : key ∈ l) :
    (l ++ key :: m).eraseDups = (l ++ m).eraseDups := by
  rw [List.eraseDups_append, List.eraseDups_append, List.cons_removeAll]
  simp [h]

theorem eraseDups_of_nodup {l : List String} (h : l.Nodup) : l.eraseDups = l := by
  induction l with
  | nil => rfl
  | cons a l ih =>
    obtain ⟨ha, hl⟩ := List.nodup_cons.1 h
    have hf : l.filter (fun b => !b == a) = l := by
      rw [List.filter_eq_self]
      intro b hb
      have hne : b ≠ a := fun e => ha (e ▸ hb)
      simpa using hne
    rw [List.eraseDups_cons, hf, ih hl]

theorem keys_fillSlot (out : Table Slot) (key : String) (slot : Slot) :
    (fillSlot out key slot).keys = if key ∈ out.keys then out.keys else out.keys ++ [key] := by
  unfold fillSlot
  split <;> exact Table.keys_insert _ _ _

theorem get?_fillSlot (out : Table Slot) (key other : String) (slot : Slot) :
    (fillSlot out key slot).get? other =
      if other = key then some ((out.get? key).elim slot (·.merge slot)) else out.get? other := by
  unfold fillSlot
  split
  · rename_i hn
    rw [Table.get?_insert, hn]
    rfl
  · rename_i old ho
    rw [Table.get?_insert, ho]
    rfl

/-- **The keys are those of the occurrences, in the order of their first mention.** -/
theorem keys_fillAll (out : Table Slot) (met : List Occurrence) :
    (fillAll out met).keys = (out.keys ++ met.map (·.key)).eraseDups := by
  induction met generalizing out with
  | nil =>
    rw [List.map_nil, List.append_nil, eraseDups_of_nodup out.nodup_keys]
    rfl
  | cons o met ih =>
    show (fillAll (fillSlot out o.key o.slot) met).keys = _
    rw [ih, keys_fillSlot, List.map_cons]
    by_cases h : o.key ∈ out.keys
    · rw [if_pos h, eraseDups_append_cons_of_mem h]
    · rw [if_neg h, List.append_assoc]
      rfl

/-- **What merging preserves holds of every collected slot.** -/
theorem fillAll_invariant (P : String → Slot → Prop)
    (hmerge : ∀ key old new, P key old → P key new → P key (old.merge new)) (entered : List Occurrence) (out : Table Slot)
    (hout : ∀ key slot, out.get? key = some slot → P key slot) (hm : ∀ o ∈ entered, P o.key o.slot) :
    ∀ key slot, (fillAll out entered).get? key = some slot → P key slot := by
  induction entered generalizing out with
  | nil => exact hout
  | cons o entered ih =>
    refine ih (fillSlot out o.key o.slot) ?_ fun o' ho' => hm o' (List.mem_cons_of_mem _ ho')
    intro key slot h
    rw [get?_fillSlot] at h
    split at h
    · rename_i hk
      have hnew : P key o.slot := hk ▸ hm o List.mem_cons_self
      cases hg : out.get? o.key with
      | none =>
        rw [hg] at h
        cases h
        exact hnew
      | some old =>
        rw [hg] at h
        cases h
        exact hmerge key old o.slot (hout key old (hk ▸ hg)) hnew
    · exact hout key slot h

/-! ## The sub-selections of collected links -/

theorem prefer_cases (old new : Slot) : old.prefer new = old ∨ old.prefer new = new := by
  unfold Slot.prefer
  split
  · exact Or.inr rfl
  · exact Or.inl rfl

/-- selections of one composite field are joined, all others are not -/
theorem merge_cases (old new : Slot) :
    (∃ field sets other more, old.value = .link field sets ∧ new.value = .link other more ∧ field.name = other.name ∧
      old.merge new = ⟨if new.provenance = .inPlace then .inPlace else old.provenance, .link field (sets ++ more)⟩) ∨
    (old.merge new = old.prefer new ∧ ∀ field sets other more, old.value = .link field sets →
      new.value = .link other more → field.name ≠ other.name) := by
  unfold Slot.merge
  split
  · rename_i field sets other more ho hn
    split
    · rename_i hname
      exact .inl ⟨field, sets, other, more, ho, hn, hname, rfl⟩
    · rename_i hname
      refine .inr ⟨rfl, fun field' sets' other' more' ho' hn' => ?_⟩
      cases ho.symm.trans ho'
      cases hn.symm.trans hn'
      exact hname
  · rename_i hnot
    exact .inr ⟨rfl, fun field sets other more ho hn => absurd hn (hnot field sets other more ho)⟩

/-- a merged slot holds a link of one of its parts, or the sub-selections of both -/
theorem merge_link {old new : Slot} {field : Field} {sets : List TaggedSet} (h : (old.merge new).value = .link field sets) :
    old.value = .link field sets ∨ new.value = .link field sets ∨
      ∃ other before more, old.value = .link field before ∧ new.value = .link other more ∧ sets = before ++ more := by
  rcases merge_cases old new with ⟨f, before, other, more, ho, hn, -, hmerge⟩ | ⟨hmerge, -⟩
  · rw [hmerge] at h
    cases h
    exact Or.inr (Or.inr ⟨other, before, more, ho, hn, rfl⟩)
  · rcases prefer_cases old new with hp | hp <;> rw [hmerge, hp] at h
    · exact Or.inl h
    · exact Or.inr (Or.inl h)

/-- a merged slot holds a field without selections of one of its parts -/
theorem merge_leaf {old new : Slot} {field : Field} (h : (old.merge new).value = .leaf field) :
    old.value = .leaf field ∨ new.value = .leaf field := by
  rcases merge_cases old new with ⟨f, before, other, more, -, -, -, hmerge⟩ | ⟨hmerge, -⟩
  · rw [hmerge] at h
    cases h
  · rcases prefer_cases old new with hp | hp <;> rw [hmerge, hp] at h
    · exact Or.inl h
    · exact Or.inr h

/-- the sub-selections of a link are those of occurrences, of at least one -/
def LinksFrom (met : List Occurrence) (slot : Slot) : Prop :=
  ∀ field sets, slot.value = .link field sets → sets ≠ [] ∧ ∀ set ∈ sets, ∃ o ∈ met, o.tagged = set

theorem LinksFrom.merge {met : List Occurrence} {old new : Slot} (ho : LinksFrom met old) (hn : LinksFrom met new) :
    LinksFrom met (old.merge new) := by
  intro field sets h
  rcases merge_link h with h | h | ⟨other, before, more, hb, hm, rfl⟩
  · exact ho field sets h
  · exact hn field sets h
  · obtain ⟨hne, hbefore⟩ := ho field before hb
    obtain ⟨-, hmore⟩ := hn other more hm
    exact ⟨by simp [hne], fun set hs => (List.mem_append.1 hs).elim (hbefore set) (hmore set)⟩

theorem linksFrom_fillAll {met : List Occurrence} (entered : List Occurrence) (out : Table Slot)
    (hout : ∀ key slot, out.get? key = some slot → LinksFrom met slot) (hm : ∀ o ∈ entered, LinksFrom met o.slot) :
    ∀ key slot, (fillAll out entered).get? key = some slot → LinksFrom met slot :=
  fillAll_invariant (fun _ slot => LinksFrom met slot) (fun _ _ _ => .merge) entered out hout hm

/-- the key is free, or holds a link of the field with these sub-selections -/
def HoldsLink (out : Table Slot) (key : String) (field : Field) (sets : List TaggedSet) : Prop :=
  (sets = [] ∧ out.get? key = none) ∨ ∃ provenance, out.get? key = some ⟨provenance, .link field sets⟩

theorem HoldsLink.fillSlot {out : Table Slot} {key : String} {field : Field} {sets : List TaggedSet}
    (h : HoldsLink out key field sets) (provenance : Provenance) (more : List TaggedSet) :
    HoldsLink (fillSlot out key ⟨provenance, .link field more⟩) key field (sets ++ more) := by
  right
  rw [get?_fillSlot, if_pos rfl]
  rcases h with ⟨rfl, hn⟩ | ⟨old, ho⟩
  · exact ⟨provenance, by rw [hn]; rfl⟩
  · rw [ho]
    exact ⟨_, by simp only [Option.elim, Slot.merge, if_true]; rfl⟩

/-- **Selections of one field are joined.** When all occurrences of a key are selections of one composite field, the key
holds the sub-selections of all of them, in order. -/
theorem holdsLink_fillAll {key : String} {field : Field} (met : List Occurrence) (out : Table Slot)
    (sets : List TaggedSet) (h : HoldsLink out key field sets)
    (hm : ∀ o ∈ met, o.key = key → o.content = .link field [o.tagged]) :
    HoldsLink (fillAll out met) key field (sets ++ (met.filter (·.key = key)).map (·.tagged)) := by
  induction met generalizing out sets with
  | nil => simpa [fillAll] using h
  | cons o met ih =>
    have hrest : ∀ o ∈ met, o.key = key → o.content = .link field [o.tagged] :=
      fun o' ho' => hm o' (List.mem_cons_of_mem _ ho')
    show HoldsLink (fillAll (GraphGen.fillSlot out o.key o.slot) met) key field _
    by_cases hk : o.key = key
    · have hslot : o.slot = ⟨o.provenance, .link field [o.tagged]⟩ := by
        rw [Occurrence.slot, hm o List.mem_cons_self hk]
      have hnext := ih _ _ (h.fillSlot o.provenance [o.tagged]) hrest
      rw [hslot, hk]
      rw [List.append_assoc] at hnext
      simpa [List.filter_cons, hk] using hnext
    · have hkeep : HoldsLink (GraphGen.fillSlot out o.key o.slot) key field sets := by
        unfold HoldsLink
        rw [get?_fillSlot, if_neg (Ne.symm hk)]
        exact h
      simpa [List.filter_cons, hk] using ih _ _ hkeep hrest

theorem get?_fillAll_link {key : String} {field : Field} {met : List Occurrence} (hk : ∃ o ∈ met, o.key = key)
    (hm : ∀ o ∈ met, o.key = key → o.content = .link field [o.tagged]) :
    ∃ provenance, (fillAll .empty met).get? key =
      some ⟨provenance, .link field ((met.filter (·.key = key)).map (·.tagged))⟩ := by
  have hstart : HoldsLink .empty key field [] := Or.inl ⟨rfl, rfl⟩
  rcases holdsLink_fillAll met .empty [] hstart hm with ⟨hnil, -⟩ | h
  · obtain ⟨o, ho, hk⟩ := hk
    have hmem : o.tagged ∈ (met.filter (·.key = key)).map (·.tagged) :=
      List.mem_map_of_mem (List.mem_filter.2 ⟨ho, by simpa using hk⟩)
    rw [List.nil_append] at hnil
    rw [hnil] at hmem
    cases hmem
  · exact h

namespace ShapeContext

variable {ctx : ShapeContext} {concrete : String}

/-- **The sub-selections of a collected link come from occurrences.** -/
theorem gather_linksFrom {sets : List TaggedSet} {met : List Occurrence} (hm : MeetsSets ctx concrete sets met)
    {key : String} {slot : Slot} (h : (key, slot) ∈ (fillAll .empty met).entries) : LinksFrom met slot := by
  refine linksFrom_fillAll met .empty (fun key slot h => ?_) ?_ key slot (Table.get?_eq_some_iff.2 h)
  · cases h
  · intro o ho field links hl
    have hc := hm.content o ho
    rw [show o.content = .link field links from hl] at hc
    rw [fieldContent_link hc]
    refine ⟨by simp, fun set hs => ⟨o, ho, ?_⟩⟩
    rw [List.mem_singleton] at hs
    rw [hs]
    rfl

end ShapeContext

end GraphGen
