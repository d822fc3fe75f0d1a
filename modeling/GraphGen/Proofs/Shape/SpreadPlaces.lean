/-
The place of a fragment spread among the other selections of its level.

Moving spreads shuffles the occurrences of every key: those in place keep their order, and those that come from spreads go past
them and, where a spread stands in an inline fragment, past each other. What stands under a key is what its own occurrences make
of it (`slotOf`, `get?_fillAll`).
- `inPlace_of_shuffled`: a key with an occurrence in place goes to the same field, since it goes to the first one in place.
- `Steady`: the occurrences of a key that come from spreads all select the field that it goes to, or none of them does, or that
  field stands in place and has no sub-selections; or they all come in the same order. Then the key holds the same field, with
  the same sub-selections, shuffled (`value_of_steady`).
- Where fragments select different fields under a key, the first one that is met wins, and the place of a spread can decide
  which that is.

Sub-selections that are shuffled have shuffled occurrences again. So when the keys are steady on every level (`Undisputed`), the
shapes agree up to the order of their fields (`TypeShape.Agree`).

Main results:
- `spreads_moved`: what moving spreads does not change.
- `spread_decides`: a key that goes to another field when a spread is moved.
-/
import GraphGen.Proofs.Shape.SpreadsFirst

namespace GraphGen

/-! ## The slot of a key -/

/-- what stands under a key with these occurrences -/
def slotOf (occurrences : List Occurrence) : Option Slot :=
  occurrences.foldl (fun held o => some (held.elim o.slot (·.merge o.slot))) none

theorem slotOf_snoc (occurrences : List Occurrence) (o : Occurrence) :
    slotOf (occurrences ++ [o]) = some ((slotOf occurrences).elim o.slot (·.merge o.slot)) := by
  simp [slotOf]

theorem eq_nil_of_slotOf {occurrences : List Occurrence} (h : slotOf occurrences = none) : occurrences = [] := by
  cases occurrences using List.reverseRecOn with
  | nil => rfl
  | append_singleton occurrences o =>
    rw [slotOf_snoc] at h
    cases h

/-- **A key holds what its own occurrences make of it.** -/
theorem get?_fillAll (met : List Occurrence) (key : String) :
    (fillAll .empty met).get? key = slotOf (occurrencesOf key met) := by
  induction met using List.reverseRecOn with
  | nil => rfl
  | append_singleton met o ih =>
    rw [fillAll_append]
    show (fillSlot (fillAll .empty met) o.key o.slot).get? key = _
    rw [get?_fillSlot]
    by_cases hk : key = o.key
    · subst hk
      have hocc : occurrencesOf o.key (met ++ [o]) = occurrencesOf o.key met ++ [o] := by simp [occurrencesOf]
      rw [if_pos rfl, hocc, slotOf_snoc, ih]
    · have hocc : occurrencesOf key (met ++ [o]) = occurrencesOf key met := by simp [occurrencesOf, Ne.symm hk]
      rw [if_neg hk, hocc, ih]

theorem settles_of_slotOf {occurrences : List Occurrence} (hc : Consistent occurrences) {slot : Slot}
    (h : slotOf occurrences = some slot) : ∃ winner, slot.Settles occurrences winner := by
  induction occurrences using List.reverseRecOn generalizing slot with
  | nil => cases h
  | append_singleton occurrences o ih =>
    rw [slotOf_snoc] at h
    cases hheld : slotOf occurrences with
    | none =>
      rw [hheld] at h
      cases h
      rw [eq_nil_of_slotOf hheld]
      exact ⟨o, settles_single (hc.own o (by simp))⟩
    | some held =>
      rw [hheld] at h
      cases h
      obtain ⟨winner, hsettles⟩ := ih (hc.subset (List.subset_append_left _ _)) hheld
      exact ⟨nextWinner winner o, hsettles.merge hc⟩

/-- a further occurrence is joined when all that come from spreads select the field that the key goes to -/
theorem Slot.Settles.value_merge {slot : Slot} {occurrences : List Occurrence} {winner o : Occurrence}
    (h : slot.Settles occurrences winner) (hc : Consistent (occurrences ++ [o]))
    (hv : slot.value = winner.content.withSets (selecting winner.name occurrences))
    (hname : (nextWinner winner o).name = winner.name) :
    (slot.merge o.slot).value =
      (nextWinner winner o).content.withSets (selecting (nextWinner winner o).name (occurrences ++ [o])) := by
  have hw : winner ∈ occurrences ++ [o] := List.mem_append_left _ (mem_of_winner? h.wins)
  have ho : o ∈ occurrences ++ [o] := List.mem_append_right _ List.mem_cons_self
  have hnext : nextWinner winner o ∈ occurrences ++ [o] := by
    rcases nextWinner_cases winner o with he | he <;> rw [he] <;> assumption
  rw [hc.same _ hnext _ hw hname, hname, selecting_append]
  rcases merge_cases slot o.slot with ⟨field, before, other, more, hold, hnew, hjoined, hmerge⟩ | ⟨hmerge, hapart⟩
  · obtain ⟨hfield, -⟩ := h.link hold
    have hsame : winner.name = o.name := by
      rw [← h.fieldName (hc.subset (List.subset_append_left _ _)), ← hc.named o ho, hold, show o.content = _ from hnew]
      exact hjoined
    have hown := hc.own o ho
    rw [hc.same o ho winner hw hsame.symm, hfield, show o.content = _ from hnew] at hown
    rw [hold, hfield] at hv
    cases hown
    cases hv
    rw [hmerge, hfield, hsame, selecting_self]
  · by_cases hsame : o.name = winner.name
    · have hvalue := h.value_of_apart hc hsame hapart
      rw [hmerge]
      rcases prefer_cases slot o.slot with hp | hp <;> rw [hp]
      · exact hvalue _
      · have hown := hc.own o ho
        rw [hc.same o ho winner hw hsame, ← hvalue] at hown
        rw [← hvalue, hown]
        rfl
    · have hkept : ¬ (winner.provenance = .spread ∧ o.provenance = .inPlace) := by
        intro hr
        rw [nextWinner, if_pos hr] at hname
        exact hsame hname
      rw [hmerge, prefer_old (by rwa [h.provenance]), hv, selecting_other hsame, List.append_nil]

/-- **All selections of the field are joined** when those from spreads select no other field. -/
theorem value_of_slotOf {occurrences : List Occurrence} (hc : Consistent occurrences) {slot : Slot} {winner : Occurrence}
    (h : slotOf occurrences = some slot) (hw : winner? occurrences = some winner)
    (hall : ∀ o ∈ occurrences, o.provenance = .spread → o.name = winner.name) :
    slot.value = winner.content.withSets (selecting winner.name occurrences) := by
  induction occurrences using List.reverseRecOn generalizing slot winner with
  | nil => cases h
  | append_singleton occurrences o ih =>
    have ho : o ∈ occurrences ++ [o] := by simp
    rw [slotOf_snoc] at h
    cases hheld : slotOf occurrences with
    | none =>
      rw [hheld] at h
      cases h
      rw [eq_nil_of_slotOf hheld, List.nil_append] at hw ⊢
      rw [winner?_single] at hw
      cases hw
      rw [selecting_self]
      exact (hc.own o ho).symm
    | some held =>
      rw [hheld] at h
      cases h
      have hbefore := hc.subset (List.subset_append_left occurrences [o])
      obtain ⟨former, hsettles⟩ := settles_of_slotOf hbefore hheld
      cases hw.symm.trans (winner?_snoc hsettles.wins o)
      -- the former winner is the winner, or it comes from a spread
      have hname : (nextWinner former o).name = former.name := by
        rcases Classical.em (former.provenance = .spread) with hp | hp
        · exact (hall former (List.mem_append_left _ (mem_of_winner? hsettles.wins)) hp).symm
        · rw [nextWinner, if_neg fun hr => hp hr.1]
      refine hsettles.value_merge hc (ih hbefore hheld hsettles.wins fun other hother hp => ?_) hname
      rw [← hname]
      exact hall other (List.mem_append_left _ hother) hp

/-! ## Shuffled occurrences of a key -/

/-- the occurrences of a key that come from spreads all select the field that it goes to, or none of them does, or that field
stands in place and has no sub-selections; or all occurrences come in the same order -/
def Steady (occurrences others : List Occurrence) : Prop :=
  occurrences = others ∨ ∃ winner, winner? occurrences = some winner ∧
    ((∀ o ∈ occurrences, o.provenance = .spread → o.name = winner.name) ∨
      (∀ o ∈ occurrences, o.provenance = .spread → o.name ≠ winner.name) ∨
      (winner.provenance = .inPlace ∧ ∀ field sets, winner.content ≠ .link field sets))

section Shuffled

variable {occurrences others : List Occurrence}

/-- the first occurrence in place stays the first -/
theorem winner?_of_shuffled (h : Shuffled (·.provenance) occurrences others) {winner : Occurrence}
    (hw : winner? occurrences = some winner) (hp : winner.provenance = .inPlace) : winner? others = some winner := by
  have hfirst : occurrences.find? (·.provenance = .inPlace) = some winner := by
    rcases Option.or_eq_some_iff.1 hw with hf | ⟨hnone, hh⟩
    · exact hf
    · exact absurd hp (by simpa using List.find?_eq_none.1 hnone winner (List.mem_of_mem_head? hh))
  have hsame : others.find? (·.provenance = .inPlace) = some winner := by
    rw [← List.head?_filter, ← h.inPlace, List.head?_filter]
    exact hfirst
  rw [winner?, hsame]
  rfl

theorem provenance_of_shuffled (h : Shuffled (·.provenance) occurrences others) {winner winner' : Occurrence}
    (hw : winner? occurrences = some winner) (hw' : winner? others = some winner') :
    winner.provenance = winner'.provenance := by
  cases hp : winner.provenance with
  | inPlace =>
    cases hw'.symm.trans (winner?_of_shuffled h hw hp)
    exact hp.symm
  | spread =>
    cases hp' : winner'.provenance with
    | spread => rfl
    | inPlace =>
      cases hw.symm.trans (winner?_of_shuffled h.symm hw' hp')
      exact hp.symm.trans hp'

/-- **A key with an occurrence in place goes to the same field.** -/
theorem inPlace_of_shuffled (hc : Consistent occurrences) (h : Shuffled (·.provenance) occurrences others) {slot slot' : Slot}
    (hs : slotOf occurrences = some slot) (hs' : slotOf others = some slot') :
    slot.provenance = slot'.provenance ∧
      (slot.provenance = .inPlace → slot.value.withSets [] = slot'.value.withSets []) := by
  obtain ⟨winner, hsettles⟩ := settles_of_slotOf hc hs
  obtain ⟨winner', hsettles'⟩ := settles_of_slotOf (hc.subset h.perm.symm.subset) hs'
  rw [hsettles.provenance, hsettles'.provenance]
  refine ⟨provenance_of_shuffled h hsettles.wins hsettles'.wins, fun hp => ?_⟩
  cases hsettles'.wins.symm.trans (winner?_of_shuffled h hsettles.wins hp)
  obtain ⟨sets, hvalue, -⟩ := hsettles.content
  obtain ⟨sets', hvalue', -⟩ := hsettles'.content
  rw [hvalue, hvalue', SlotContent.withSets_withSets, SlotContent.withSets_withSets]

/-- the same field, with shuffled sub-selections -/
def SlotContent.Shuffles (value value' : SlotContent) : Prop :=
  ∃ content : SlotContent, ∃ sets sets', value = content.withSets sets ∧ value' = content.withSets sets' ∧
    Shuffled (·.provenance) sets sets'

theorem SlotContent.Shuffles.refl (value : SlotContent) : value.Shuffles value := by
  cases value with
  | typename => exact ⟨.typename, [], [], rfl, rfl, .refl _⟩
  | leaf field => exact ⟨.leaf field, [], [], rfl, rfl, .refl _⟩
  | link field sets => exact ⟨.link field sets, sets, sets, rfl, rfl, .refl _⟩

/-- a field without sub-selections is the same whatever was joined -/
theorem withSets_of_not_link {content : SlotContent} (h : ∀ field sets, content ≠ .link field sets) (sets : List TaggedSet) :
    content.withSets sets = content := by
  cases content with
  | typename => rfl
  | leaf field => rfl
  | link field own => exact absurd rfl (h field own)

/-- when the selections from spreads select other fields, the key has the sub-selections of those in place -/
theorem Slot.Settles.value_of_apart_from_spreads {slot : Slot} {winner : Occurrence} (h : slot.Settles occurrences winner)
    (hnone : ∀ o ∈ occurrences, o.provenance = .spread → o.name ≠ winner.name) :
    slot.value = winner.content.withSets (selecting winner.name (standing occurrences)) := by
  obtain ⟨sets, hvalue, hstanding, hselecting⟩ := h.content
  have hsame : selecting winner.name occurrences = selecting winner.name (standing occurrences) := by
    unfold selecting standing
    rw [List.filter_filter]
    refine congrArg (List.map _) (List.filter_congr fun o ho => ?_)
    cases hp : o.provenance with
    | inPlace => simp
    | spread => simp [hnone o ho hp]
  rw [hsame] at hselecting
  rw [hvalue, hselecting.antisymm hstanding]

/-- **A steady key holds the same field, with the same sub-selections, shuffled.** -/
theorem value_of_steady (hc : Consistent occurrences) (h : Shuffled (·.provenance) occurrences others)
    (hsteady : Steady occurrences others) {slot slot' : Slot} (hs : slotOf occurrences = some slot)
    (hs' : slotOf others = some slot') : slot.value.Shuffles slot'.value := by
  rcases hsteady with rfl | ⟨winner, hw, hcase⟩
  · cases hs.symm.trans hs'
    exact .refl _
  obtain ⟨_, hsettles⟩ := settles_of_slotOf hc hs
  cases hw.symm.trans hsettles.wins
  have hc' := hc.subset h.perm.symm.subset
  obtain ⟨winner', hsettles'⟩ := settles_of_slotOf hc' hs'
  have hsamePlace : winner.provenance = .inPlace → winner' = winner := fun hp =>
    Option.some.inj (hsettles'.wins.symm.trans (winner?_of_shuffled h hw hp))
  rcases hcase with hall | hnone | ⟨hp, hplain⟩
  · have hname : winner'.name = winner.name := by
      cases hp : winner.provenance with
      | inPlace => rw [hsamePlace hp]
      | spread =>
        rw [provenance_of_shuffled h hw hsettles'.wins] at hp
        exact hall winner' (h.perm.symm.subset (mem_of_winner? hsettles'.wins)) hp
    refine ⟨winner.content, _, _, value_of_slotOf hc hs hw hall, ?_, (h.filter (·.name = winner.name)).map _ fun _ => rfl⟩
    rw [value_of_slotOf hc' hs' hsettles'.wins fun o ho hp => hname ▸ hall o (h.perm.symm.subset ho) hp, hname]
    exact hc.same _ (h.perm.symm.subset (mem_of_winner? hsettles'.wins)) _ (mem_of_winner? hw) hname _
  · have hp : winner.provenance = .inPlace := by
      cases hp : winner.provenance with
      | inPlace => rfl
      | spread => exact absurd rfl (hnone winner (mem_of_winner? hw) hp)
    cases hsamePlace hp
    have hplace : standing occurrences = standing others := h.inPlace
    rw [hsettles.value_of_apart_from_spreads hnone,
      hsettles'.value_of_apart_from_spreads fun o ho => hnone o (h.perm.symm.subset ho), hplace]
    exact .refl _
  · cases hsamePlace hp
    obtain ⟨sets, hvalue, -⟩ := hsettles.content
    obtain ⟨sets', hvalue', -⟩ := hsettles'.content
    rw [hvalue, hvalue', withSets_of_not_link hplain, withSets_of_not_link hplain]
    exact .refl _

end Shuffled

/-! ## With the spreads in front -/

namespace SlotContent

@[simp] theorem fieldName_arranged (content : SlotContent) : content.arranged.fieldName = content.fieldName := by
  cases content <;> rfl

@[simp] theorem withSets_arranged (content : SlotContent) (sets : List TaggedSet) :
    content.arranged.withSets sets = content.withSets sets := by
  cases content <;> rfl

theorem arranged_withSets (content : SlotContent) (sets : List TaggedSet) :
    (content.withSets sets).arranged = content.withSets (sets.map TaggedSet.arranged) := by
  cases content <;> rfl

/-- the same field, with rearranged sub-selections -/
inductive Rearranged : SlotContent → SlotContent → Prop where
  | typename : Rearranged .typename .typename
  | leaf (field : Field) : Rearranged (.leaf field) (.leaf field)
  | link (field : Field) {sets others : List TaggedSet} (h : GraphGen.Rearranged sets others) :
      Rearranged (.link field sets) (.link field others)

theorem rearranged_of_shuffles {value value' : SlotContent} (h : value.arranged.Shuffles value'.arranged) :
    value.Rearranged value' := by
  obtain ⟨content, sets, sets', hv, hv', hshuffled⟩ := h
  cases content with
  | typename =>
    cases value <;> cases hv
    cases value' <;> cases hv'
    exact .typename
  | leaf field =>
    cases value <;> cases hv
    cases value' <;> cases hv'
    exact .leaf field
  | link field own =>
    cases value <;> cases hv
    cases value' <;> cases hv'
    exact .link field hshuffled

theorem Rearranged.typename_iff {value value' : SlotContent} (h : value.Rearranged value') :
    value = .typename ↔ value' = .typename := by
  cases h <;> simp

end SlotContent

/-- the slot, with the spreads of its sub-selections in front -/
def Slot.arranged (slot : Slot) : Slot := ⟨slot.provenance, slot.value.arranged⟩

theorem Slot.arranged_prefer (old new : Slot) : (old.prefer new).arranged = old.arranged.prefer new.arranged :=
  apply_ite Slot.arranged _ new old

theorem Slot.arranged_merge (old new : Slot) : (old.merge new).arranged = old.arranged.merge new.arranged := by
  obtain ⟨provenance, value⟩ := old
  obtain ⟨provenance', value'⟩ := new
  cases value with
  | typename => exact arranged_prefer _ _
  | leaf field => exact arranged_prefer _ _
  | link field sets =>
    cases value' with
    | typename => exact arranged_prefer _ _
    | leaf other => exact arranged_prefer _ _
    | link other more =>
      by_cases hname : field.name = other.name
      · simp only [merge, arranged, SlotContent.arranged, hname, if_true, List.map_append]
        rfl
      · simpa [merge, hname, arranged, SlotContent.arranged] using arranged_prefer _ _

theorem slotOf_arranged (occurrences : List Occurrence) :
    slotOf (occurrences.map Occurrence.arranged) = (slotOf occurrences).map Slot.arranged := by
  induction occurrences using List.reverseRecOn with
  | nil => rfl
  | append_singleton occurrences o ih =>
    rw [List.map_append, List.map_singleton, slotOf_snoc, slotOf_snoc, ih]
    cases slotOf occurrences with
    | none => rfl
    | some held => exact congrArg some (held.arranged_merge o.slot).symm

theorem occurrencesOf_arranged (key : String) (met : List Occurrence) :
    occurrencesOf key (met.map Occurrence.arranged) = (occurrencesOf key met).map Occurrence.arranged := by
  rw [occurrencesOf, List.filter_map]
  rfl

theorem Consistent.arranged {met : List Occurrence} (h : Consistent met) : Consistent (met.map Occurrence.arranged) where
  named := by
    rw [List.forall_mem_map]
    intro o ho
    exact (o.content.fieldName_arranged).trans (h.named o ho)
  own := by
    rw [List.forall_mem_map]
    intro o ho
    calc o.arranged.content.withSets [o.arranged.tagged]
        = o.content.withSets [o.tagged.arranged] := o.content.withSets_arranged _
      _ = (o.content.withSets [o.tagged]).arranged := (o.content.arranged_withSets [o.tagged]).symm
      _ = o.arranged.content := by rw [h.own o ho]; rfl
  same := by
    simp only [List.forall_mem_map]
    intro o ho other hother hname sets
    calc o.arranged.content.withSets sets = o.content.withSets sets := o.content.withSets_arranged sets
      _ = other.content.withSets sets := h.same o ho other hother hname sets
      _ = other.arranged.content.withSets sets := (other.content.withSets_arranged sets).symm

/-! ## Collected fields -/

/-- collected fields of one type: the keys are the same, and a key that a selection in place has goes to the same field -/
structure KeysAgree (collected collected' : Table Slot) : Prop where
  perm : collected.keys.Perm collected'.keys
  inPlace : ∀ key slot slot', collected.get? key = some slot → collected'.get? key = some slot' →
    slot.provenance = slot'.provenance ∧
      (slot.provenance = .inPlace → slot.value.withSets [] = slot'.value.withSets [])

theorem mem_keys_fillAll {met : List Occurrence} {key : String} :
    key ∈ (fillAll .empty met).keys ↔ key ∈ met.map (·.key) := by
  rw [keys_fillAll, List.mem_eraseDups]
  rfl

section

variable {met met' : List Occurrence} {key : String} {slot slot' : Slot}

/-- the occurrences of a key are shuffled with all others -/
theorem occurrencesOf_shuffled (h : Shuffled (·.provenance) (met.map Occurrence.arranged) (met'.map Occurrence.arranged))
    (key : String) : Shuffled (·.provenance) ((occurrencesOf key met).map Occurrence.arranged)
      ((occurrencesOf key met').map Occurrence.arranged) := by
  rw [← occurrencesOf_arranged, ← occurrencesOf_arranged]
  exact h.filter _

theorem slotOf_of_get? (h : (fillAll .empty met).get? key = some slot) :
    slotOf ((occurrencesOf key met).map Occurrence.arranged) = some slot.arranged := by
  rw [slotOf_arranged, ← get?_fillAll, h]
  rfl

theorem consistent_occurrencesOf (hc : Consistent met) (key : String) :
    Consistent ((occurrencesOf key met).map Occurrence.arranged) :=
  (hc.subset (List.filter_subset_self _)).arranged

/-- **Shuffled occurrences have the same keys,** and those that some occurrence in place has go to the same fields. -/
theorem keysAgree_of_shuffled (hc : Consistent met)
    (h : Shuffled (·.provenance) (met.map Occurrence.arranged) (met'.map Occurrence.arranged)) :
    KeysAgree (fillAll .empty met) (fillAll .empty met') where
  perm := by
    have hkeys := h.perm.map (·.key)
    rw [List.map_map, List.map_map] at hkeys
    rw [List.perm_ext_iff_of_nodup (Table.nodup_keys _) (Table.nodup_keys _)]
    intro key
    rw [mem_keys_fillAll, mem_keys_fillAll]
    exact hkeys.mem_iff
  inPlace := by
    intro key slot slot' hs hs'
    obtain ⟨hp, hv⟩ := inPlace_of_shuffled (consistent_occurrencesOf hc key) (occurrencesOf_shuffled h key)
      (slotOf_of_get? hs) (slotOf_of_get? hs')
    refine ⟨hp, fun hplace => ?_⟩
    rw [← SlotContent.withSets_arranged, ← SlotContent.withSets_arranged slot'.value]
    exact hv hplace

/-- a steady key has the same field, with rearranged sub-selections -/
theorem rearranged_of_steady (hc : Consistent met)
    (h : Shuffled (·.provenance) (met.map Occurrence.arranged) (met'.map Occurrence.arranged))
    (hsteady : Steady ((occurrencesOf key met).map Occurrence.arranged) ((occurrencesOf key met').map Occurrence.arranged))
    (hs : (fillAll .empty met).get? key = some slot) (hs' : (fillAll .empty met').get? key = some slot') :
    slot.value.Rearranged slot'.value :=
  SlotContent.rearranged_of_shuffles (value_of_steady (consistent_occurrencesOf hc key) (occurrencesOf_shuffled h key)
    hsteady (slotOf_of_get? hs) (slotOf_of_get? hs'))

end

/-! ## Shapes that agree -/

mutual

/-- shapes on one type with the same fields, perhaps in another order -/
inductive TypeShape.Agree : TypeShape → TypeShape → Prop where
  | mk {type : String} {fields arranged others : List ShapeField} (hf : List.Forall₂ ShapeField.Agree fields arranged)
      (hp : arranged.Perm others) : TypeShape.Agree (.mk type fields) (.mk type others)

/-- the same field under the same key, with nested shapes that agree -/
inductive ShapeField.Agree : ShapeField → ShapeField → Prop where
  | typename (key : String) (names : List String) (optional : Bool) :
      ShapeField.Agree (.typename key names optional) (.typename key names optional)
  | leaf (key : String) (field : Field) : ShapeField.Agree (.leaf key field) (.leaf key field)
  | link (key : String) (field : Field) {shapes others : List TypeShape} (h : List.Forall₂ TypeShape.Agree shapes others) :
      ShapeField.Agree (.link key field shapes) (.link key field others)

end

/-- slots that stand under one key in two tables -/
def Beside (collected collected' : Table Slot) (slot slot' : Slot) : Prop :=
  ∃ key, collected.get? key = some slot ∧ collected'.get? key = some slot'

/-- **Tables with the same keys, side by side:** the entries of the second can be put in the order of the first. -/
theorem exists_beside {collected collected' : Table Slot} (h : collected.keys.Perm collected'.keys) :
    ∃ between, between.Perm collected'.entries ∧
      List.Forall₂ (fun entry entry' => entry.1 = entry'.1 ∧ Beside collected collected' entry.2 entry'.2)
        collected.entries between := by
  have hnamed : List.Forall₂ (fun key (entry : String × Slot) => key = entry.1) collected'.keys collected'.entries := by
    rw [Table.keys, entryKeys, List.forall₂_map_left_iff, List.forall₂_same]
    exact fun _ _ => rfl
  obtain ⟨between, hbetween, hperm⟩ := List.perm_comp_forall₂ h hnamed
  have hkeys : List.Forall₂ (fun key key' : String => key = key') collected.keys (entryKeys between) := by
    rw [entryKeys, List.forall₂_map_right_iff]
    exact hbetween
  refine ⟨between, hperm, forall₂_entries (R := Beside collected collected') (List.forall₂_eq_eq_eq ▸ hkeys) ?_⟩
  intro entry he entry' he' hk
  refine ⟨entry.1, Table.get?_eq_some_iff.2 he, ?_⟩
  rw [hk]
  exact Table.get?_eq_some_iff.2 (hperm.subset he')

namespace ShapeContext

variable {ctx : ShapeContext} {concrete : String} {sets others : List TaggedSet} {document : SchemaDocument}

/-! ## One level -/

/-- the type name is added in front of both or of neither, when the slots of the same keys are rearranged -/
theorem implicitTypename_of_beside {collected collected' : Table Slot} (hk : collected.keys.Perm collected'.keys)
    (hv : ∀ slot slot', Beside collected collected' slot slot' → slot.value.Rearranged slot'.value) :
    ctx.implicitTypename concrete collected = ctx.implicitTypename concrete collected' := by
  obtain ⟨between, hperm, hentries⟩ := exists_beside hk
  have hselected : collected.entries.any (·.2.isTypename) = between.any (·.2.isTypename) := by
    apply any_eq_of_forall₂ hentries
    rintro entry entry' ⟨-, hbeside⟩
    rw [Bool.eq_iff_iff, Slot.isTypename_iff, Slot.isTypename_iff]
    exact (hv _ _ hbeside).typename_iff
  rw [implicitTypename_eq, implicitTypename_eq, hselected, hperm.any_eq]

theorem implicitTypename_agree (ctx : ShapeContext) (concrete : String) (collected : Table Slot) :
    List.Forall₂ ShapeField.Agree (ctx.implicitTypename concrete collected) (ctx.implicitTypename concrete collected) := by
  rw [implicitTypename_eq]
  split
  · exact .nil
  · exact .cons (.typename _ _ _) .nil

/-- entries under one key whose fields have rearranged sub-selections are written as fields that agree -/
theorem fieldResult_agree {descend : String → List TaggedSet → Except Error (List TypeShape)} {entry entry' : String × Slot}
    (hk : entry.1 = entry'.1) (hv : entry.2.value.Rearranged entry'.2.value)
    (hlinks : ∀ field links links', entry.2.value = .link field links → entry'.2.value = .link field links' →
      Rearranged links links' → ∀ shapes shapes', descend field.type.name links = .ok shapes →
      descend field.type.name links' = .ok shapes' → List.Forall₂ TypeShape.Agree shapes shapes')
    {field field' : ShapeField} (hf : ctx.fieldResult descend concrete entry = .ok field)
    (hf' : ctx.fieldResult descend concrete entry' = .ok field') : field.Agree field' := by
  obtain ⟨key, provenance, value⟩ := entry
  obtain ⟨key', provenance', value'⟩ := entry'
  cases hk
  cases hv with
  | typename =>
    cases hf
    cases hf'
    exact .typename key _ false
  | leaf schemaField =>
    cases hf
    cases hf'
    exact .leaf key schemaField
  | link schemaField h =>
    obtain ⟨shapes, hshapes, rfl⟩ := map_eq_ok_iff.1 hf
    obtain ⟨shapes', hshapes', rfl⟩ := map_eq_ok_iff.1 hf'
    exact .link key schemaField (hlinks schemaField _ _ rfl rfl h shapes shapes' hshapes hshapes')

/-- all keys of a concrete type are steady, with the occurrences that the two lists of sets have on it -/
def SteadyOn (ctx : ShapeContext) (concrete : String) (sets others : List TaggedSet) : Prop :=
  ∀ met met', MeetsSets ctx concrete sets met → MeetsSets ctx concrete others met' → ∀ key,
    Steady ((occurrencesOf key met).map Occurrence.arranged) ((occurrencesOf key met').map Occurrence.arranged)

/-- the sub-selections that the two lists of sets collect on a concrete type for one field under one key -/
def CallBeside (ctx : ShapeContext) (concrete : String) (sets others : List TaggedSet) (field : Field)
    (links links' : List TaggedSet) : Prop :=
  ∃ collected collected' slot slot', ctx.gather concrete sets = .ok collected ∧ ctx.gather concrete others = .ok collected' ∧
    Beside collected collected' slot slot' ∧ slot.value = .link field links ∧ slot'.value = .link field links'

/-- **Steady keys and nested shapes that agree make shapes that agree.** -/
theorem shapeResult_agree (hs : Schema.ofDocument document = .ok ctx.schema) (h : Rearranged sets others)
    (hsteady : ctx.SteadyOn concrete sets others) {descend : String → List TaggedSet → Except Error (List TypeShape)}
    (hlinks : ∀ field links links', ctx.CallBeside concrete sets others field links links' → Rearranged links links' →
      ∀ shapes shapes', descend field.type.name links = .ok shapes → descend field.type.name links' = .ok shapes' →
      List.Forall₂ TypeShape.Agree shapes shapes')
    {shape shape' : TypeShape} (hshape : ctx.shapeResult descend sets concrete = .ok shape)
    (hshape' : ctx.shapeResult descend others concrete = .ok shape') : shape.Agree shape' := by
  obtain ⟨collected, hg, hshape⟩ := bind_eq_ok_iff.1 hshape
  obtain ⟨selected, hf, hshape⟩ := bind_eq_ok_iff.1 hshape
  obtain ⟨collected', hg', hshape'⟩ := bind_eq_ok_iff.1 hshape'
  obtain ⟨selected', hf', hshape'⟩ := bind_eq_ok_iff.1 hshape'
  cases hshape
  cases hshape'
  obtain ⟨met, hm, rfl⟩ := gather_ok hg
  obtain ⟨met', hm', rfl⟩ := gather_ok hg'
  have hc := hm.consistent hs
  have hshuffled := shuffled_of_rearranged h hm hm'
  have hkeys := (keysAgree_of_shuffled hc hshuffled).perm
  have hvalues : ∀ slot slot', Beside (fillAll .empty met) (fillAll .empty met') slot slot' →
      slot.value.Rearranged slot'.value := by
    rintro slot slot' ⟨key, hslot, hslot'⟩
    exact rearranged_of_steady hc hshuffled (hsteady met met' hm hm' key) hslot hslot'
  obtain ⟨between, hperm, hentries⟩ := exists_beside hkeys
  obtain ⟨arranged, harranged, hfront⟩ := List.perm_comp_forall₂ hperm (mapM_eq_ok_iff.1 hf')
  have hagree : List.Forall₂ ShapeField.Agree selected arranged := by
    apply forall₂_of_results hentries (mapM_eq_ok_iff.1 hf) harranged
    rintro entry entry' field field' ⟨hk, hbeside⟩ hfield hfield'
    refine fieldResult_agree hk (hvalues _ _ hbeside) ?_ hfield hfield'
    intro link links links' hlink hlink'
    exact hlinks link links links' ⟨_, _, _, _, hg, hg', hbeside, hlink, hlink'⟩
  rw [implicitTypename_of_beside hkeys hvalues]
  exact .mk (List.rel_append (ctx.implicitTypename_agree concrete _) hagree) (hfront.append_left _)

/-! ## All levels -/

/-- the keys of all types that get a shape are steady, on this level and below every composite field that stands under one key
on both sides -/
inductive Undisputed (ctx : ShapeContext) : String → List TaggedSet → List TaggedSet → Prop where
  | level {parent : String} {sets others : List TaggedSet}
      (hk : ∀ concretes, ctx.shapeTypes parent sets = .ok concretes → ∀ concrete ∈ concretes,
        ctx.SteadyOn concrete sets others)
      (hl : ∀ concretes, ctx.shapeTypes parent sets = .ok concretes → ∀ concrete ∈ concretes, ∀ field links links',
        ctx.CallBeside concrete sets others field links links' → Undisputed ctx field.type.name links links') :
      Undisputed ctx parent sets others

/-- the shapes of rearranged sets are on the same types, and each is that of its type -/
theorem results_of_rearranged (hb : ctx.fragments.Built) {parent : String} (h : Rearranged sets others)
    {shapes shapes' : List TypeShape} (hr : (ctx.resolveTagged parent sets).result = .ok shapes)
    (hr' : (ctx.resolveTagged parent others).result = .ok shapes') {R : TypeShape → TypeShape → Prop}
    (hR : ∀ concretes, ctx.shapeTypes parent sets = .ok concretes → ∀ concrete ∈ concretes, ∀ shape shape',
      ctx.shapeResult (fun parent sets => (ctx.resolveTagged parent sets).result) sets concrete = .ok shape →
      ctx.shapeResult (fun parent sets => (ctx.resolveTagged parent sets).result) others concrete = .ok shape' →
      R shape shape') : List.Forall₂ R shapes shapes' := by
  rw [result_resolveTagged hb] at hr hr'
  obtain ⟨concretes, ht, hshapes⟩ := bind_eq_ok_iff.1 hr
  obtain ⟨concretes', ht', hshapes'⟩ := bind_eq_ok_iff.1 hr'
  cases shapeTypes_of_rearranged h ht ht'
  have hsame : List.Forall₂ (fun concrete concrete' => concrete = concrete' ∧ concrete ∈ concretes) concretes concretes :=
    List.forall₂_same.2 fun concrete hc => ⟨rfl, hc⟩
  apply forall₂_of_results hsame (mapM_eq_ok_iff.1 hshapes) (mapM_eq_ok_iff.1 hshapes')
  rintro concrete _ shape shape' ⟨rfl, hc⟩ hshape hshape'
  exact hR concretes ht concrete hc shape shape' hshape hshape'

/-- **Undisputed keys make shapes that agree,** by induction over the levels. -/
theorem agree_of_undisputed (hs : Schema.ofDocument document = .ok ctx.schema) (hb : ctx.fragments.Built) {parent : String}
    (hu : ctx.Undisputed parent sets others) (h : Rearranged sets others) {shapes shapes' : List TypeShape}
    (hr : (ctx.resolveTagged parent sets).result = .ok shapes)
    (hr' : (ctx.resolveTagged parent others).result = .ok shapes') : List.Forall₂ TypeShape.Agree shapes shapes' := by
  induction hu generalizing shapes shapes' with
  | level hk hl ih =>
    apply results_of_rearranged hb h hr hr'
    intro concretes ht concrete hc shape shape' hshape hshape'
    apply shapeResult_agree hs h (hk concretes ht concrete hc) ?_ hshape hshape'
    intro field links links' hcall hlinks nested nested' hnested hnested'
    exact ih concretes ht concrete hc field links links' hcall hlinks hnested hnested'

/-- **What moving spreads does not change.** Let selections resolve on a type of an accepted schema, and let them resolve, too,
with fragment spreads moved among the other selections of their levels. Then they have shapes on the same types, in order. On
each, the same keys are collected, and a key that some selection in place has goes to the same field. And when the keys are
undisputed on every level, the shapes agree up to the order of their fields. -/
theorem spreads_moved (hs : Schema.ofDocument document = .ok ctx.schema) (hb : ctx.fragments.Built) {parent : String}
    {selections moved : SelectionSet} (hm : Selection.SpreadsMoved selections moved) {noted noted' : List String}
    {shapes shapes' : List TypeShape} (hr : (runResolve (ctx.resolve parent [selections]) noted).1 = .ok shapes)
    (hr' : (runResolve (ctx.resolve parent [moved]) noted').1 = .ok shapes') :
    List.Forall₂ (fun shape shape' => shape.type = shape'.type ∧ ∃ collected collected',
      ctx.gather shape.type [⟨selections, .inPlace⟩] = .ok collected ∧
      ctx.gather shape'.type [⟨moved, .inPlace⟩] = .ok collected' ∧ KeysAgree collected collected') shapes shapes' ∧
    (ctx.Undisputed parent [⟨selections, .inPlace⟩] [⟨moved, .inPlace⟩] → List.Forall₂ TypeShape.Agree shapes shapes') := by
  have h := rearranged_of_spreadsMoved hm .inPlace
  have hresult := (steady_resolveTagged parent _ noted).symm.trans hr
  have hresult' := (steady_resolveTagged parent _ noted').symm.trans hr'
  refine ⟨?_, fun hu => agree_of_undisputed hs hb hu h hresult hresult'⟩
  apply results_of_rearranged hb h hresult hresult'
  intro concretes ht concrete hc shape shape' hshape hshape'
  obtain ⟨rfl, collected, -, hg, -⟩ := shapeResult_ok hshape
  obtain ⟨htype, collected', -, hg', -⟩ := shapeResult_ok hshape'
  rw [htype]
  refine ⟨rfl, collected, collected', hg, hg', ?_⟩
  obtain ⟨met, hmet, rfl⟩ := gather_ok hg
  obtain ⟨met', hmet', rfl⟩ := gather_ok hg'
  exact keysAgree_of_shuffled (hmet.consistent hs) (shuffled_of_rearranged h hmet hmet')

/-- users have names and best friends -/
def bestSchema : SchemaDocument :=
  [.type ⟨none, "User", [], .object []
    [⟨none, "id", [], .nonNull (.named "ID"), []⟩, ⟨none, "name", [], .named "String", []⟩,
      ⟨none, "best", [], .named "User", []⟩]⟩]

/-- a nickname for the best friend of a user, and another for the user -/
def nickFragments : List Fragment :=
  [⟨"BestNick", "User", [], [.field none "best" [] [] [.field (some "nick") "id" [] [] []]]⟩,
    ⟨"Nick", "User", [], [.field (some "nick") "name" [] [] []]⟩]

/-- selections after the spread of the fragment with the first nickname -/
def nickFirst (selections : SelectionSet) : SelectionSet := .spread "BestNick" [] :: selections

/-- selections before the spread of that fragment -/
def nickLast (selections : SelectionSet) : SelectionSet := selections ++ [.spread "BestNick" []]

/-- the best friend with a nickname in place -/
def nickInPlace : SelectionSet :=
  [.field none "name" [] [] [], .field none "best" [] [] [.field (some "nick") "name" [] [] []]]

/-- the best friend with the nickname of the other fragment -/
def nickSpread : SelectionSet := [.field none "best" [] [] [.spread "Nick" []]]

/-- the type name is left out where it is not selected -/
def noTypename : ShapeSettings := ⟨true, false, false⟩

/-- the nickname in place wins over that of the fragment, wherever that is spread -/
theorem undisputed_nickInPlace :
    ∃ schema index, Schema.ofDocument bestSchema = .ok schema ∧ FragmentIndex.ofDocuments [] nickFragments = .ok index ∧
      Undisputed ⟨schema, index, noTypename⟩ "User" [⟨nickFirst nickInPlace, .inPlace⟩]
        [⟨nickLast nickInPlace, .inPlace⟩] := by
  refine ⟨_, _, rfl, rfl, .level ?_ ?_⟩
  · intro concretes ht concrete hc met met' hm hm' key
    cases ht
    cases List.mem_singleton.1 hc
    rw [hm.unique (.cons (.spread (by decide) rfl rfl (.field rfl .nil) (.field rfl (.field rfl .nil))) .nil),
      hm'.unique (.cons (.field rfl (.field rfl (.spread (by decide) rfl rfl (.field rfl .nil) .nil))) .nil)]
    by_cases hk : "best" = key
    · subst hk
      exact .inr ⟨_, rfl, .inl (by decide)⟩
    · left
      simp [occurrencesOf, List.filter_cons, hk]
  · rintro concretes ht concrete hc field links links' ⟨collected, collected', slot, slot', hg, hg', ⟨key, hk, hk'⟩, hv, hv'⟩
    cases ht
    cases List.mem_singleton.1 hc
    cases hg
    cases hg'
    have hkey : key ∈ ["best", "name"] := Table.mem_keys_iff.2 ⟨slot, hk⟩
    rcases List.mem_pair.1 hkey with rfl | rfl <;> cases hk <;> cases hk' <;> cases hv
    cases hv'
    refine .level ?_ ?_
    · intro concretes ht concrete hc met met' hm hm' key
      cases ht
      cases List.mem_singleton.1 hc
      rw [hm.unique (.cons (.field rfl .nil) (.cons (.field rfl .nil) .nil)),
        hm'.unique (.cons (.field rfl .nil) (.cons (.field rfl .nil) .nil))]
      by_cases hk : "nick" = key
      · subst hk
        exact .inr ⟨_, rfl, .inr (.inl (by decide))⟩
      · left
        simp [occurrencesOf, hk]
    · rintro concretes ht concrete hc field links links' ⟨collected, collected', slot, slot', hg, hg', ⟨key, hk, hk'⟩, hv, hv'⟩
      cases ht
      cases List.mem_singleton.1 hc
      cases hg
      obtain rfl : key = "nick" := List.mem_singleton.1 (Table.mem_keys_iff.2 ⟨slot, hk⟩)
      cases hk
      cases hv

theorem spreads_moved_nick :
    ∃ schema index shape shape', Schema.ofDocument bestSchema = .ok schema ∧
      FragmentIndex.ofDocuments [] nickFragments = .ok index ∧
      (runResolve (resolve ⟨schema, index, noTypename⟩ "User" [nickFirst nickInPlace]) []).1 = .ok [shape] ∧
      (runResolve (resolve ⟨schema, index, noTypename⟩ "User" [nickLast nickInPlace]) []).1 = .ok [shape'] ∧
      shape.keys = ["best", "name"] ∧ shape'.keys = ["name", "best"] ∧ shape.Agree shape' := by
  have hagree : ∀ schema index shape shape', Schema.ofDocument bestSchema = .ok schema →
      FragmentIndex.ofDocuments [] nickFragments = .ok index →
      (runResolve (resolve ⟨schema, index, noTypename⟩ "User" [nickFirst nickInPlace]) []).1 = .ok [shape] →
      (runResolve (resolve ⟨schema, index, noTypename⟩ "User" [nickLast nickInPlace]) []).1 = .ok [shape'] →
      shape.Agree shape' := by
    intro schema index shape shape' hs hx hr hr'
    obtain ⟨schema', index', hs', hx', hu⟩ := undisputed_nickInPlace
    cases hs.symm.trans hs'
    cases hx.symm.trans hx'
    have hmoved : Selection.SpreadsMoved (nickFirst nickInPlace) (nickLast nickInPlace) :=
      Selection.spreadsMoved_of_filter rfl rfl
    have hb : index.Built := Or.inr ⟨[], nickFragments, hx⟩
    cases (@spreads_moved ⟨schema, index, noTypename⟩ bestSchema hs hb "User" _ _ hmoved [] [] _ _ hr hr').2 hu with
    | cons hfirst _ => exact hfirst
  refine ⟨_, _, _, _, rfl, rfl, rfl, rfl, rfl, rfl, ?_⟩
  exact hagree _ _ _ _ rfl rfl rfl rfl

/-- the best friend of a user under the nickname that a field gives -/
def nickShape (best nick : Field) : TypeShape :=
  .mk "User" [.link "best" best [.mk "User" [.leaf "nick" nick]]]

theorem eq_of_agree_nickShape {best one other : Field} (h : (nickShape best one).Agree (nickShape best other)) :
    one = other := by
  obtain @⟨_, _, _, _, hfields, hperm⟩ := h
  cases hfields with
  | cons hlink hrest =>
    cases hrest
    cases hlink with
    | link _ _ hnested =>
      cases List.perm_singleton.1 hperm.symm
      cases hnested with
      | cons hinner _ =>
        obtain @⟨_, _, _, _, hfields, hperm⟩ := hinner
        cases hfields with
        | cons hleaf hrest =>
          cases hrest
          cases hleaf
          cases List.perm_singleton.1 hperm.symm
          rfl

/-- **The place of a spread decides between fragments:** the nickname of the best friend is that of the fragment that comes
first. -/
theorem spread_decides :
    ∃ schema index best one other, Schema.ofDocument bestSchema = .ok schema ∧
      FragmentIndex.ofDocuments [] nickFragments = .ok index ∧
      Selection.SpreadsMoved (nickFirst nickSpread) (nickLast nickSpread) ∧
      (runResolve (resolve ⟨schema, index, noTypename⟩ "User" [nickFirst nickSpread]) []).1 = .ok [nickShape best one] ∧
      (runResolve (resolve ⟨schema, index, noTypename⟩ "User" [nickLast nickSpread]) []).1 = .ok [nickShape best other] ∧
      one.name = "id" ∧ other.name = "name" ∧
      ¬ List.Forall₂ TypeShape.Agree [nickShape best one] [nickShape best other] := by
  refine ⟨_, _, _, _, _, rfl, rfl, Selection.spreadsMoved_of_filter rfl rfl, rfl, rfl, rfl, rfl, ?_⟩
  intro h
  cases h with
  | cons hfirst _ => exact absurd (congrArg Field.name (eq_of_agree_nickShape hfirst)) (by decide)

end ShapeContext

end GraphGen
