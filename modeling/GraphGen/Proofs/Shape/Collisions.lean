/-
What stands under a response key that is met more than once.

Entering an occurrence joins it with what its key holds, takes the place of that, or leaves it as it is. Which of them depends
on all that was entered under the key before. The rule behind the three:
- `winner?`: the key goes to its first occurrence in place, and to its first occurrence when all come from spreads.
- `Slot.Settles`: the key holds the field of the winner. For a composite field it holds the sub-selections of all occurrences
  in place that select this field, between them perhaps those of spreads that do, in order, and none of other fields.
- `settles_single`, `Slot.Settles.merge`: a first occurrence settles its key, and so does every further one, with the next
  winner (`nextWinner`). By induction over the occurrences, all keys are settled (`settledAt_fillAll`).

Main result:
- `gather_collisions`: the keys that are collected stand in the order of their first occurrences, and each is settled.
-/
import Mathlib.Data.List.Induction
import GraphGen.Proofs.Schema.Accepted
import GraphGen.Proofs.Shape.CollectFields

namespace GraphGen

/-! ## The rule -/

namespace SlotContent

/-- the name of the field -/
def fieldName : SlotContent → String
  | typename => "__typename"
  | leaf field => field.name
  | link field _ => field.name

/-- the field with other sub-selections, if it has any -/
def withSets (sets : List TaggedSet) : SlotContent → SlotContent
  | link field _ => link field sets
  | content => content

@[simp] theorem withSets_withSets (content : SlotContent) (sets more : List TaggedSet) :
    (content.withSets sets).withSets more = content.withSets more := by
  cases content <;> rfl

@[simp] theorem fieldName_withSets (content : SlotContent) (sets : List TaggedSet) :
    (content.withSets sets).fieldName = content.fieldName := by
  cases content <;> rfl

end SlotContent

/-- the occurrence that a key goes to: the first one in place, or the first one when all come from spreads -/
def winner? (occurrences : List Occurrence) : Option Occurrence :=
  (occurrences.find? (·.provenance = .inPlace)).or occurrences.head?

/-- the sub-selections of occurrences that select the field, in order -/
def selecting (name : String) (occurrences : List Occurrence) : List TaggedSet :=
  (occurrences.filter (·.name = name)).map (·.tagged)

/-- the occurrences that stand in place -/
def standing (occurrences : List Occurrence) : List Occurrence :=
  occurrences.filter (·.provenance = .inPlace)

/-- what stands under a key with these occurrences: the field of the winner, with sub-selections of occurrences that select
it, with all that stand in place among them -/
structure Slot.Settles (slot : Slot) (occurrences : List Occurrence) (winner : Occurrence) : Prop where
  wins : winner? occurrences = some winner
  provenance : slot.provenance = winner.provenance
  content : ∃ sets, slot.value = winner.content.withSets sets
    ∧ (selecting winner.name (standing occurrences)).Sublist sets ∧ sets.Sublist (selecting winner.name occurrences)

/-! ## Winners -/

theorem selecting_append (name : String) (occurrences more : List Occurrence) :
    selecting name (occurrences ++ more) = selecting name occurrences ++ selecting name more := by
  simp [selecting]

theorem standing_append (occurrences more : List Occurrence) :
    standing (occurrences ++ more) = standing occurrences ++ standing more := by
  simp [standing]

theorem selecting_self (o : Occurrence) : selecting o.name [o] = [o.tagged] := by
  simp [selecting]

theorem selecting_other {name : String} {o : Occurrence} (h : o.name ≠ name) : selecting name [o] = [] := by
  simp [selecting, h]

theorem selecting_standing_sublist (name : String) (occurrences : List Occurrence) :
    (selecting name (standing occurrences)).Sublist (selecting name occurrences) :=
  (List.filter_sublist.filter _).map _

theorem Provenance.ne_inPlace_iff {provenance : Provenance} : provenance ≠ .inPlace ↔ provenance = .spread := by
  cases provenance <;> simp

theorem mem_of_winner? {occurrences : List Occurrence} {winner : Occurrence} (h : winner? occurrences = some winner) :
    winner ∈ occurrences := by
  rcases Option.or_eq_some_iff.1 h with hf | ⟨-, hh⟩
  · exact List.mem_of_find?_eq_some hf
  · exact List.mem_of_mem_head? hh

/-- when the winner comes from a spread, all do -/
theorem standing_of_winner?_spread {occurrences : List Occurrence} {winner : Occurrence}
    (h : winner? occurrences = some winner) (hp : winner.provenance = .spread) : standing occurrences = [] := by
  rcases Option.or_eq_some_iff.1 h with hf | ⟨hnone, -⟩
  · have hplace := List.find?_some hf
    simp [hp] at hplace
  · exact List.filter_eq_nil_iff.2 (List.find?_eq_none.1 hnone)

theorem winner?_single (o : Occurrence) : winner? [o] = some o := by
  by_cases h : o.provenance = .inPlace <;> simp [winner?, h]

/-- the winner when a further occurrence is met: that one, when it is the first one in place -/
def nextWinner (winner o : Occurrence) : Occurrence :=
  if winner.provenance = .spread ∧ o.provenance = .inPlace then o else winner

theorem winner?_snoc {occurrences : List Occurrence} {winner : Occurrence} (h : winner? occurrences = some winner)
    (o : Occurrence) : winner? (occurrences ++ [o]) = some (nextWinner winner o) := by
  unfold winner? nextWinner
  rw [List.find?_append]
  rcases Option.or_eq_some_iff.1 h with hf | ⟨hnone, hh⟩
  · have hplace : winner.provenance = .inPlace := by simpa using List.find?_some hf
    simp [hf, hplace]
  · have hspread : winner.provenance = .spread := by
      have hother := List.find?_eq_none.1 hnone winner (List.mem_of_mem_head? hh)
      exact Provenance.ne_inPlace_iff.1 (by simpa using hother)
    by_cases ho : o.provenance = .inPlace
    · simp [hnone, hspread, ho]
    · simp [hnone, hh, ho, List.head?_append]

theorem nextWinner_cases (winner o : Occurrence) : nextWinner winner o = o ∨ nextWinner winner o = winner := by
  unfold nextWinner
  split
  · exact .inl rfl
  · exact .inr rfl

theorem nextWinner_provenance (winner o : Occurrence) :
    (nextWinner winner o).provenance = if o.provenance = .inPlace then .inPlace else winner.provenance := by
  unfold nextWinner
  cases hw : winner.provenance <;> cases ho : o.provenance <;> simp [hw, ho]

/-! ## Entering an occurrence -/

/-- occurrences of one type: they collect their own sub-selections, and fields of one name are one field -/
structure Consistent (met : List Occurrence) : Prop where
  named : ∀ o ∈ met, o.content.fieldName = o.name
  own : ∀ o ∈ met, o.content.withSets [o.tagged] = o.content
  same : ∀ o ∈ met, ∀ other ∈ met, o.name = other.name → ∀ sets, o.content.withSets sets = other.content.withSets sets

theorem Consistent.subset {met occurrences : List Occurrence} (h : Consistent met) (hsub : occurrences ⊆ met) :
    Consistent occurrences :=
  ⟨fun o ho => h.named o (hsub ho), fun o ho => h.own o (hsub ho),
    fun o ho other hother => h.same o (hsub ho) other (hsub hother)⟩

theorem prefer_new {old new : Slot} (h : old.provenance = .spread ∧ new.provenance = .inPlace) :
    old.prefer new = new := by
  simp [Slot.prefer, h]

theorem prefer_old {old new : Slot} (h : ¬ (old.provenance = .spread ∧ new.provenance = .inPlace)) :
    old.prefer new = old := by
  rw [Slot.prefer, if_neg (by simpa using h)]

/-- a first occurrence settles its key -/
theorem settles_single {o : Occurrence} (hown : o.content.withSets [o.tagged] = o.content) : o.slot.Settles [o] o where
  wins := winner?_single o
  provenance := rfl
  content := by
    refine ⟨[o.tagged], hown.symm, ?_, ?_⟩
    · exact selecting_self o ▸ selecting_standing_sublist o.name [o]
    · rw [selecting_self]

namespace Slot.Settles

variable {slot : Slot} {occurrences : List Occurrence} {winner o : Occurrence}

/-- the name of the field is that of the winner -/
theorem fieldName (h : slot.Settles occurrences winner) (hc : Consistent occurrences) :
    slot.value.fieldName = winner.name := by
  obtain ⟨sets, hvalue, -⟩ := h.content
  rw [hvalue, SlotContent.fieldName_withSets]
  exact hc.named winner (mem_of_winner? h.wins)

/-- a key that holds a composite field: it is that of the winner -/
theorem link (h : slot.Settles occurrences winner) {field : Field} {links : List TaggedSet}
    (hv : slot.value = .link field links) :
    (∀ sets, winner.content.withSets sets = .link field sets)
      ∧ (selecting winner.name (standing occurrences)).Sublist links
      ∧ links.Sublist (selecting winner.name occurrences) := by
  obtain ⟨sets, hvalue, hsublists⟩ := h.content
  have hfield : ∀ sets', winner.content.withSets sets' = .link field sets' := by
    intro sets'
    rw [← SlotContent.withSets_withSets _ sets, ← hvalue, hv]
    rfl
  rw [hfield, hv] at hvalue
  cases hvalue
  exact ⟨hfield, hsublists⟩

/-- another selection of the composite field is joined, whichever of them wins -/
theorem join (h : slot.Settles occurrences winner) (hc : Consistent (occurrences ++ [o])) {field other : Field}
    {links more : List TaggedSet} (hold : slot.value = .link field links) (hnew : o.content = .link other more)
    (hname : field.name = other.name) :
    Slot.Settles ⟨if o.provenance = .inPlace then .inPlace else slot.provenance, .link field (links ++ more)⟩
      (occurrences ++ [o]) (nextWinner winner o) := by
  obtain ⟨hfield, hstanding, hselecting⟩ := h.link hold
  have hw : winner ∈ occurrences ++ [o] := List.mem_append_left _ (mem_of_winner? h.wins)
  have ho : o ∈ occurrences ++ [o] := List.mem_append_right _ List.mem_cons_self
  have hwinner : winner.name = o.name := by
    rw [← h.fieldName (hc.subset (List.subset_append_left _ _)), ← hc.named o ho, hold, hnew]
    exact hname
  have hsame : ∀ sets, o.content.withSets sets = .link field sets := fun sets => by
    rw [← hfield, hc.same o ho winner hw hwinner.symm]
  have hown := hc.own o ho
  rw [hsame, hnew] at hown
  cases hown
  have hone : selecting winner.name [o] = [o.tagged] := hwinner ▸ selecting_self o
  -- the occurrence and the winner select one field, so that it does not matter which is the next winner
  have hnext : (nextWinner winner o).name = winner.name ∧
      ∀ sets, (nextWinner winner o).content.withSets sets = .link field sets := by
    rcases nextWinner_cases winner o with he | he <;> rw [he]
    · exact ⟨hwinner.symm, hsame⟩
    · exact ⟨rfl, hfield⟩
  refine ⟨winner?_snoc h.wins o, ?_, links ++ [o.tagged], (hnext.2 _).symm, ?_, ?_⟩
  · rw [nextWinner_provenance, h.provenance]
  · rw [hnext.1, standing_append, selecting_append]
    exact hstanding.append (hone ▸ selecting_standing_sublist winner.name [o])
  · rw [hnext.1, selecting_append, hone]
    exact hselecting.append_right _

/-- the first occurrence in place takes over -/
theorem replace (h : slot.Settles occurrences winner) (hown : o.content.withSets [o.tagged] = o.content)
    (hr : winner.provenance = .spread ∧ o.provenance = .inPlace) :
    o.slot.Settles (occurrences ++ [o]) (nextWinner winner o) := by
  have hnext : nextWinner winner o = o := if_pos hr
  refine ⟨winner?_snoc h.wins o, by rw [hnext]; rfl, [o.tagged], ?_, ?_, ?_⟩
  · rw [hnext, hown]
    rfl
  · rw [hnext, standing_append, standing_of_winner?_spread h.wins hr.1, List.nil_append]
    exact selecting_self o ▸ selecting_standing_sublist o.name [o]
  · rw [hnext, selecting_append, selecting_self]
    exact List.sublist_append_right _ _

/-- a field that is met again without being joined has no sub-selections -/
theorem value_of_apart (h : slot.Settles occurrences winner) (hc : Consistent (occurrences ++ [o]))
    (hname : o.name = winner.name)
    (hapart : ∀ field sets other more, slot.value = .link field sets → o.content = .link other more →
      field.name ≠ other.name) (sets : List TaggedSet) : slot.value = winner.content.withSets sets := by
  have hw : winner ∈ occurrences ++ [o] := List.mem_append_left _ (mem_of_winner? h.wins)
  have ho : o ∈ occurrences ++ [o] := List.mem_append_right _ List.mem_cons_self
  have hsame := hc.same o ho winner hw hname [o.tagged]
  rw [hc.own o ho] at hsame
  obtain ⟨links, hvalue, -⟩ := h.content
  cases hcontent : winner.content with
  | typename =>
    rw [hcontent] at hvalue
    exact hvalue
  | leaf field =>
    rw [hcontent] at hvalue
    exact hvalue
  | link field own =>
    rw [hcontent] at hvalue hsame
    exact absurd rfl (hapart field links field [o.tagged] hvalue hsame)

/-- an occurrence that neither takes over nor is joined changes nothing -/
theorem keep (h : slot.Settles occurrences winner) (hc : Consistent (occurrences ++ [o]))
    (hr : ¬ (winner.provenance = .spread ∧ o.provenance = .inPlace))
    (hapart : ∀ field sets other more, slot.value = .link field sets → o.content = .link other more →
      field.name ≠ other.name) : slot.Settles (occurrences ++ [o]) (nextWinner winner o) := by
  have hnext : nextWinner winner o = winner := if_neg hr
  have hwins := winner?_snoc h.wins o
  rw [hnext] at hwins ⊢
  refine ⟨hwins, h.provenance, ?_⟩
  rw [standing_append, selecting_append, selecting_append]
  by_cases hname : o.name = winner.name
  · exact ⟨_, h.value_of_apart hc hname hapart _,
      (selecting_standing_sublist _ _).append (selecting_standing_sublist _ _), .refl _⟩
  · have hnone : selecting winner.name (standing [o]) = [] :=
      List.sublist_nil.1 (selecting_other hname ▸ selecting_standing_sublist winner.name [o])
    rw [hnone, selecting_other hname, List.append_nil, List.append_nil]
    exact h.content

/-- **A further occurrence settles the key again,** with the next winner. -/
theorem merge (h : slot.Settles occurrences winner) (hc : Consistent (occurrences ++ [o])) :
    (slot.merge o.slot).Settles (occurrences ++ [o]) (nextWinner winner o) := by
  rcases merge_cases slot o.slot with ⟨field, before, other, more, hold, hnew, hname, hmerge⟩ | ⟨hmerge, hapart⟩
  · rw [hmerge]
    exact h.join hc hold hnew hname
  · rw [hmerge]
    by_cases hr : winner.provenance = .spread ∧ o.provenance = .inPlace
    · rw [prefer_new (by rwa [h.provenance])]
      exact h.replace (hc.own o (List.mem_append_right _ List.mem_cons_self)) hr
    · rw [prefer_old (by rwa [h.provenance])]
      exact h.keep hc hr hapart

end Slot.Settles

/-! ## All occurrences -/

/-- the occurrences of a key -/
def occurrencesOf (key : String) (met : List Occurrence) : List Occurrence :=
  met.filter (·.key = key)

/-- a key without occurrences is free, every other one is settled -/
def SettledAt (met : List Occurrence) (out : Table Slot) (key : String) : Prop :=
  (occurrencesOf key met = [] ∧ out.get? key = none) ∨
    ∃ slot winner, out.get? key = some slot ∧ slot.Settles (occurrencesOf key met) winner

/-- entering an occurrence keeps all keys settled -/
theorem settledAt_fillSlot {met : List Occurrence} {o : Occurrence} {out : Table Slot} (hc : Consistent (met ++ [o]))
    (h : ∀ key, SettledAt met out key) (key : String) : SettledAt (met ++ [o]) (fillSlot out o.key o.slot) key := by
  unfold SettledAt
  rw [get?_fillSlot]
  by_cases hk : key = o.key
  · subst hk
    have hocc : occurrencesOf o.key (met ++ [o]) = occurrencesOf o.key met ++ [o] := by simp [occurrencesOf]
    have hcons : Consistent (occurrencesOf o.key met ++ [o]) := hocc ▸ hc.subset (List.filter_subset_self _)
    rw [if_pos rfl, hocc]
    rcases h o.key with ⟨hnil, hfree⟩ | ⟨slot, winner, hslot, hsettles⟩
    · rw [hnil, hfree]
      exact .inr ⟨o.slot, o, rfl, settles_single (hc.own o (List.mem_append_right _ List.mem_cons_self))⟩
    · rw [hslot]
      exact .inr ⟨_, nextWinner winner o, rfl, hsettles.merge hcons⟩
  · have hocc : occurrencesOf key (met ++ [o]) = occurrencesOf key met := by
      simp [occurrencesOf, Ne.symm hk]
    rw [if_neg hk, hocc]
    exact h key

/-- **All keys are settled** when all occurrences are entered. -/
theorem settledAt_fillAll {met : List Occurrence} (hc : Consistent met) (key : String) :
    SettledAt met (fillAll .empty met) key := by
  induction met using List.reverseRecOn generalizing key with
  | nil => exact .inl ⟨rfl, rfl⟩
  | append_singleton met o ih =>
    rw [fillAll_append]
    exact settledAt_fillSlot hc (fun key => ih (hc.subset (List.subset_append_left _ _)) key) key

theorem settles_of_mem_keys {met : List Occurrence} (hc : Consistent met) {key : String}
    (hk : key ∈ (fillAll .empty met).keys) :
    ∃ slot winner, (fillAll .empty met).get? key = some slot ∧ slot.Settles (occurrencesOf key met) winner := by
  rcases settledAt_fillAll hc key with ⟨-, hfree⟩ | h
  · exact absurd hk (Table.get?_eq_none_iff.1 hfree)
  · exact h

namespace ShapeContext

variable {ctx : ShapeContext} {concrete : String} {document : SchemaDocument}

/-- tagged sets have the same occurrences, however they are met -/
theorem MeetsSets.unique {sets : List TaggedSet} {met met' : List Occurrence} (h : MeetsSets ctx concrete sets met)
    (h' : MeetsSets ctx concrete sets met') : met = met' := by
  induction h generalizing met' with
  | nil =>
    cases h'
    rfl
  | cons hm _ ih =>
    cases h' with
    | cons hm' hr' => rw [hm.unique hm', ih hr']

/-- a field selection collects the type name, or the field of its name with its own sub-selections -/
theorem fieldContent_cases {provenance : Provenance} {name : String} {selections : SelectionSet} {content : SlotContent}
    (h : ctx.fieldContent concrete provenance name selections = .ok content) :
    (name = "__typename" ∧ content = .typename) ∨
      (name ≠ "__typename" ∧ ∃ field, ctx.schema.requireField concrete name = .ok field
        ∧ (content = .leaf field ∨ content = .link field [⟨selections, provenance⟩])) := by
  unfold fieldContent at h
  split at h
  · rename_i hname
    cases h
    exact .inl ⟨hname, rfl⟩
  · rename_i hname
    split at h
    · cases h
    · rename_i field hf
      split at h <;> cases h
      · exact .inr ⟨hname, field, hf, .inl rfl⟩
      · exact .inr ⟨hname, field, hf, .inr rfl⟩

/-- fields of one name are one field, whatever is selected of them -/
theorem withSets_fieldContent {provenance other : Provenance} {name : String} {selections more : SelectionSet}
    {content content' : SlotContent} (h : ctx.fieldContent concrete provenance name selections = .ok content)
    (h' : ctx.fieldContent concrete other name more = .ok content') (sets : List TaggedSet) :
    content.withSets sets = content'.withSets sets := by
  unfold fieldContent at h h'
  split at h
  · rename_i hname
    rw [if_pos hname] at h'
    cases h
    cases h'
    rfl
  · rename_i hname
    rw [if_neg hname] at h'
    split at h
    · cases h
    · rename_i field hf
      rw [hf] at h'
      dsimp only at h'
      split at h <;> rename_i hleaf <;> simp only [hleaf] at h' <;> cases h <;> cases h' <;> rfl

/-- the occurrences that are met in an accepted schema -/
theorem MeetsSets.consistent (hs : Schema.ofDocument document = .ok ctx.schema) {sets : List TaggedSet}
    {met : List Occurrence} (h : MeetsSets ctx concrete sets met) : Consistent met where
  named o ho := by
    rcases fieldContent_cases (h.content o ho) with ⟨hname, hc⟩ | ⟨-, field, hf, hc | hc⟩
    · rw [hc, hname]
      rfl
    · rw [hc]
      exact Schema.name_of_requireField hs hf
    · rw [hc]
      exact Schema.name_of_requireField hs hf
  own o ho := by
    rcases fieldContent_cases (h.content o ho) with ⟨-, hc⟩ | ⟨-, field, -, hc | hc⟩ <;> rw [hc] <;> rfl
  same o ho other hother hname := by
    have hc := h.content o ho
    rw [hname] at hc
    exact withSets_fieldContent hc (h.content other hother)

/-- **Collisions of response keys.** Let tagged selection sets be collected on a type. They have one list of occurrences. The
keys stand in the order of their first occurrences. Under each key stands the field of the winner: of its first occurrence in
place, or of its first occurrence when all come from spreads. When that field is composite, it has the sub-selections of all
occurrences in place that select it, in order and with their provenances, and no sub-selections of other fields. -/
theorem gather_collisions (hs : Schema.ofDocument document = .ok ctx.schema) {sets : List TaggedSet}
    {collected : Table Slot} (h : ctx.gather concrete sets = .ok collected) :
    ∃ met, MeetsSets ctx concrete sets met ∧ (∀ other, MeetsSets ctx concrete sets other → other = met)
      ∧ collected.keys = (met.map (·.key)).eraseDups
      ∧ ∀ key ∈ collected.keys, ∃ slot winner, collected.get? key = some slot
        ∧ winner? (occurrencesOf key met) = some winner ∧ slot.provenance = winner.provenance
        ∧ slot.value.fieldName = winner.name
        ∧ ∀ field, winner.name ≠ "__typename" → ctx.schema.requireField concrete winner.name = .ok field →
          ctx.schema.isLeaf field.type.name = false →
          ∃ links, slot.value = .link field links
            ∧ (selecting winner.name (standing (occurrencesOf key met))).Sublist links
            ∧ links.Sublist (selecting winner.name (occurrencesOf key met)) := by
  obtain ⟨met, hmet, rfl⟩ := gather_ok h
  have hc : Consistent met := hmet.consistent hs
  refine ⟨met, hmet, fun other hother => hother.unique hmet, keys_fillAll .empty met, fun key hk => ?_⟩
  obtain ⟨slot, winner, hslot, hsettles⟩ := settles_of_mem_keys hc hk
  have hocc : occurrencesOf key met ⊆ met := List.filter_subset_self _
  refine ⟨slot, winner, hslot, hsettles.wins, hsettles.provenance, hsettles.fieldName (hc.subset hocc), ?_⟩
  intro field hname hf hleaf
  obtain ⟨links, hvalue, hlinks⟩ := hsettles.content
  have hcontent := hmet.content winner (hocc (mem_of_winner? hsettles.wins))
  rw [fieldContent_composite hname hf hleaf] at hcontent
  refine ⟨links, ?_, hlinks⟩
  rw [hvalue, ← Except.ok.inj hcontent]
  rfl

/-- two keys that the fragment takes first -/
def takingFragments : List Fragment :=
  [⟨"Taking", "User", [], [.field (some "first") "name" [] [] [],
    .field (some "second") "owner" [] [] [.field (some "called") "name" [] [] []]]⟩]

/-- both keys are selected in place after the spread, one of them for another field -/
def takenSelections : SelectionSet :=
  [.spread "Taking" [], .field (some "second") "owner" [] [] [.field none "name" [] [] []],
    .field (some "first") "owner" [] [] [.field none "name" [] [] []]]

theorem gather_collisions_taken :
    ∃ schema index collected, Schema.ofDocument nodeSchema = .ok schema ∧
      FragmentIndex.ofDocuments [] takingFragments = .ok index ∧
      gather ⟨schema, index, .plain⟩ "User" [⟨takenSelections, .inPlace⟩] = .ok collected ∧
      collected.keys = ["first", "second"] ∧
      ∃ met, MeetsSets ⟨schema, index, .plain⟩ "User" [⟨takenSelections, .inPlace⟩] met ∧
        ∃ slot winner, collected.get? "first" = some slot ∧ winner? (occurrencesOf "first" met) = some winner ∧
          slot.value.fieldName = "owner" ∧ winner.name = "owner" := by
  have hrule : ∀ schema index collected, Schema.ofDocument nodeSchema = .ok schema →
      FragmentIndex.ofDocuments [] takingFragments = .ok index →
      gather ⟨schema, index, .plain⟩ "User" [⟨takenSelections, .inPlace⟩] = .ok collected → _ :=
    fun schema index collected hs _ hg => @gather_collisions ⟨schema, index, .plain⟩ "User" nodeSchema hs _ _ hg
  refine ⟨_, _, _, rfl, rfl, rfl, rfl, ?_⟩
  obtain ⟨met, hmet, -, -, hkeys⟩ := hrule _ _ _ rfl rfl rfl
  obtain ⟨slot, winner, hslot, hwins, -, hname, -⟩ := hkeys "first" (by decide)
  have howner : slot.value.fieldName = "owner" := by
    cases hslot
    rfl
  exact ⟨met, hmet, slot, winner, hslot, hwins, howner, hname ▸ howner⟩

end ShapeContext

end GraphGen
