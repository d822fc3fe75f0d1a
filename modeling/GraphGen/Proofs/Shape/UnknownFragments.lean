/-
The spreads that resolving comes to.

A spread of an unknown fragment is reported when resolving comes to it. It comes to the spreads of a level that stand under
conditions that hold (`Opens`), on every type that gets a shape, and from there to those below the links that are collected
(`ComesTo`). Below a condition that does not hold, below a field without selections, below a link that lost its key to another
field and on a type without shapes it comes to none, so that not every spread that is reached is looked up.

- `known_of_meets`: what a level opens was known when its field selections were met.
- `known_of_comesTo`: by induction over the links, all names that a resolution comes to are known when it succeeds.
- `ComesTo.reaches`: it comes to nothing that the selections do not reach.

Main results:
- `resolve_comesTo_known`: when selections resolve, their fragments can be found exactly when the names that they reach without
  resolving coming to them are known.
- `unknown_not_reported`: selections that resolve and reach a name of no fragment.
-/
import GraphGen.Proofs.Fragments.FirstUse
import GraphGen.Proofs.Shape.Levels
import GraphGen.Schema.Build

namespace GraphGen

namespace ShapeContext

variable {ctx : ShapeContext} {concrete name : String}

/-! ## One level -/

/-- a spread of the name stands on the level, under conditions that hold for the concrete type -/
inductive Opens (ctx : ShapeContext) (concrete name : String) : SelectionSet → Prop where
  | here {selections : SelectionSet} {directives : List Directive} (hm : .spread name directives ∈ selections) :
      Opens ctx concrete name selections
  | inline {selections inner : SelectionSet} {condition : Option String} {directives : List Directive}
      (hm : .inline condition directives inner ∈ selections)
      (ha : (condition.map (ctx.conditionHolds concrete)).getD true = true) (hi : Opens ctx concrete name inner) :
      Opens ctx concrete name selections
  | fragment {selections : SelectionSet} {spread : String} {directives : List Directive} {entry : IndexedFragment}
      (hm : .spread spread directives ∈ selections) (he : ctx.fragments.get? spread = some entry)
      (ha : ctx.conditionHolds concrete entry.fragment.condition = true)
      (hi : Opens ctx concrete name entry.fragment.selections) : Opens ctx concrete name selections

/-- **What a level opens is known** when its field selections are met. -/
theorem known_of_meets {selections : SelectionSet} (ho : ctx.Opens concrete name selections) {stack : List String}
    {provenance : Provenance} {met : List Occurrence} (h : Meets ctx concrete stack provenance selections met) :
    ctx.fragments.Known name := by
  induction ho generalizing stack provenance met with
  | here hm =>
    obtain ⟨_, hown⟩ := h.single hm
    cases hown with
    | spread _ he _ _ _ => exact FragmentIndex.known_of_get? he
    | spreadSkip _ he _ _ => exact FragmentIndex.known_of_get? he
  | inline hm ha _ ih =>
    obtain ⟨_, hown⟩ := h.single hm
    cases hown with
    | inline _ hi _ => exact ih hi
    | inlineSkip hnot _ => exact absurd ha (by simp [hnot])
  | fragment hm he ha _ ih =>
    obtain ⟨_, hown⟩ := h.single hm
    cases hown with
    | spread _ he' _ hi _ =>
      cases he.symm.trans he'
      exact ih hi
    | spreadSkip _ he' hnot _ =>
      cases he.symm.trans he'
      exact absurd ha (by simp [hnot])

theorem Opens.reaches {selections : SelectionSet} (h : ctx.Opens concrete name selections) :
    ctx.fragments.Reaches selections name := by
  induction h with
  | here hm => exact .spread hm (.here _)
  | inline hm _ _ ih => exact ih.of_inline hm
  | fragment hm he _ _ ih => exact ih.of_fragment hm he

/-- what the sub-selections of an occurrence reach, the selections reach that it stands in -/
theorem Meets.reaches {stack : List String} {provenance : Provenance} {selections : List Selection} {met : List Occurrence}
    (h : Meets ctx concrete stack provenance selections met) {o : Occurrence} (ho : o ∈ met)
    (hr : ctx.fragments.Reaches o.selections name) : ctx.fragments.Reaches selections name := by
  induction h with
  | nil => cases ho
  | field _ _ ih =>
    rcases List.mem_cons.1 ho with rfl | ho
    · exact hr.of_field List.mem_cons_self
    · exact (ih ho).of_rest
  | inline _ _ _ ihi ihr =>
    rcases List.mem_append.1 ho with ho | ho
    · exact (ihi ho).of_inline List.mem_cons_self
    · exact (ihr ho).of_rest
  | inlineSkip _ _ ih => exact (ih ho).of_rest
  | spread _ he _ _ _ ihi ihr =>
    rcases List.mem_append.1 ho with ho | ho
    · exact (ihi ho).of_fragment List.mem_cons_self he
    · exact (ihr ho).of_rest
  | spreadSkip _ _ _ _ ih => exact (ih ho).of_rest

/-! ## All levels -/

/-- resolving sets on a type comes to a spread of the name: on a type that gets a shape, or below a link that is collected
there -/
inductive ComesTo (ctx : ShapeContext) (name : String) : String → List TaggedSet → Prop where
  | here {parent concrete : String} {sets : List TaggedSet} {concretes : List String} {set : TaggedSet}
      (ht : ctx.shapeTypes parent sets = .ok concretes) (hc : concrete ∈ concretes) (hs : set ∈ sets)
      (ho : ctx.Opens concrete name set.selections) : ComesTo ctx name parent sets
  | link {parent concrete key : String} {sets links : List TaggedSet} {concretes : List String} {collected : Table Slot}
      {slot : Slot} {field : Field} (ht : ctx.shapeTypes parent sets = .ok concretes) (hc : concrete ∈ concretes)
      (hg : ctx.gather concrete sets = .ok collected) (he : (key, slot) ∈ collected.entries)
      (hv : slot.value = .link field links) (hn : ComesTo ctx name field.type.name links) : ComesTo ctx name parent sets

/-- **All names that a resolution comes to are known** when it succeeds. -/
theorem known_of_comesTo (hb : ctx.fragments.Built) {parent : String} {sets : List TaggedSet}
    (h : ctx.ComesTo name parent sets) (hr : Succeeds (ctx.resolveTagged parent sets).result) :
    ctx.fragments.Known name := by
  have hlevel : ∀ {parent concrete sets concretes}, Succeeds (ctx.resolveTagged parent sets).result →
      ctx.shapeTypes parent sets = .ok concretes → concrete ∈ concretes →
      ∃ collected, ctx.gather concrete sets = .ok collected ∧ ∀ entry ∈ collected.entries, ∀ field links,
        entry.2.value = .link field links → Succeeds (ctx.resolveTagged field.type.name links).result := by
    intro parent concrete sets concretes hr ht hc
    rw [result_resolveTagged hb, succeeds_bind_iff] at hr
    obtain ⟨concretes', ht', hshapes⟩ := hr
    cases ht.symm.trans ht'
    exact succeeds_shapeResult_iff.1 (succeeds_mapM_iff.1 hshapes concrete hc)
  induction h with
  | here ht hc hs ho =>
    obtain ⟨collected, hg, -⟩ := hlevel hr ht hc
    obtain ⟨met, hmet, -⟩ := gather_ok hg
    obtain ⟨_, hown⟩ := hmet.exists_of_mem hs
    exact known_of_meets ho hown
  | link ht hc hg he hv _ ih =>
    obtain ⟨collected, hg', hlinks⟩ := hlevel hr ht hc
    cases hg.symm.trans hg'
    exact ih (hlinks _ he _ _ hv)

/-- **Resolving comes to nothing that the selections do not reach.** -/
theorem ComesTo.reaches {parent : String} {sets : List TaggedSet} (h : ctx.ComesTo name parent sets) :
    ∃ set ∈ sets, ctx.fragments.Reaches set.selections name := by
  induction h with
  | here _ _ hs ho => exact ⟨_, hs, ho.reaches⟩
  | link _ _ hg he hv _ ih =>
    obtain ⟨met, hmet, rfl⟩ := gather_ok hg
    obtain ⟨-, hfrom⟩ := gather_linksFrom hmet he _ _ hv
    obtain ⟨link, hlink, hr⟩ := ih
    obtain ⟨o, ho, rfl⟩ := hfrom link hlink
    obtain ⟨set, hs, _, hown, ho⟩ := hmet.exists_meets o ho
    exact ⟨set, hs, hown.reaches ho hr⟩

/-- **Unknown fragments are reported where resolving comes to them.** When a selection set resolves, every name that resolving
comes to is one that the selections reach, and a fragment has it. All fragments of the selections are then found exactly when
those names are known, too, that they reach without resolving coming to them. -/
theorem resolve_comesTo_known (hb : ctx.fragments.Built) {parent : String} {selections : SelectionSet}
    {noted : List String} {shapes : List TypeShape}
    (hr : (runResolve (ctx.resolve parent [selections]) noted).1 = .ok shapes) :
    (∀ name, ctx.ComesTo name parent [⟨selections, .inPlace⟩] →
      ctx.fragments.Reaches selections name ∧ ctx.fragments.Known name) ∧
    (Succeeds (ctx.fragments.closure selections) ↔
      ∀ name, ctx.fragments.Reaches selections name → ¬ ctx.ComesTo name parent [⟨selections, .inPlace⟩] →
        ctx.fragments.Known name) := by
  have hresult : Succeeds (ctx.resolveTagged parent [⟨selections, .inPlace⟩]).result :=
    ⟨shapes, (steady_resolveTagged parent _ noted).symm.trans hr⟩
  have hknown : ∀ name, ctx.ComesTo name parent [⟨selections, .inPlace⟩] → ctx.fragments.Known name :=
    fun name h => known_of_comesTo hb h hresult
  refine ⟨fun name h => ⟨?_, hknown name h⟩, ?_⟩
  · obtain ⟨set, hs, hreached⟩ := h.reaches
    rw [List.mem_singleton.1 hs] at hreached
    exact hreached
  · rw [FragmentIndex.succeeds_closure_iff hb.underOwnNames]
    refine forall₂_congr fun name _ => ⟨fun h _ => h, fun h => ?_⟩
    by_cases hcomes : ctx.ComesTo name parent [⟨selections, .inPlace⟩]
    · exact hknown name hcomes
    · exact h hcomes

/-- users, who have friends, and posts -/
def cardSchema : SchemaDocument :=
  [.type ⟨none, "User", [], .object []
      [⟨none, "id", [], .nonNull (.named "ID"), []⟩, ⟨none, "friend", [], .named "User", []⟩]⟩,
    .type ⟨none, "Post", [], .object [] [⟨none, "id", [], .nonNull (.named "ID"), []⟩]⟩]

/-- a user with a friend -/
def cardFragment : Fragment :=
  ⟨"Card", "User", [], [.field none "friend" [] [] [.spread "Friend" []]]⟩

/-- a friend -/
def friendFragment : Fragment :=
  ⟨"Friend", "User", [], [.field none "id" [] [] []]⟩

/-- the index of both -/
def cardIndex : FragmentIndex :=
  ⟨Table.ofList [("Card", ⟨cardFragment, "card.graphql", false⟩), ("Friend", ⟨friendFragment, "card.graphql", false⟩)]⟩

/-- a fragment for users, and one that no document defines for posts -/
def cardSpreads : SelectionSet :=
  [.spread "Card" [], .inline (some "Post") [] [.spread "Missing" []]]

/-- the resolution comes to the fragments of the document, also below a field of one of them, and not to the other name -/
theorem resolve_comesTo_known_user :
    FragmentIndex.ofDocuments [⟨"card.graphql", [.fragment cardFragment, .fragment friendFragment]⟩] [] = .ok cardIndex ∧
    ∃ schema, Schema.ofDocument cardSchema = .ok schema ∧
      Succeeds (runResolve (resolve ⟨schema, cardIndex, .plain⟩ "User" [cardSpreads]) []).1 ∧
      (∀ name ∈ ["Card", "Friend"], ComesTo ⟨schema, cardIndex, .plain⟩ name "User" [⟨cardSpreads, .inPlace⟩] ∧
        cardIndex.Reaches cardSpreads name ∧ cardIndex.Known name) ∧
      ¬ ComesTo ⟨schema, cardIndex, .plain⟩ "Missing" "User" [⟨cardSpreads, .inPlace⟩] ∧
      ¬ Succeeds (cardIndex.closure cardSpreads) := by
  have hindex : FragmentIndex.ofDocuments [⟨"card.graphql", [.fragment cardFragment, .fragment friendFragment]⟩] [] =
      .ok cardIndex := rfl
  obtain ⟨schema, hs, ⟨shapes, hr⟩, hcard, hfriend⟩ : ∃ schema, Schema.ofDocument cardSchema = .ok schema ∧
      Succeeds (runResolve (resolve ⟨schema, cardIndex, .plain⟩ "User" [cardSpreads]) []).1 ∧
      ComesTo ⟨schema, cardIndex, .plain⟩ "Card" "User" [⟨cardSpreads, .inPlace⟩] ∧
      ComesTo ⟨schema, cardIndex, .plain⟩ "Friend" "User" [⟨cardSpreads, .inPlace⟩] := by
    refine ⟨_, rfl, ⟨_, rfl⟩, .here rfl List.mem_cons_self List.mem_cons_self (.here List.mem_cons_self), ?_⟩
    refine .link rfl List.mem_cons_self rfl (List.mem_of_getElem? (i := 0) rfl) rfl ?_
    exact .here rfl List.mem_cons_self List.mem_cons_self (.here List.mem_cons_self)
  obtain ⟨hcomes, hclosure⟩ := @resolve_comesTo_known ⟨schema, cardIndex, .plain⟩ (.inr ⟨_, _, hindex⟩) _ _ _ _ hr
  have hunknown : ¬ cardIndex.Known "Missing" := FragmentIndex.not_known_of_get? rfl
  have hmissing := fun h => hunknown (hcomes "Missing" h).2
  have hreached : cardIndex.Reaches cardSpreads "Missing" := FragmentIndex.reaches_of_mem_spreads (by decide)
  refine ⟨hindex, schema, hs, ⟨shapes, hr⟩, ?_, hmissing, fun h => hunknown (hclosure.1 h "Missing" hreached hmissing)⟩
  intro name hname
  rcases List.mem_pair.1 hname with rfl | rfl
  · exact ⟨hcard, hcomes _ hcard⟩
  · exact ⟨hfriend, hcomes _ hfriend⟩

/-- users and posts, neither of which are the other -/
def postSchema : SchemaDocument :=
  [.type ⟨none, "User", [], .object [] [⟨none, "id", [], .nonNull (.named "ID"), []⟩]⟩,
    .type ⟨none, "Post", [], .object [] [⟨none, "id", [], .nonNull (.named "ID"), []⟩]⟩]

/-- a fragment that no document defines, spread for posts only -/
def postSpread : SelectionSet :=
  [.field none "id" [] [] [], .inline (some "Post") [] [.spread "Missing" []]]

/-- **A name of no fragment is reached and not reported**: it is spread for another type. -/
theorem unknown_not_reported :
    FragmentIndex.ofDocuments [] [] = .ok .empty ∧
      (∃ schema shapes, Schema.ofDocument postSchema = .ok schema ∧
        (runResolve (resolve ⟨schema, .empty, .plain⟩ "User" [postSpread]) []).1 = .ok shapes) ∧
      FragmentIndex.empty.Reaches postSpread "Missing" ∧ ¬ FragmentIndex.empty.Known "Missing" ∧
      FragmentIndex.empty.closure postSpread = .error (.unknownFragment "Missing") := by
  refine ⟨rfl, ⟨_, _, rfl, rfl⟩, ?_, nofun, ?_⟩
  · exact FragmentIndex.reaches_of_mem_spreads (by decide)
  · cbv

end ShapeContext

end GraphGen
