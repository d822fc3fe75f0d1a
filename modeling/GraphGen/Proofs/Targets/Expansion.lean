/-
What the trees of constants amount to.

A tree with imports holds the definition of its constant and takes over the definitions of the constants that it uses, which
take over those of theirs (`Expands`). `Linked` says what of this a module of constants guarantees: every variable that is
used is that of one constant, which holds a fragment of the index. So a tree with imports comes to one list of definitions
(`Denotes`), and each fragment is taken over once for every time that one of them spreads it (`countP_denoted`), where a tree
that carries its fragments has each of them once.

Main results:
- `Linked.mem_denoted_iff`: a tree with imports comes to the definitions that are carried.
- `Linked.perm_held_iff`: it comes to each of them once exactly when every fragment that is reached is spread by only one.
- `trees_agree_iff`: this for all constants of documents.
- `fragment_taken_twice`: a fragment that is spread by a query and by another fragment is defined twice.
-/
import GraphGen.Proofs.Targets.DeclarationOrder
import GraphGen.Proofs.Targets.Documents

namespace GraphGen

/-- the definitions that are taken over from the constants of fragments, and through these from others -/
inductive Expands (config : DocumentConstantsOptions) (constants : List Constant) :
    List String → List Definition → Prop where
  | nil : Expands config constants [] []
  | cons {name : String} {constant : Constant} {fragment : Fragment} {rest : List String} {own more : List Definition}
      (hm : constant ∈ constants) (hn : constant.name = name) (hf : constant.definition = .fragment fragment)
      (hown : Expands config constants (constant.used config) own) (hrest : Expands config constants rest more) :
      Expands config constants (name :: rest) (.fragment fragment :: own ++ more)

/-- the definitions that a constant comes to, its own and those that are taken over -/
def Constant.Denotes (config : DocumentConstantsOptions) (constants : List Constant) (constant : Constant)
    (all : List Definition) : Prop :=
  ∃ taken, Expands config constants (constant.used config) taken ∧ all = constant.definition :: taken

/-- whether the definition spreads the fragment of that name -/
def Definition.spreads (name : String) (d : Definition) : Bool :=
  d.selections.spreads.contains name

namespace DocumentConstants

variable {fragments : FragmentIndex} {documents : List LocatedDocument} {config : DocumentConstantsOptions}
  {made : List Constant}

/-- the index has one fragment of a name -/
theorem eq_of_has {first second : Fragment} (hf : fragments.Has first) (hs : fragments.Has second)
    (hname : first.name = second.name) : first = second := by
  obtain ⟨entry, he, rfl⟩ := hf
  obtain ⟨other, ho, rfl⟩ := hs
  rw [hname] at he
  cases he.symm.trans ho
  rfl

/-- the constants use those of the fragments that their definitions spread, and each fragment of the index has one -/
structure Linked (config : DocumentConstantsOptions) (fragments : FragmentIndex) (constants : List Constant) : Prop where
  content : ∀ c ∈ constants, contentOf .treeWithImports fragments c.definition.selections = .ok c.content
  named : ∀ c ∈ constants, ∀ fragment, c.definition = .fragment fragment →
    c.name = config.fragmentName fragment.name ∧ fragments.Has fragment
  present : ∀ fragment, fragments.Has fragment → ∃ c ∈ constants, c.definition = .fragment fragment
  own : ∀ name entry, fragments.get? name = some entry → entry.fragment.name = name

/-! ## What is taken over -/

/-- the definitions taken over for several constants are those for one after the other -/
theorem exists_expands_of_forall {names : List String} (h : ∀ name ∈ names, ∃ all, Expands config made [name] all) :
    ∃ all, Expands config made names all := by
  induction names with
  | nil => exact ⟨[], .nil⟩
  | cons name rest ih =>
    obtain ⟨hfirst, hrest⟩ := List.forall_mem_cons.1 h
    obtain ⟨more, hmore⟩ := ih hrest
    obtain ⟨_, hone⟩ := hfirst
    cases hone with
    | cons hm hn hf hown _ => exact ⟨_, .cons hm hn hf hown hmore⟩

section Linked

variable (hl : Linked config fragments made)

include hl

/-- a variable is that of one fragment, whose constant is always the same -/
theorem Linked.unique {first second : Constant} {f g : Fragment} (hfirst : first ∈ made) (hsecond : second ∈ made)
    (hf : first.definition = .fragment f) (hg : second.definition = .fragment g) (hname : first.name = second.name) :
    f = g ∧ first.used config = second.used config := by
  obtain ⟨hf', hhasf⟩ := hl.named first hfirst f hf
  obtain ⟨hg', hhasg⟩ := hl.named second hsecond g hg
  obtain rfl : f = g := eq_of_has hhasf hhasg (fragmentName_injective (hf'.symm.trans (hname.trans hg')))
  have hcontent := hl.content first hfirst
  rw [hf, ← hg, hl.content second hsecond] at hcontent
  exact ⟨rfl, by rw [Constant.used, Constant.used, Except.ok.inj hcontent]⟩

/-- the variables that are used, each once, are those of the fragments that are spread -/
theorem Linked.used {c : Constant} (hc : c ∈ made) :
    (c.used config).Nodup ∧ ∀ name, config.fragmentName name ∈ c.used config ↔ c.definition.spreads name = true := by
  obtain ⟨hnodup, hmem⟩ := mem_directFragments (contentOf_refers (Or.inr rfl) (hl.content c hc)).1
  refine ⟨hnodup.map fragmentName_injective, fun name => ?_⟩
  rw [Constant.used, List.mem_map_of_injective fragmentName_injective, hmem, Definition.spreads, List.contains_iff_mem]

/-- a fragment that a constant spreads has a constant -/
theorem Linked.exists_constant {c : Constant} (hc : c ∈ made) {variableName : String} (hu : variableName ∈ c.used config) :
    ∃ other ∈ made, ∃ fragment, other.definition = .fragment fragment ∧ other.name = variableName ∧
      c.definition.spreads fragment.name = true := by
  obtain ⟨name, hn, rfl⟩ := List.mem_map.1 hu
  have hdirect := (contentOf_refers (Or.inr rfl) (hl.content c hc)).1
  have hspread := ((mem_directFragments hdirect).2 name).1 hn
  obtain ⟨entry, he⟩ := Table.mem_keys_iff.1 ((succeeds_directFragments_iff _).1 ⟨_, hdirect⟩ name hspread)
  obtain rfl := hl.own name entry he
  obtain ⟨other, ho, hdef⟩ := hl.present entry.fragment ⟨entry, he, rfl⟩
  exact ⟨other, ho, entry.fragment, hdef, (hl.named other ho _ hdef).1, List.contains_iff_mem.2 hspread⟩

/-- what is taken over is determined -/
theorem Linked.expands_unique {names : List String} {first second : List Definition}
    (hf : Expands config made names first) (hs : Expands config made names second) : first = second := by
  induction hf generalizing second with
  | nil =>
    cases hs
    rfl
  | cons hm hn hf _ _ ihown ihrest =>
    cases hs with
    | cons hm' hn' hf' hown' hrest' =>
      obtain ⟨rfl, hused⟩ := hl.unique hm hm' hf hf' (hn.trans hn'.symm)
      rw [← hused] at hown'
      rw [ihown hown', ihrest hrest']

/-- **Taking over comes to an end**, since the fragments are in an order in which spreads only look ahead. -/
theorem Linked.exists_expands {order : List String} (ho : fragments.Finished order) :
    ∀ name ∈ order, ∃ all, Expands config made [config.fragmentName name] all := by
  induction ho with
  | nil => simp
  | @cons name entry done he hn hs hd ih =>
    refine List.forall_mem_cons.2 ⟨?_, ih⟩
    obtain rfl := hl.own name entry he
    obtain ⟨c, hc, hdef⟩ := hl.present entry.fragment ⟨entry, he, rfl⟩
    obtain ⟨own, hown⟩ : ∃ own, Expands config made (c.used config) own := by
      refine exists_expands_of_forall fun used hu => ?_
      obtain ⟨other, ho, fragment, hf, rfl, hspread⟩ := hl.exists_constant hc hu
      obtain ⟨hname, found, hfound, rfl⟩ := hl.named other ho fragment hf
      rw [hdef] at hspread
      rw [hname]
      exact ih _ (hs _ (List.contains_iff_mem.1 hspread) (FragmentIndex.known_of_get? hfound))
    exact ⟨_, .cons hc (hl.named c hc _ hdef).1 hdef hown .nil⟩

/-- **Every constant comes to a list of definitions.** -/
theorem Linked.exists_denotes {order : List String} (ho : fragments.Finished order)
    (hall : ∀ name, fragments.Known name → name ∈ order) {c : Constant} (hc : c ∈ made) :
    ∃ all, c.Denotes config made all := by
  obtain ⟨taken, ht⟩ : ∃ taken, Expands config made (c.used config) taken := by
    refine exists_expands_of_forall fun used hu => ?_
    obtain ⟨other, hother, fragment, hf, rfl, -⟩ := hl.exists_constant hc hu
    obtain ⟨hname, entry, he, rfl⟩ := hl.named other hother fragment hf
    rw [hname]
    exact hl.exists_expands ho _ (hall _ (FragmentIndex.known_of_get? he))
  exact ⟨_, taken, ht, rfl⟩

/-- **It comes to only one.** -/
theorem Linked.denotes_unique {c : Constant} {first second : List Definition} (hf : c.Denotes config made first)
    (hs : c.Denotes config made second) : first = second := by
  obtain ⟨taken, ht, rfl⟩ := hf
  obtain ⟨other, ho, rfl⟩ := hs
  rw [hl.expands_unique ht ho]

/-- fragments are taken over of the index, and only those that are reached -/
theorem Linked.reached_of_expands {selections : SelectionSet} {names : List String} {all : List Definition}
    (h : Expands config made names all)
    (hnames : ∀ name, config.fragmentName name ∈ names → fragments.Reaches selections name) :
    ∀ d ∈ all, ∃ fragment, d = .fragment fragment ∧ fragments.Has fragment ∧ fragments.Reaches selections fragment.name := by
  induction h with
  | nil => simp
  | @cons name c fragment rest own more hm hn hf _ _ ihown ihrest =>
    obtain ⟨hname, hhas⟩ := hl.named c hm fragment hf
    have hreached : fragments.Reaches selections fragment.name := hnames _ (by simp [← hn, hname])
    rw [List.cons_append, List.forall_mem_cons, List.forall_mem_append]
    refine ⟨⟨fragment, rfl, hhas, hreached⟩, ihown fun other ho => ?_,
      ihrest fun other ho => hnames other (List.mem_cons_of_mem _ ho)⟩
    have hspread := ((hl.used hm).2 other).1 ho
    obtain ⟨entry, he, rfl⟩ := hhas
    rw [hf] at hspread
    exact hreached.next he (List.contains_iff_mem.1 hspread)

/-- among the variables that a constant uses, that of a fragment stands once if the fragment is spread -/
theorem Linked.count_used {c : Constant} (hc : c ∈ made) (name : String) :
    (c.used config).count (config.fragmentName name) = if c.definition.spreads name then 1 else 0 := by
  obtain ⟨hnodup, hmem⟩ := hl.used hc
  by_cases hspread : c.definition.spreads name = true
  · rw [List.count_eq_one_of_mem hnodup ((hmem name).2 hspread), if_pos hspread]
  · rw [List.count_eq_zero_of_not_mem (mt (hmem name).1 hspread), if_neg hspread]

/-- a fragment is taken over for every use of its constant: one that was there before, or one by a definition that is taken
over -/
theorem Linked.countP_expands {names : List String} {all : List Definition} (h : Expands config made names all)
    (name : String) : all.countP (Definition.defines name) =
      names.count (config.fragmentName name) + all.countP (Definition.spreads name) := by
  induction h with
  | nil => rfl
  | @cons first c fragment rest own more hm hn hf _ _ ihown ihrest =>
    have hdefines : (Definition.fragment fragment).defines name = (first == config.fragmentName name) := by
      rw [Definition.defines, ← hn, (hl.named c hm fragment hf).1, Bool.eq_iff_iff, decide_eq_true_iff, beq_iff_eq]
      exact fragmentName_injective.eq_iff.symm
    rw [hl.count_used hm, hf] at ihown
    rw [List.cons_append, List.countP_cons, List.countP_cons, List.countP_append, List.countP_append, List.count_cons, ihown,
      ihrest, hdefines]
    omega

/-- **How often a fragment is defined.** A constant comes to one definition of it for every definition that spreads it, and
its own. -/
theorem Linked.countP_denoted {c : Constant} (hc : c ∈ made) {all : List Definition} (h : c.Denotes config made all)
    (name : String) : all.countP (Definition.defines name) =
      (if c.definition.defines name then 1 else 0) + all.countP (Definition.spreads name) := by
  obtain ⟨taken, ht, rfl⟩ := h
  rw [List.countP_cons, List.countP_cons, hl.countP_expands ht, hl.count_used hc]
  omega

end Linked

/-! ## Against what is carried -/

/-- definitions are different when those behind the first are fragments, and no fragment is defined twice -/
theorem nodup_of_countP_le {d : Definition} {rest : List Definition} (hrest : ∀ x ∈ rest, ∃ fragment, x = .fragment fragment)
    (h : ∀ name, (d :: rest).countP (Definition.defines name) ≤ 1) : (d :: rest).Nodup := by
  refine List.nodup_iff_sublist.2 fun x hx => ?_
  obtain ⟨fragment, rfl⟩ := hrest x (List.singleton_sublist.1 hx.tail)
  have htwice := (hx.countP_le (p := Definition.defines fragment.name)).trans (h fragment.name)
  simp [Definition.defines] at htwice

section Carried

variable {d : Constant} (hd : d.SelfContained fragments)

include hd

/-- a fragment is carried once, and is not the one that is carried for -/
theorem countP_held_le (name : String) : d.held.countP (Definition.defines name) ≤ 1 := by
  by_cases hown : d.definition.defines name = true
  · cases hdef : d.definition with
    | operation op =>
      rw [hdef] at hown
      cases hown
    | fragment fragment =>
      rw [hdef] at hown
      rw [← of_decide_eq_true hown, hd.unrepeated fragment hdef]
  · rw [countP_held, if_neg hown]
    exact List.nodup_iff_count_le_one.1 hd.nodup name

theorem held_nodup : d.held.Nodup := by
  refine nodup_of_countP_le (fun x hx => ?_) (countP_held_le hd)
  obtain ⟨fragment, -, rfl⟩ := List.mem_map.1 hx
  exact ⟨fragment, rfl⟩

/-- what is reached is carried, and is not what is carried for -/
theorem countP_held_of_reaches {name : String} (hr : fragments.Reaches d.definition.selections name) :
    d.held.countP (Definition.defines name) = 1 ∧ d.definition.defines name = false := by
  have hle := countP_held_le hd name
  rw [countP_held, List.count_eq_one_of_mem hd.nodup ((hd.reached name).2 hr)] at hle ⊢
  split at hle
  · omega
  · rename_i hown
    exact ⟨by rw [if_neg hown], Bool.eq_false_iff.2 hown⟩

/-- what is spread in a definition that is held is reached -/
theorem reaches_of_mem_held {x : Definition} (hm : x ∈ d.held) {name : String} (hs : x.spreads name = true) :
    fragments.Reaches d.definition.selections name := by
  have hspread := List.contains_iff_mem.1 hs
  rcases List.mem_cons.1 hm with rfl | hm
  · exact FragmentIndex.reaches_of_mem_spreads hspread
  · obtain ⟨fragment, hf, rfl⟩ := List.mem_map.1 hm
    obtain ⟨entry, he, rfl⟩ := hd.indexed fragment hf
    exact ((hd.reached _).1 (List.mem_map_of_mem hf)).next he hspread

end Carried

section Both

variable (hl : Linked config fragments made) {c d : Constant} (hc : c ∈ made) (hsame : d.definition = c.definition)
  (hd : d.SelfContained fragments) {all : List Definition} (ha : c.Denotes config made all)

include hl hc ha

/-- all but the first definition that a constant comes to are fragments that it reaches -/
theorem Linked.reached_of_denotes : ∃ taken, all = c.definition :: taken ∧ ∀ x ∈ taken, ∃ fragment,
    x = .fragment fragment ∧ fragments.Has fragment ∧ fragments.Reaches c.definition.selections fragment.name := by
  obtain ⟨taken, ht, rfl⟩ := ha
  refine ⟨taken, rfl, hl.reached_of_expands ht fun name hn => ?_⟩
  exact FragmentIndex.reaches_of_mem_spreads (List.contains_iff_mem.1 (((hl.used hc).2 name).1 hn))

theorem Linked.has_of_mem_denoted {fragment : Fragment} (hm : .fragment fragment ∈ all) : fragments.Has fragment := by
  obtain ⟨taken, rfl, htaken⟩ := hl.reached_of_denotes hc ha
  rcases List.mem_cons.1 hm with heq | hm
  · exact (hl.named c hc fragment heq.symm).2
  · obtain ⟨_, heq, hhas, -⟩ := htaken _ hm
    cases heq
    exact hhas

/-- a fragment that is spread in a definition is among them -/
theorem Linked.mem_denoted_of_spreads {x : Definition} (hx : x ∈ all) {name : String} (hs : x.spreads name = true)
    (hown : c.definition.defines name = false) : ∃ fragment, .fragment fragment ∈ all ∧ fragment.name = name := by
  have hcount := hl.countP_denoted hc ha name
  rw [hown] at hcount
  have hpos : 0 < all.countP (Definition.defines name) := by
    have := List.countP_pos_iff.2 ⟨x, hx, hs⟩
    simp only [Bool.false_eq_true, if_false] at hcount
    omega
  obtain ⟨y, hy, hdefines⟩ := List.countP_pos_iff.1 hpos
  cases y with
  | operation op => cases hdefines
  | fragment fragment => exact ⟨fragment, hy, of_decide_eq_true hdefines⟩

/-- only one definition spreads the fragment, and is there once if it is a fragment itself, so that the fragment is taken over
once -/
theorem Linked.countP_spreads_le {name : String} {x : Definition} (honly : ∀ y ∈ all, y.spreads name = true → y = x)
    (hx : ∀ fragment, x = .fragment fragment → all.countP (Definition.defines fragment.name) ≤ 1) :
    all.countP (Definition.spreads name) ≤ 1 := by
  cases x with
  | operation op =>
    obtain ⟨taken, rfl, htaken⟩ := hl.reached_of_denotes hc ha
    have hnone : taken.countP (Definition.spreads name) = 0 := by
      refine List.countP_eq_zero.2 fun y hy hs => ?_
      obtain ⟨fragment, rfl, -⟩ := htaken y hy
      cases honly _ (List.mem_cons_of_mem _ hy) hs
    rw [List.countP_cons, hnone]
    split <;> omega
  | fragment fragment =>
    refine le_trans (List.countP_mono_left fun y hy hs => ?_) (hx fragment rfl)
    rw [honly y hy hs]
    exact decide_eq_true rfl

include hsame hd

/-- a fragment that is reached is among them -/
theorem Linked.mem_denoted_of_reaches {name : String} (hr : fragments.Reaches c.definition.selections name) :
    ∃ fragment, .fragment fragment ∈ all ∧ fragment.name = name := by
  have hother : ∀ name, fragments.Reaches c.definition.selections name → c.definition.defines name = false := by
    rw [← hsame]
    exact fun name hr => (countP_held_of_reaches hd hr).2
  induction hr with
  | spread hm hs =>
    have hmem : c.definition ∈ all := by
      obtain ⟨taken, -, rfl⟩ := ha
      exact List.mem_cons_self
    have hspread := List.contains_iff_mem.2 ((Selection.mem_spreadsOf_iff _ _).2 ⟨_, hm, hs⟩)
    exact hl.mem_denoted_of_spreads hc ha hmem hspread (hother _ (.spread hm hs))
  | through hr he hm hs ih =>
    obtain ⟨fragment, hf, hname⟩ := ih
    have hown := hl.own _ _ he
    obtain rfl := eq_of_has (hl.has_of_mem_denoted hc ha hf) ⟨_, by rwa [hown], rfl⟩ (hname.trans hown.symm)
    have hspread := List.contains_iff_mem.2 ((Selection.mem_spreadsOf_iff _ _).2 ⟨_, hm, hs⟩)
    exact hl.mem_denoted_of_spreads hc ha hf hspread (hother _ (.through hr he hm hs))

/-- **A constant comes to the definitions that are carried.** -/
theorem Linked.mem_denoted_iff (x : Definition) : x ∈ all ↔ x ∈ d.held := by
  constructor
  · intro hx
    obtain ⟨taken, rfl, htaken⟩ := hl.reached_of_denotes hc ha
    rcases List.mem_cons.1 hx with rfl | hx
    · exact hsame ▸ List.mem_cons_self
    · obtain ⟨fragment, rfl, hhas, hr⟩ := htaken x hx
      obtain ⟨other, ho, hname⟩ := List.mem_map.1 ((hd.reached fragment.name).2 (hsame ▸ hr))
      rw [eq_of_has hhas (hd.indexed other ho) hname.symm]
      exact List.mem_cons_of_mem _ (List.mem_map_of_mem ho)
  · intro hx
    rcases List.mem_cons.1 hx with rfl | hx
    · obtain ⟨taken, rfl, -⟩ := hl.reached_of_denotes hc ha
      exact hsame ▸ List.mem_cons_self
    · obtain ⟨fragment, hf, rfl⟩ := List.mem_map.1 hx
      have hr := hsame ▸ (hd.reached fragment.name).1 (List.mem_map_of_mem hf)
      obtain ⟨other, ho, hname⟩ := hl.mem_denoted_of_reaches hc hsame hd ha hr
      rw [← eq_of_has (hl.has_of_mem_denoted hc ha ho) (hd.indexed fragment hf) hname]
      exact ho

/-- when each fragment that is reached is spread by one definition that is carried, each is defined at most once, since that
one definition is there once in turn -/
theorem Linked.countP_denoted_le {order : List String} (horder : fragments.Finished order)
    (hall : ∀ name, fragments.Known name → name ∈ order)
    (honce : ∀ name, fragments.Reaches c.definition.selections name → d.held.countP (Definition.spreads name) = 1)
    (name : String) : all.countP (Definition.defines name) ≤ 1 := by
  have hheld := hl.mem_denoted_iff hc hsame hd ha
  have hunreached : ∀ name, ¬ fragments.Reaches c.definition.selections name →
      all.countP (Definition.defines name) ≤ 1 := by
    intro name hr
    have hnone : all.countP (Definition.spreads name) = 0 :=
      List.countP_eq_zero.2 fun x hx hs => hr (hsame ▸ reaches_of_mem_held hd ((hheld x).1 hx) hs)
    rw [hl.countP_denoted hc ha, hnone]
    split <;> omega
  have hknown : ∀ name, fragments.Reaches c.definition.selections name → fragments.Known name := by
    intro name hr
    obtain ⟨fragment, hf, rfl⟩ := hl.mem_denoted_of_reaches hc hsame hd ha hr
    obtain ⟨entry, he, -⟩ := hl.has_of_mem_denoted hc ha hf
    exact FragmentIndex.known_of_get? he
  refine horder.forall_of_spreaders (fun name hstep => ?_) (fun name hn => hunreached name fun hr => ?_) name
  · by_cases hr : fragments.Reaches c.definition.selections name
    · obtain ⟨x, hx⟩ := List.length_eq_one_iff.1 (List.countP_eq_length_filter.symm.trans (honce name hr))
      obtain ⟨hxheld, hxspread⟩ := List.mem_filter.1 (hx.symm ▸ List.mem_singleton_self x)
      rw [hl.countP_denoted hc ha, ← hsame, (countP_held_of_reaches hd (hsame ▸ hr)).2, if_neg Bool.false_ne_true,
        Nat.zero_add]
      refine hl.countP_spreads_le hc ha (x := x) (fun y hy hs => ?_) fun fragment hf => ?_
      · exact List.mem_singleton.1 (hx ▸ List.mem_filter.2 ⟨(hheld y).1 hy, hs⟩)
      · subst hf
        obtain ⟨entry, he, rfl⟩ := hl.has_of_mem_denoted hc ha ((hheld _).2 hxheld)
        exact hstep _ ⟨⟨entry, he, List.contains_iff_mem.1 hxspread⟩, hknown name hr⟩
    · exact hunreached name hr
  · exact hn (hall name (hknown name hr))

/-- **Both come to the same** when every fragment that is reached is spread by one definition only, and otherwise a
definition is repeated. -/
theorem Linked.perm_held_iff {order : List String} (horder : fragments.Finished order)
    (hall : ∀ name, fragments.Known name → name ∈ order) : all.Perm d.held ↔
      ∀ name, fragments.Reaches c.definition.selections name → d.held.countP (Definition.spreads name) = 1 := by
  constructor
  · intro hperm name hr
    obtain ⟨hone, hother⟩ := countP_held_of_reaches hd (hsame ▸ hr)
    have hcount := hl.countP_denoted hc ha name
    rw [hperm.countP_eq, hperm.countP_eq, hone, ← hsame, hother] at hcount
    simpa using hcount.symm
  · intro honce
    have hnodup : all.Nodup := by
      obtain ⟨taken, rfl, htaken⟩ := hl.reached_of_denotes hc ha
      refine nodup_of_countP_le (fun x hx => ?_) (hl.countP_denoted_le hc hsame hd ha horder hall honce)
      obtain ⟨fragment, hf, -⟩ := htaken x hx
      exact ⟨fragment, hf⟩
    exact (List.perm_ext_iff_of_nodup hnodup (held_nodup hd)).2 (hl.mem_denoted_iff hc hsame hd ha)

end Both

/-! ## All constants -/

/-- the fragments among the definitions are those of the documents, under the names of their variables -/
theorem mem_definitions_fragment_iff {name : String} {fragment : Fragment} :
    (name, Definition.fragment fragment) ∈ definitions config documents ↔
      name = config.fragmentName fragment.name ∧ ∃ source ∈ documents, fragment ∈ source.fragments := by
  constructor
  · intro hm
    refine ⟨?_, fragment_of_mem_definitions hm⟩
    rcases List.mem_append.1 hm with hm | hm
    · obtain ⟨other, -, heq⟩ := List.mem_map.1 hm
      obtain ⟨rfl, hother⟩ := Prod.mk.inj heq
      cases hother
      rfl
    · obtain ⟨op, -, hop⟩ := List.mem_filterMap.1 hm
      obtain ⟨opName, -, heq⟩ := Option.map_eq_some_iff.1 hop
      cases (Prod.mk.inj heq).2
  · rintro ⟨rfl, hf⟩
    exact List.mem_append_left _ (List.mem_map.2 ⟨fragment, List.mem_flatMap.2 hf, rfl⟩)

/-- constants that take over others are linked, when no fragment comes from outside -/
theorem linked_of_constants (h : FragmentIndex.ofDocuments documents [] = .ok fragments)
    (hm : config.mode = .treeWithImports) (hmade : constants config fragments documents = .ok made) :
    Linked config fragments made := by
  obtain ⟨hdefinitions, hcontents⟩ := constants_eq_ok hmade
  refine ⟨hm ▸ hcontents, fun c hc fragment hdef => ?_, fun fragment hhas => ?_,
    FragmentIndex.underOwnNames_of_ofDocuments h⟩
  · have hentry : (c.name, c.definition) ∈ definitions config documents :=
      hdefinitions ▸ List.mem_map.2 ⟨c, hc, rfl⟩
    rw [hdef] at hentry
    obtain ⟨hname, source, hs, hf⟩ := mem_definitions_fragment_iff.1 hentry
    exact ⟨hname, has_of_mem_fragments h hs hf⟩
  · obtain ⟨entry, he, rfl⟩ := hhas
    obtain ⟨hkept, -⟩ := (FragmentIndex.get?_iff_of_entries (FragmentIndex.ofDocuments_ok h).1).1 he
    rw [FragmentIndex.keptFragments, FragmentIndex.unclaimed, List.map_nil, List.append_nil] at hkept
    obtain ⟨source, hs, hkept⟩ := List.mem_flatMap.1 hkept
    obtain ⟨fragment, hf, rfl⟩ := List.mem_map.1 hkept
    have hentry : (config.fragmentName fragment.name, Definition.fragment fragment) ∈ definitions config documents :=
      mem_definitions_fragment_iff.2 ⟨rfl, source, hs, hf⟩
    obtain ⟨c, hc, heq⟩ := List.mem_map.1 (hdefinitions.symm ▸ hentry)
    exact ⟨c, hc, (Prod.mk.inj heq).2⟩

/-- constants that carry fragments are self-contained, and are written from what they hold -/
theorem selfContained_of_constants (h : FragmentIndex.ofDocuments documents [] = .ok fragments) (hm : config.mode = .tree)
    (hmade : constants config fragments documents = .ok made) : ∀ c ∈ made, c.SelfContained fragments ∧
      c.render config = "export const " ++ c.name ++ " = " ++ writeHeld .tree c.held := by
  obtain ⟨hdefinitions, hcontents⟩ := constants_eq_ok hmade
  intro c hc
  obtain ⟨found, hfound, hcarried, hcontent⟩ := contentOf_carries (Or.inl hm) (hcontents c hc)
  refine ⟨selfContained_of_closure h (fun fragment hdef => ?_) hfound hcarried, hm ▸ render_of_content hcontent⟩
  have hentry : (c.name, c.definition) ∈ definitions config documents := hdefinitions ▸ List.mem_map.2 ⟨c, hc, rfl⟩
  rw [hdef] at hentry
  obtain ⟨-, source, hs, hf⟩ := mem_definitions_fragment_iff.1 hentry
  exact has_of_mem_fragments h hs hf

/-- **Trees with imports against trees that carry their fragments.** For documents without fragments from outside, whose
index was built, whenever they become constants of both kinds, the constants are for the same definitions, and are written from
what they use and from what they hold. A tree with imports comes to one list of definitions. These are the definitions of the
tree that carries its fragments, where each stands once; and they stand once here too exactly when every fragment that is
reached is spread by only one of them. -/
theorem trees_agree_iff {input : PluginView} {other : Json} {ctx ctx' after after' : SharedValues}
    {imports whole : Contribution} (h : FragmentIndex.ofDocuments input.documents [] = .ok input.fragments)
    (hconfig : readConfig input.config = .ok config) (hm : config.mode = .treeWithImports)
    (hother : readConfig other = .ok { config with mode := .tree })
    (hg : Plugin.documentConstants.generate input ctx = (.ok imports, after))
    (hg' : Plugin.documentConstants.generate { input with config := other } ctx' = (.ok whole, after')) :
    ∃ referring carrying : List Constant,
      referring.map (fun c => (c.name, c.definition)) = definitions config input.documents ∧
      carrying.map (fun c => (c.name, c.definition)) = definitions config input.documents ∧
      imports.content = String.intercalate "\n\n" (referring.map fun c =>
        "export const " ++ c.name ++ " = " ++ writeReferring .treeWithImports c.definition (c.used config)) ∧
      whole.content = String.intercalate "\n\n"
        (carrying.map fun c => "export const " ++ c.name ++ " = " ++ writeHeld .tree c.held) ∧
      ∀ c ∈ referring, ∀ d ∈ carrying, d.definition = c.definition → d.held.Nodup ∧
        ∃ all, c.Denotes config referring all ∧ (∀ more, c.Denotes config referring more → more = all) ∧
          (∀ x, x ∈ all ↔ x ∈ d.held) ∧
          (all.Perm d.held ↔ ∀ name, input.fragments.Reaches c.definition.selections name →
            d.held.countP (Definition.spreads name) = 1) := by
  have htree : DocumentMode.tree ≠ .external := nofun
  obtain ⟨referring, hreferring, hcontent⟩ := constants_of_generate hconfig (by rw [hm]; nofun) hg
  obtain ⟨carrying, hcarrying, hcontent'⟩ := constants_of_generate hother htree hg'
  obtain ⟨order, horder, hall⟩ := FragmentIndex.finished_order (FragmentIndex.ofDocuments_ok h).2
  have hl := linked_of_constants h hm hreferring
  have hself := selfContained_of_constants h rfl hcarrying
  refine ⟨referring, carrying, (constants_eq_ok hreferring).1, (constants_eq_ok hcarrying).1, ?_, ?_, ?_⟩
  · rw [hcontent, ← hm]
    refine congrArg (String.intercalate "\n\n") (List.map_congr_left fun c hc => ?_)
    exact render_of_referenced (contentOf_refers (Or.inr hm) ((constants_eq_ok hreferring).2 c hc)).2
  · rw [hcontent']
    exact congrArg (String.intercalate "\n\n") (List.map_congr_left fun c hc => (hself c hc).2)
  · intro c hc d hd hsame
    obtain ⟨all, ha⟩ := hl.exists_denotes horder hall hc
    exact ⟨held_nodup (hself d hd).1, all, ha, fun more hmore => hl.denotes_unique hmore ha,
      hl.mem_denoted_iff hc hsame (hself d hd).1 ha, hl.perm_held_iff hc hsame (hself d hd).1 ha horder hall⟩

/-- a document with a fragment, one that spreads it, and a query that spreads both -/
def sharedView : PluginView :=
  ⟨default, [⟨"me.graphql", [.fragment bitsFragment, .fragment moreFragment, .operation meQuery]⟩],
    ⟨Table.ofList [("Bits", ⟨bitsFragment, "me.graphql", false⟩), ("More", ⟨moreFragment, "me.graphql", false⟩)]⟩,
    .obj [("documentMode", .str "documentNodeImportFragments")], "me.ts", []⟩

/-- the options for trees with imports -/
def importOptions : DocumentConstantsOptions :=
  { plainOptions with mode := .treeWithImports }

/-- the constants of the document, with imports -/
def sharedConstants : List Constant :=
  [⟨"BitsFragmentDoc", .fragment bitsFragment, .treeWithImports []⟩,
    ⟨"MoreFragmentDoc", .fragment moreFragment, .treeWithImports ["Bits"]⟩,
    ⟨"MeDocument", .operation meQuery, .treeWithImports ["More", "Bits"]⟩]

/-- the same with all fragments carried -/
def wholeConstants : List Constant :=
  [⟨"BitsFragmentDoc", .fragment bitsFragment, .tree []⟩,
    ⟨"MoreFragmentDoc", .fragment moreFragment, .tree [bitsFragment]⟩,
    ⟨"MeDocument", .operation meQuery, .tree [moreFragment, bitsFragment]⟩]

theorem constants_sharedView :
    constants importOptions sharedView.fragments sharedView.documents = .ok sharedConstants := rfl

/-- the constants with imports are written -/
theorem generate_sharedView : Plugin.documentConstants.generate sharedView .empty =
    (.ok ⟨["import \x7b DocumentNode \x7d from 'graphql';"],
      String.intercalate "\n\n" (sharedConstants.map (·.render importOptions)), []⟩, .empty) := by
  have hconfig : readConfig sharedView.config = .ok importOptions := rfl
  exact congrArg (Prod.mk · _) (bind_eq_ok_iff.2 ⟨_, hconfig, bind_eq_ok_iff.2 ⟨_, constants_sharedView, rfl⟩⟩)

/-- the constants that carry all are written -/
theorem generate_wholeView : Plugin.documentConstants.generate
      { sharedView with config := .obj [("documentMode", .str "documentNode")] } .empty =
    (.ok ⟨["import \x7b DocumentNode \x7d from 'graphql';"],
      String.intercalate "\n\n" (wholeConstants.map (·.render { importOptions with mode := .tree })), []⟩, .empty) := by
  have hconfig : readConfig (.obj [("documentMode", .str "documentNode")]) = .ok { importOptions with mode := .tree } := rfl
  have hconstants : constants { importOptions with mode := .tree } sharedView.fragments sharedView.documents =
      .ok wholeConstants := by cbv
  exact congrArg (Prod.mk · _) (bind_eq_ok_iff.2 ⟨_, hconfig, bind_eq_ok_iff.2 ⟨_, hconstants, rfl⟩⟩)

theorem trees_agree_iff_shared :
    FragmentIndex.ofDocuments sharedView.documents [] = .ok sharedView.fragments ∧
    ∃ (imports whole : Contribution) (referring carrying : List Constant),
      Plugin.documentConstants.generate sharedView .empty = (.ok imports, .empty) ∧
      Plugin.documentConstants.generate { sharedView with config := .obj [("documentMode", .str "documentNode")] } .empty =
        (.ok whole, .empty) ∧
      referring.map (fun c => (c.name, c.definition)) = definitions importOptions sharedView.documents ∧
      carrying.map (fun c => (c.name, c.definition)) = definitions importOptions sharedView.documents ∧
      ∀ c ∈ referring, ∀ d ∈ carrying, d.definition = c.definition →
        ∃ all, c.Denotes importOptions referring all ∧ ∀ x, x ∈ all ↔ x ∈ d.held := by
  have hindex : FragmentIndex.ofDocuments sharedView.documents [] = .ok sharedView.fragments := rfl
  have hconfig : readConfig sharedView.config = .ok importOptions := rfl
  obtain ⟨referring, carrying, hreferring, hcarrying, -, -, hall⟩ :=
    trees_agree_iff hindex hconfig rfl rfl generate_sharedView generate_wholeView
  refine ⟨hindex, _, _, referring, carrying, generate_sharedView, generate_wholeView, hreferring, hcarrying,
    fun c hc d hd hsame => ?_⟩
  obtain ⟨-, all, ha, -, hmem, -⟩ := hall c hc d hd hsame
  exact ⟨all, ha, hmem⟩

/-- **A fragment is defined twice:** the query takes over `Bits` with the constant of `More`, which spreads it too. -/
theorem fragment_taken_twice :
    FragmentIndex.ofDocuments sharedView.documents [] = .ok sharedView.fragments ∧
    ∃ (imports whole : Contribution) (me carrying : Constant),
      Plugin.documentConstants.generate sharedView .empty = (.ok imports, .empty) ∧
      imports.content = String.intercalate "\n\n" (sharedConstants.map (·.render importOptions)) ∧
      Plugin.documentConstants.generate { sharedView with config := .obj [("documentMode", .str "documentNode")] } .empty =
        (.ok whole, .empty) ∧
      whole.content = String.intercalate "\n\n" (wholeConstants.map (·.render { importOptions with mode := .tree })) ∧
      me ∈ sharedConstants ∧ carrying ∈ wholeConstants ∧ carrying.name = me.name ∧
      carrying.held = [.operation meQuery, .fragment moreFragment, .fragment bitsFragment] ∧
      me.Denotes importOptions sharedConstants
        [.operation meQuery, .fragment moreFragment, .fragment bitsFragment, .fragment bitsFragment] ∧
      ∀ all, me.Denotes importOptions sharedConstants all → ¬ all.Perm carrying.held := by
  have hindex : FragmentIndex.ofDocuments sharedView.documents [] = .ok sharedView.fragments := rfl
  have hl := linked_of_constants hindex rfl constants_sharedView
  have hbits : Expands importOptions sharedConstants ["BitsFragmentDoc"] ([.fragment bitsFragment] ++ []) :=
    .cons List.mem_cons_self rfl rfl .nil .nil
  have hme : Constant.Denotes importOptions sharedConstants
      ⟨"MeDocument", .operation meQuery, .treeWithImports ["More", "Bits"]⟩
      [.operation meQuery, .fragment moreFragment, .fragment bitsFragment, .fragment bitsFragment] :=
    ⟨_, .cons (List.mem_cons_of_mem _ List.mem_cons_self) rfl rfl hbits hbits, rfl⟩
  refine ⟨rfl, _, _, ⟨"MeDocument", .operation meQuery, .treeWithImports ["More", "Bits"]⟩,
    ⟨"MeDocument", .operation meQuery, .tree [moreFragment, bitsFragment]⟩, generate_sharedView, rfl, generate_wholeView,
    rfl, by simp [sharedConstants], by simp [wholeConstants], rfl, rfl, hme, fun all hall hperm => ?_⟩
  rw [hl.denotes_unique hall hme] at hperm
  exact absurd hperm.length_eq (by decide)

end DocumentConstants

end GraphGen
