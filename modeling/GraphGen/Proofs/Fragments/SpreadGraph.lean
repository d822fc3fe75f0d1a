/-
The graph of fragment spreads.

A fragment index is a graph: its names are the nodes, and `a` leads to `b` when the fragment `a` spreads `b` somewhere in
its selections (`Selection.Mentions`, at any depth) and `b` is known. Spreads of unknown names lead nowhere.

- `IsCycle`: a path that comes back to its first name, repeats no other name, and follows the relation at every step.
- `FragmentIndex.OnPath`: what holds of the names that are entered, on the way to a further name. The names are distinct
  and known, so there are at most as many as fragments (`OnPath.length_le`), and coming back to one of them closes a
  cycle (`OnPath.isCycle`).
- `FragmentIndex.Finished`: names in an order in which every fragment stands before those that it spreads. Such names lie
  on no cycle (`Finished.no_cycle`), and what holds of a fragment as soon as it holds of those that spread it holds of all
  (`Finished.forall_of_spreaders`).
-/
import GraphGen.Document.FragmentIndex
import Mathlib.Data.List.Chain
import Mathlib.Data.List.Nodup
import Mathlib.Data.List.Perm.Subperm
import Mathlib.Data.List.TakeWhile
import Mathlib.Logic.Relation

namespace GraphGen

/-! ## Spreads at any depth -/

/-- the selection spreads the fragment of that name, at any depth -/
inductive Selection.Mentions (name : String) : Selection → Prop where
  | here (directives : List Directive) : Mentions name (.spread name directives)
  | inField {aliasName : Option String} {fieldName : String} {arguments : List (String × Value)}
      {directives : List Directive} {selections : List Selection} {inner : Selection} (hm : inner ∈ selections)
      (hi : Mentions name inner) : Mentions name (.field aliasName fieldName arguments directives selections)
  | inInline {condition : Option String} {directives : List Directive} {selections : List Selection}
      {inner : Selection} (hm : inner ∈ selections) (hi : Mentions name inner) :
      Mentions name (.inline condition directives selections)

namespace Selection

mutual

theorem mem_spreads_iff (name : String) : (selection : Selection) →
    (name ∈ spreads selection ↔ selection.Mentions name)
  | .field _ _ _ _ selections => by
    rw [spreads, mem_spreadsOf_iff name selections]
    constructor
    · rintro ⟨inner, hm, hi⟩
      exact .inField hm hi
    · rintro (_ | ⟨hm, hi⟩)
      exact ⟨_, hm, hi⟩
  | .spread other _ => by
    rw [spreads, List.mem_singleton]
    constructor
    · rintro rfl
      exact .here _
    · rintro ⟨_⟩
      rfl
  | .inline _ _ selections => by
    rw [spreads, mem_spreadsOf_iff name selections]
    constructor
    · rintro ⟨inner, hm, hi⟩
      exact .inInline hm hi
    · rintro (_ | _ | ⟨hm, hi⟩)
      exact ⟨_, hm, hi⟩

theorem mem_spreadsOf_iff (name : String) : (selections : List Selection) →
    (name ∈ spreadsOf selections ↔ ∃ selection ∈ selections, selection.Mentions name)
  | [] => by simp [spreadsOf]
  | selection :: rest => by
    rw [spreadsOf, List.mem_append, mem_spreads_iff name selection, mem_spreadsOf_iff name rest]
    simp

end

end Selection

/-! ## Cycles -/

/-- the path comes back to its first name, repeats no other name, and follows the relation at every step -/
def IsCycle (edge : String → String → Prop) (path : List String) : Prop :=
  ∃ name rest, path = name :: rest ++ [name] ∧ (name :: rest).Nodup ∧ path.IsChain edge

theorem IsCycle.transGen {edge : String → String → Prop} {path : List String} (h : IsCycle edge path) :
    ∃ name, Relation.TransGen edge name name := by
  obtain ⟨name, rest, rfl, -, hc⟩ := h
  refine ⟨name, ?_⟩
  cases rest with
  | nil => exact .single (List.isChain_pair.1 hc)
  | cons next rest =>
    rw [List.cons_append, List.cons_append, List.isChain_cons_cons] at hc
    have htail : Relation.ReflTransGen edge next name :=
      List.relationReflTransGen_of_exists_isChain_cons (rest ++ [name]) hc.2 (by simp)
    exact Relation.TransGen.head' hc.1 htail

namespace FragmentIndex

/-- there is a fragment of that name -/
def Known (index : FragmentIndex) (name : String) : Prop := name ∈ index.entries.keys

/-- there is a fragment of the first name, and it spreads the second -/
def Spreads (index : FragmentIndex) (a b : String) : Prop :=
  ∃ entry, index.get? a = some entry ∧ b ∈ entry.spreads

/-- a spread of a known fragment -/
def Edge (index : FragmentIndex) (a b : String) : Prop := index.Spreads a b ∧ index.Known b

/-- no fragment spreads itself, directly or through others -/
def Acyclic (index : FragmentIndex) : Prop := ∀ name, ¬ Relation.TransGen index.Edge name name

variable {index : FragmentIndex}

theorem known_of_get? {name : String} {entry : IndexedFragment} (h : index.get? name = some entry) :
    index.Known name :=
  Table.mem_keys_iff.2 ⟨entry, h⟩

theorem not_known_of_get? {name : String} (h : index.get? name = none) : ¬ index.Known name :=
  Table.get?_eq_none_iff.1 h

/-! ## Entered names -/

/-- the names on the path are distinct and known, and the path leads on to `name` -/
structure OnPath (index : FragmentIndex) (path : List String) (name : String) : Prop where
  nodup : path.Nodup
  known : ∀ n ∈ path, index.Known n
  chain : (path ++ [name]).IsChain index.Spreads

theorem onPath_nil (name : String) : index.OnPath [] name :=
  ⟨List.nodup_nil, by simp, by simp⟩

/-- the path with a new known name entered holds distinct known names again -/
theorem OnPath.concat {path : List String} {name : String} (h : index.OnPath path name) (hn : name ∉ path)
    (hk : index.Known name) : (path ++ [name]).Nodup ∧ ∀ n ∈ path ++ [name], index.Known n := by
  constructor
  · rw [List.nodup_append]
    refine ⟨h.nodup, List.nodup_singleton _, ?_⟩
    intro a ha b hb hab
    rw [List.mem_singleton] at hb
    exact hn (hb ▸ hab ▸ ha)
  · intro n hm
    rcases List.mem_append.1 hm with hm | hm
    · exact h.known n hm
    · rw [List.mem_singleton] at hm
      exact hm ▸ hk

/-- entering a new name leads on to whatever its fragment spreads -/
theorem OnPath.enter {path : List String} {name next : String} {entry : IndexedFragment} (h : index.OnPath path name)
    (hn : name ∉ path) (he : index.get? name = some entry) (hs : next ∈ entry.spreads) :
    index.OnPath (path ++ [name]) next := by
  obtain ⟨hnodup, hknown⟩ := h.concat hn (known_of_get? he)
  refine ⟨hnodup, hknown, h.chain.append (List.isChain_singleton _) ?_⟩
  intro a ha b hb
  simp only [List.getLast?_concat, Option.mem_def, Option.some.injEq] at ha
  simp only [List.head?_cons, Option.mem_def, Option.some.injEq] at hb
  subst ha hb
  exact ⟨entry, he, hs⟩

/-- distinct known names are no more than there are fragments -/
theorem length_le_size {path : List String} (hn : path.Nodup) (hk : ∀ n ∈ path, index.Known n) :
    path.length ≤ index.size := by
  have hsub : path.Subperm index.entries.keys := hn.subperm hk
  have hlen : index.entries.keys.length = index.size := by simp [Table.keys, entryKeys, size, Table.size]
  exact hlen ▸ hsub.length_le

theorem OnPath.length_le {path : List String} {name : String} (h : index.OnPath path name) :
    path.length ≤ index.size :=
  length_le_size h.nodup h.known

/-- as long as there is a new name to enter, the path is shorter than there are fragments -/
theorem OnPath.length_lt {path : List String} {name : String} (h : index.OnPath path name) (hn : name ∉ path)
    (hk : index.Known name) : path.length < index.size := by
  obtain ⟨hnodup, hknown⟩ := h.concat hn hk
  have := length_le_size hnodup hknown
  rw [List.length_append, List.length_singleton] at this
  omega

theorem dropWhile_ne_eq_cons {path : List String} {name : String} (hm : name ∈ path) :
    ∃ rest, path.dropWhile (· ≠ name) = name :: rest := by
  induction path with
  | nil => simp at hm
  | cons first rest ih =>
    by_cases hf : first = name
    · exact ⟨rest, by simp [hf]⟩
    · obtain ⟨tail, ht⟩ := ih ((List.mem_cons.1 hm).resolve_left fun e => hf e.symm)
      exact ⟨tail, by rw [List.dropWhile_cons_of_pos (by simpa using hf)]; exact ht⟩

/-- coming back to a name of the path closes a cycle -/
theorem OnPath.isCycle {path : List String} {name : String} (h : index.OnPath path name) (hm : name ∈ path) :
    IsCycle index.Edge (cycleAt path name) := by
  have hsuf : path.dropWhile (· ≠ name) <:+ path := List.dropWhile_suffix _
  obtain ⟨rest, hrest⟩ := dropWhile_ne_eq_cons hm
  have hchain : (cycleAt path name).IsChain index.Spreads := by
    obtain ⟨front, hfront⟩ := hsuf
    have hc := h.chain
    rw [← hfront, List.append_assoc] at hc
    exact hc.right_of_append
  have hknown : ∀ n ∈ cycleAt path name, index.Known n := by
    intro n hn
    rcases List.mem_append.1 hn with hn | hn
    · exact h.known n (hsuf.subset hn)
    · rw [List.mem_singleton] at hn
      exact hn ▸ h.known name hm
  refine ⟨name, rest, by rw [cycleAt, hrest], ?_, ?_⟩
  · rw [← hrest]
    exact h.nodup.sublist hsuf.sublist
  · rw [List.IsChain.iff_mem] at hchain
    exact hchain.imp fun a b hab => ⟨hab.2.2, hknown b hab.2.1⟩

/-- without cycles the path never comes back to a name -/
theorem OnPath.not_mem {path : List String} {name : String} (h : index.OnPath path name) (ha : index.Acyclic) :
    name ∉ path := by
  intro hm
  obtain ⟨n, hn⟩ := (h.isCycle hm).transGen
  exact ha n hn

/-! ## Finished names -/

/-- every name is known and stands before all known names that its fragment spreads -/
inductive Finished (index : FragmentIndex) : List String → Prop where
  | nil : Finished index []
  | cons {name : String} {entry : IndexedFragment} {done : List String} (he : index.get? name = some entry)
      (hn : name ∉ done) (hs : ∀ next ∈ entry.spreads, index.Known next → next ∈ done) (hd : Finished index done) :
      Finished index (name :: done)

theorem Finished.nodup {done : List String} (h : index.Finished done) : done.Nodup := by
  induction h with
  | nil => exact List.nodup_nil
  | cons _ hn _ _ ih => exact List.nodup_cons.2 ⟨hn, ih⟩

theorem Finished.known {done : List String} (h : index.Finished done) : ∀ name ∈ done, index.Known name := by
  induction h with
  | nil => simp
  | cons he _ _ _ ih =>
    intro n hn
    rcases List.mem_cons.1 hn with rfl | hn
    · exact known_of_get? he
    · exact ih n hn

theorem Finished.closed {done : List String} (h : index.Finished done) {a b : String} (hm : a ∈ done)
    (he : index.Edge a b) : b ∈ done := by
  induction h with
  | nil => simp at hm
  | cons hget _ hs _ ih =>
    rcases List.mem_cons.1 hm with rfl | hm
    · obtain ⟨⟨entry, hentry, hb⟩, hk⟩ := he
      rw [hget] at hentry
      cases hentry
      exact List.mem_cons_of_mem _ (hs b hb hk)
    · exact List.mem_cons_of_mem _ (ih hm)

theorem Finished.transGen_mem {done : List String} (h : index.Finished done) {a b : String} (hm : a ∈ done)
    (ht : Relation.TransGen index.Edge a b) : b ∈ done := by
  induction ht with
  | single he => exact h.closed hm he
  | tail _ he ih => exact h.closed ih he

/-- **Finished names lie on no cycle.** Whatever the first name leads to lies behind it, where it does not stand. -/
theorem Finished.no_cycle {done : List String} (h : index.Finished done) :
    ∀ name ∈ done, ¬ Relation.TransGen index.Edge name name := by
  induction h with
  | nil => simp
  | @cons name entry done he hn hs hd ih =>
    have hfirst : ¬ Relation.TransGen index.Edge name name := by
      intro ht
      obtain ⟨next, ⟨⟨entry', he', hb⟩, hk⟩, hrest⟩ := Relation.TransGen.head'_iff.1 ht
      rw [he] at he'
      cases he'
      have hnext : next ∈ done := hs next hb hk
      rcases Relation.reflTransGen_iff_eq_or_transGen.1 hrest with rfl | hrest
      · exact hn hnext
      · exact hn (hd.transGen_mem hnext hrest)
    intro n hm
    rcases List.mem_cons.1 hm with rfl | hm
    · exact hfirst
    · exact ih n hm

/-- when all names are finished there is no cycle at all -/
theorem Finished.acyclic {done : List String} (h : index.Finished done) (ha : ∀ name, index.Known name → name ∈ done) :
    index.Acyclic := by
  intro name ht
  have hk : index.Known name := by
    obtain ⟨a, -, he⟩ := Relation.TransGen.tail'_iff.1 ht
    exact he.2
  exact h.no_cycle name (ha name hk) ht

/-- what a fragment has as soon as all that spread it have it, all names have, when those behind the finished ones do -/
theorem Finished.forall_of_spreaders {p : String → Prop} {done : List String} (h : index.Finished done)
    (hstep : ∀ name, (∀ other, index.Edge other name → p other) → p name) (hout : ∀ name, name ∉ done → p name) :
    ∀ name, p name := by
  induction h with
  | nil => exact fun name => hout name List.not_mem_nil
  | @cons name entry done he hn hs hd ih =>
    refine ih fun other ho => ?_
    by_cases hsame : other = name
    · subst hsame
      -- the first name is spread by no finished one
      refine hstep other fun spreader hedge => hout spreader fun hm => hn ?_
      rcases List.mem_cons.1 hm with rfl | hm
      · obtain ⟨⟨found, hf, hspread⟩, hk⟩ := hedge
        cases he.symm.trans hf
        exact hs _ hspread hk
      · exact hd.closed hm hedge
    · exact hout other fun hm => ho ((List.mem_cons.1 hm).resolve_left hsame)

end FragmentIndex

end GraphGen
