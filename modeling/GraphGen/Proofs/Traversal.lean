/-
Traversals that may fail.

What the success of a traversal says about its steps: `bind_eq_ok_iff` for two steps, `forM_eq_ok_iff` and `mapM_eq_ok_iff`
for a step on every element, `foldlM_invariant` for steps that change a state. Where no value matters, `Succeeds` says that
there is one.
-/
import Mathlib.Data.List.Forall2

namespace GraphGen

variable {ε α β : Type}

theorem bind_eq_ok_iff {outcome : Except ε α} {next : α → Except ε β} {result : β} :
    outcome >>= next = .ok result ↔ ∃ value, outcome = .ok value ∧ next value = .ok result := by
  cases outcome with
  | error error => exact ⟨nofun, nofun⟩
  | ok value =>
    constructor
    · exact fun h => ⟨value, rfl, h⟩
    · rintro ⟨_, ⟨⟩, h⟩
      exact h

/-- a check before another step -/
theorem check_bind_eq_ok_iff {check : Except ε Unit} {next : Unit → Except ε β} {result : β} :
    check >>= next = .ok result ↔ check = .ok () ∧ next () = .ok result := by
  rw [bind_eq_ok_iff]
  constructor
  · rintro ⟨⟨⟩, hcheck, hnext⟩
    exact ⟨hcheck, hnext⟩
  · rintro ⟨hcheck, hnext⟩
    exact ⟨(), hcheck, hnext⟩

theorem map_eq_ok_iff {outcome : Except ε α} {f : α → β} {result : β} :
    outcome.map f = .ok result ↔ ∃ value, outcome = .ok value ∧ f value = result := by
  cases outcome <;> simp [Except.map]

theorem forM_eq_ok_iff {l : List α} {check : α → Except ε Unit} : l.forM check = .ok () ↔ ∀ x ∈ l, check x = .ok () := by
  induction l with
  | nil => exact ⟨fun _ => by simp, fun _ => rfl⟩
  | cons x l ih =>
    show (check x >>= fun _ => l.forM check) = _ ↔ _
    rw [bind_eq_ok_iff, List.forall_mem_cons, ← ih]
    constructor
    · rintro ⟨_, hx, hl⟩
      exact ⟨hx, hl⟩
    · rintro ⟨hx, hl⟩
      exact ⟨(), hx, hl⟩

/-- the values of a traversal are those of its steps, in order -/
theorem mapM_eq_ok_iff {l : List α} {f : α → Except ε β} {values : List β} :
    l.mapM f = .ok values ↔ List.Forall₂ (fun x value => f x = .ok value) l values := by
  induction l generalizing values with
  | nil =>
    rw [List.forall₂_nil_left_iff]
    exact ⟨fun h => by cases h; rfl, fun h => by rw [h]; rfl⟩
  | cons x l ih =>
    rw [List.mapM_cons, bind_eq_ok_iff, List.forall₂_cons_left_iff]
    constructor
    · rintro ⟨value, hx, h⟩
      obtain ⟨rest, hl, h⟩ := bind_eq_ok_iff.1 h
      cases h
      exact ⟨value, rest, hx, ih.1 hl, rfl⟩
    · rintro ⟨value, rest, hx, hl, rfl⟩
      exact ⟨value, hx, bind_eq_ok_iff.2 ⟨rest, ih.2 hl, rfl⟩⟩

theorem exists_of_forall₂ {related : α → β → Prop} {l : List α} {values : List β} (h : List.Forall₂ related l values) :
    ∀ value ∈ values, ∃ x ∈ l, related x value := by
  induction h with
  | nil => simp
  | @cons x _ _ _ hx _ ih =>
    intro value hv
    rcases List.mem_cons.1 hv with rfl | hv
    · exact ⟨x, List.mem_cons_self, hx⟩
    · obtain ⟨y, hm, hy⟩ := ih value hv
      exact ⟨y, List.mem_cons_of_mem _ hm, hy⟩

/-- related elements make the same condition on two lists -/
theorem forall_mem_iff_of_forall₂ {related : α → β → Prop} {l : List α} {values : List β} {p : α → Prop} {q : β → Prop}
    (h : List.Forall₂ related l values) (hpq : ∀ x value, related x value → (p x ↔ q value)) :
    (∀ x ∈ l, p x) ↔ ∀ value ∈ values, q value := by
  induction h with
  | nil => simp
  | cons hx _ ih => rw [List.forall_mem_cons, List.forall_mem_cons, hpq _ _ hx, ih]

/-- every value of a traversal comes from an element -/
theorem exists_of_mem_mapM {l : List α} {f : α → Except ε β} {values : List β} (h : l.mapM f = .ok values) :
    ∀ value ∈ values, ∃ x ∈ l, f x = .ok value :=
  exists_of_forall₂ (mapM_eq_ok_iff.1 h)

/-- every element of a traversal gives one of its values -/
theorem exists_mem_of_mapM {l : List α} {f : α → Except ε β} {values : List β} (h : l.mapM f = .ok values) :
    ∀ x ∈ l, ∃ value ∈ values, f x = .ok value := by
  have hflip : List.Forall₂ (fun value x => f x = .ok value) values l := List.Forall₂.flip (mapM_eq_ok_iff.1 h)
  exact exists_of_forall₂ hflip

/-- steps on related elements have related results -/
theorem forall₂_of_results {γ δ : Type} {R : α → γ → Prop} {S : β → δ → Prop} {f : α → Except ε β} {g : γ → Except ε δ}
    {items : List α} {others : List γ} {results : List β} {results' : List δ} (h : List.Forall₂ R items others)
    (hf : List.Forall₂ (fun item result => f item = .ok result) items results)
    (hg : List.Forall₂ (fun item result => g item = .ok result) others results')
    (hstep : ∀ item other result result', R item other → f item = .ok result → g other = .ok result' →
      S result result') : List.Forall₂ S results results' := by
  induction h generalizing results results' with
  | nil =>
    cases hf
    cases hg
    exact .nil
  | cons hfirst _ ih =>
    cases hf with
    | cons hx hrest =>
      cases hg with
      | cons hx' hrest' => exact .cons (hstep _ _ _ _ hfirst hx hx') (ih hrest hrest')

theorem mapM_congr {m : Type → Type} [Monad m] [LawfulMonad m] {f g : α → m β} {l : List α}
    (h : ∀ x ∈ l, f x = g x) : l.mapM f = l.mapM g := by
  induction l with
  | nil => rfl
  | cons x l ih =>
    rw [List.mapM_cons, List.mapM_cons, h x List.mem_cons_self, ih fun y hy => h y (List.mem_cons_of_mem _ hy)]

theorem mapM_map_values {m : Type → Type} [Monad m] [LawfulMonad m] {γ : Type} (f : α → m β) (g : β → γ) (l : List α) :
    l.mapM (fun x => g <$> f x) = List.map g <$> l.mapM f := by
  induction l with
  | nil => simp
  | cons x l ih => simp only [List.mapM_cons, ih, map_bind, bind_map_left, map_pure, List.map_cons]

/-! ## Success without the value -/

/-- the computation gives a value -/
def Succeeds (outcome : Except ε α) : Prop := ∃ value, outcome = .ok value

theorem succeeds_ok (value : α) : Succeeds (.ok value : Except ε α) := ⟨value, rfl⟩

theorem not_succeeds_error (error : ε) : ¬ Succeeds (.error error : Except ε α) := by
  rintro ⟨value, h⟩
  cases h

theorem succeeds_bind_iff {outcome : Except ε α} {next : α → Except ε β} :
    Succeeds (outcome >>= next) ↔ ∃ value, outcome = .ok value ∧ Succeeds (next value) := by
  constructor
  · rintro ⟨result, h⟩
    obtain ⟨value, hv, hr⟩ := bind_eq_ok_iff.1 h
    exact ⟨value, hv, result, hr⟩
  · rintro ⟨value, hv, result, hr⟩
    exact ⟨result, bind_eq_ok_iff.2 ⟨value, hv, hr⟩⟩

/-- a step whose success does not depend on the value before it -/
theorem succeeds_bind_and_iff {outcome : Except ε α} {next : α → Except ε β} {rest : Prop}
    (h : ∀ value, Succeeds (next value) ↔ rest) : Succeeds (outcome >>= next) ↔ Succeeds outcome ∧ rest := by
  simp only [succeeds_bind_iff, h]
  exact exists_and_right

/-- a last step that cannot fail -/
theorem succeeds_bind_pure_iff {outcome : Except ε α} {next : α → Except ε β} (h : ∀ value, Succeeds (next value)) :
    Succeeds (outcome >>= next) ↔ Succeeds outcome :=
  (succeeds_bind_and_iff fun value => iff_true_intro (h value)).trans (and_iff_left trivial)

theorem succeeds_map_iff {outcome : Except ε α} {f : α → β} : Succeeds (outcome.map f) ↔ Succeeds outcome := by
  constructor
  · rintro ⟨_, h⟩
    obtain ⟨value, hv, -⟩ := map_eq_ok_iff.1 h
    exact ⟨value, hv⟩
  · rintro ⟨value, hv⟩
    exact ⟨f value, map_eq_ok_iff.2 ⟨value, hv, rfl⟩⟩

/-- a traversal succeeds when every step does -/
theorem succeeds_mapM_iff {l : List α} {f : α → Except ε β} : Succeeds (l.mapM f) ↔ ∀ x ∈ l, Succeeds (f x) := by
  constructor
  · rintro ⟨values, h⟩ x hx
    obtain ⟨value, -, hv⟩ := exists_mem_of_mapM h x hx
    exact ⟨value, hv⟩
  · intro h
    induction l with
    | nil => exact ⟨[], rfl⟩
    | cons x l ih =>
      obtain ⟨value, hv⟩ := h x List.mem_cons_self
      obtain ⟨values, hvs⟩ := ih fun y hy => h y (List.mem_cons_of_mem _ hy)
      exact ⟨value :: values, mapM_eq_ok_iff.2 (.cons hv (mapM_eq_ok_iff.1 hvs))⟩

/-! ## States -/

/-- what every step preserves holds at the end -/
theorem foldlM_invariant {step : β → α → Except ε β} {l : List α} {start last : β} (P : β → Prop)
    (hstep : ∀ x ∈ l, ∀ state next, P state → step state x = .ok next → P next) (hstart : P start)
    (h : l.foldlM step start = .ok last) : P last := by
  induction l generalizing start with
  | nil =>
    cases h
    exact hstart
  | cons x l ih =>
    rw [List.foldlM_cons] at h
    obtain ⟨next, hx, hl⟩ := bind_eq_ok_iff.1 h
    exact ih (fun y hy => hstep y (List.mem_cons_of_mem _ hy)) (hstep x List.mem_cons_self start next hstart hx) hl

/-- a fold succeeds when every step does, where that does not depend on the state -/
theorem succeeds_foldlM_iff {step : β → α → Except ε β} {need : α → Prop} (P : β → Prop)
    (hstep : ∀ state x, P state → (Succeeds (step state x) ↔ need x))
    (hnext : ∀ state x next, P state → step state x = .ok next → P next) (l : List α) {start : β} (hstart : P start) :
    Succeeds (l.foldlM step start) ↔ ∀ x ∈ l, need x := by
  induction l generalizing start with
  | nil => exact iff_of_true (succeeds_ok start) (by simp)
  | cons x l ih =>
    rw [List.foldlM_cons, List.forall_mem_cons, ← hstep start x hstart, succeeds_bind_iff]
    constructor
    · rintro ⟨next, hx, hl⟩
      exact ⟨⟨next, hx⟩, (ih (hnext start x next hstart hx)).1 hl⟩
    · rintro ⟨⟨next, hx⟩, hl⟩
      exact ⟨next, hx, (ih (hnext start x next hstart hx)).2 hl⟩

end GraphGen
