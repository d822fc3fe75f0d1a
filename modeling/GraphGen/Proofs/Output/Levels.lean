/-
Levels of indentation.

A block raises the level before its body and lowers it behind it, whatever the body has done to it. So a block keeps the level
only if its body does, and a body that has come back to the margin leaves nothing to lower: the run fails.

`Step.Balanced` decides this without a writer, for all levels at once. It counts heights above the level where the steps begin.
A writer may be at the margin there, so that inside a block nothing may go back from height zero: the margin would hold the
level there and nowhere else. Outside all blocks that does no harm, since nothing has to come back to the level.

- `landsAt_iff`: the level that steps come to when all their blocks keep it, against the run of a writer.
- `levels?_of_heights`, `heights_of_levels?`: heights against levels.

Main results:
- `blocks_keep_level_iff`: from every writer, steps run to their end with all their blocks keeping the level, exactly when they
  are balanced.
- `level_not_kept`: a body that goes one level deeper leaves its block one level deeper, and one that goes back to the margin
  fails.
-/
import GraphGen.Output.Writer

namespace GraphGen

/-! ## Blocks that are met -/

/-- a step is met at a writer when steps are run -/
inductive Meets : List Step → Writer → Step → Writer → Prop where
  | here {step : Step} {rest : List Step} {w : Writer} : Meets (step :: rest) w step w
  | later {step met : Step} {rest : List Step} {w next v : Writer} (hrun : step.run? w = some next)
      (h : Meets rest next met v) : Meets (step :: rest) w met v
  | inside {opening closing : String} {body rest : List Step} {met : Step} {w v : Writer}
      (h : Meets body (w.line opening).indent met v) : Meets (.block opening closing body :: rest) w met v

/-- a step does not fail, and leaves the level as it was -/
def Step.KeepsLevel (step : Step) (w : Writer) : Prop :=
  ∃ after, step.run? w = some after ∧ after.level = w.level

/-- steps come to a level without failing, and every block that is met on the way, inside others or not, keeps the level -/
structure LandsAt (steps : List Step) (w : Writer) (level : Nat) : Prop where
  runs : ∃ after, Step.runAll? steps w = some after ∧ after.level = level
  blocks : ∀ opening closing body v, Meets steps w (.block opening closing body) v →
    (Step.block opening closing body).KeepsLevel v

theorem runAll?_singleton (step : Step) (w : Writer) : Step.runAll? [step] w = step.run? w := by
  rw [Step.runAll?]
  exact Option.bind_fun_some _

theorem meets_cons_iff {step met : Step} {rest : List Step} {w v : Writer} :
    Meets (step :: rest) w met v ↔
      Meets [step] w met v ∨ ∃ next, step.run? w = some next ∧ Meets rest next met v := by
  constructor
  · intro h
    cases h with
    | here => exact .inl .here
    | later hrun h => exact .inr ⟨_, hrun, h⟩
    | inside h => exact .inl (.inside h)
  · rintro (h | ⟨next, hrun, h⟩)
    · cases h with
      | here => exact .here
      | later hrun h => cases h
      | inside h => exact .inside h
    · exact .later hrun h

theorem landsAt_cons_iff {step : Step} {rest : List Step} {w : Writer} {level : Nat} :
    LandsAt (step :: rest) w level ↔
      ∃ next, step.run? w = some next ∧ LandsAt [step] w next.level ∧ LandsAt rest next level := by
  constructor
  · rintro ⟨⟨after, hrun, hlevel⟩, hblocks⟩
    obtain ⟨next, hstep, hrest⟩ := Option.bind_eq_some_iff.1 hrun
    refine ⟨next, hstep, ⟨⟨next, by rwa [runAll?_singleton], rfl⟩, ?_⟩, ⟨⟨after, hrest, hlevel⟩, ?_⟩⟩
    · exact fun opening closing body v h => hblocks opening closing body v (meets_cons_iff.2 (.inl h))
    · exact fun opening closing body v h => hblocks opening closing body v (.later hstep h)
  · rintro ⟨next, hstep, hfirst, ⟨after, hrest, hlevel⟩, hblocks⟩
    refine ⟨⟨after, Option.bind_eq_some_iff.2 ⟨next, hstep, hrest⟩, hlevel⟩, fun opening closing body v h => ?_⟩
    rcases meets_cons_iff.1 h with h | ⟨other, hother, h⟩
    · exact hfirst.blocks opening closing body v h
    · cases hstep.symm.trans hother
      exact hblocks opening closing body v h

/-- a block keeps the level when its body comes back to the level that it begins at -/
theorem landsAt_block_iff {opening closing : String} {body : List Step} {w : Writer} {level : Nat} :
    LandsAt [.block opening closing body] w level ↔
      LandsAt body (w.line opening).indent (w.level + 1) ∧ level = w.level := by
  constructor
  · rintro ⟨⟨after, hrun, hlevel⟩, hblocks⟩
    obtain ⟨again, hagain, hkept⟩ := hblocks opening closing body w .here
    rw [runAll?_singleton, hagain] at hrun
    cases hrun
    obtain ⟨inner, hinner, hleave⟩ := Option.bind_eq_some_iff.1 hagain
    obtain ⟨outer, houter, rfl⟩ := Option.map_eq_some_iff.1 hleave
    refine ⟨⟨⟨inner, hinner, ?_⟩, fun o c b v h => hblocks o c b v (.inside h)⟩, hlevel.symm.trans hkept⟩
    have hdown : inner.level = outer.level + 1 := by
      unfold Writer.leave? at houter
      split at houter
      · cases houter
      · cases houter
        assumption
    have hback : outer.level = w.level := hkept
    rw [hdown, hback]
  · rintro ⟨⟨⟨inner, hinner, hlevel⟩, hblocks⟩, rfl⟩
    have hleave : inner.leave? = some { inner with level := w.level } := by
      unfold Writer.leave?
      rw [hlevel]
    have hrun : (Step.block opening closing body).run? w = some (Writer.line { inner with level := w.level } closing) := by
      rw [Step.run?, hinner, Option.bind_some, hleave, Option.map_some]
    refine ⟨⟨_, (runAll?_singleton _ w).trans hrun, rfl⟩, fun o c b v h => ?_⟩
    cases h with
    | here => exact ⟨_, hrun, rfl⟩
    | later hstep h => cases h
    | inside h => exact hblocks o c b v h

/-- where no block is met, only the run counts -/
theorem landsAt_single_iff (step : Step) {w after : Writer} {level : Nat} (hrun : step.run? w = some after)
    (hstep : ∀ opening closing body, step ≠ .block opening closing body) :
    LandsAt [step] w level ↔ after.level = level := by
  constructor
  · rintro ⟨⟨other, hother, hlevel⟩, -⟩
    rw [runAll?_singleton, hrun] at hother
    cases hother
    exact hlevel
  · intro hlevel
    refine ⟨⟨after, (runAll?_singleton step w).trans hrun, hlevel⟩, fun opening closing body v h => ?_⟩
    cases h with
    | here => exact absurd rfl (hstep opening closing body)
    | later hnext h => cases h
    | inside h => exact absurd rfl (hstep _ _ _)

/-! ## Levels without text -/

mutual

/-- the level after a step, if its blocks come back to the level that they begin at; `margin` tells where a step back from level
zero leads, inside a block or outside all of them -/
def Step.level? (margin : Bool → Option Nat) (inside : Bool) : Step → Nat → Option Nat
  | indent, n => some (n + 1)
  | dedent, 0 => margin inside
  | dedent, n + 1 => some n
  | block _ _ body, n => (Step.levels? margin true body (n + 1)).bind fun m => if m = n + 1 then some n else none
  | line _, n => some n
  | blank, n => some n
  | lines _, n => some n

/-- the level after some steps -/
def Step.levels? (margin : Bool → Option Nat) (inside : Bool) : List Step → Nat → Option Nat
  | [], n => some n
  | step :: rest, n => (Step.level? margin inside step n).bind fun m => Step.levels? margin inside rest m

end

/-- the margin of a writer holds the level -/
def held : Bool → Option Nat :=
  fun _ => some 0

/-- height zero, which may be the margin or not, is not gone back from inside a block -/
def guarded : Bool → Option Nat :=
  fun inside => if inside then none else some 0

/-- steps whose blocks come back to the height that they begin at; inside blocks none goes back from height zero -/
def Step.Balanced (steps : List Step) : Prop :=
  (Step.levels? guarded false steps 0).isSome

instance (steps : List Step) : Decidable (Step.Balanced steps) :=
  inferInstanceAs (Decidable (_ = true))

theorem level?_block_iff {margin : Bool → Option Nat} {inside : Bool} {opening closing : String} {body : List Step}
    {n m : Nat} :
    (Step.block opening closing body).level? margin inside n = some m ↔
      Step.levels? margin true body (n + 1) = some (n + 1) ∧ m = n := by
  rw [Step.level?, Option.bind_eq_some_iff]
  constructor
  · rintro ⟨level, hbody, h⟩
    split at h
    · rename_i hlevel
      cases h
      exact ⟨hlevel ▸ hbody, rfl⟩
    · cases h
  · rintro ⟨hbody, rfl⟩
    exact ⟨m + 1, hbody, if_pos rfl⟩

theorem level?_dedent_held (inside : Bool) (n : Nat) : Step.dedent.level? held inside n = some (n - 1) := by
  cases n <;> rfl

theorem level_lines (w : Writer) (text : String) : (w.lines text).level = w.level := by
  unfold Writer.lines
  induction Text.lines text generalizing w with
  | nil => rfl
  | cons row rows ih => exact ih (w.line row)

mutual

theorem landsAt_step_iff (inside : Bool) : (step : Step) → ∀ (w : Writer) (level : Nat),
    LandsAt [step] w level ↔ step.level? held inside w.level = some level
  | .line text, w, level => by
    rw [landsAt_single_iff (.line text) rfl fun _ _ _ => Step.noConfusion, Step.level?, Option.some_inj]
    rfl
  | .blank, w, level => by
    rw [landsAt_single_iff .blank rfl fun _ _ _ => Step.noConfusion, Step.level?, Option.some_inj]
    rfl
  | .lines text, w, level => by
    rw [landsAt_single_iff (.lines text) rfl fun _ _ _ => Step.noConfusion, level_lines, Step.level?, Option.some_inj]
  | .indent, w, level => by
    rw [landsAt_single_iff .indent rfl fun _ _ _ => Step.noConfusion, Step.level?, Option.some_inj]
    rfl
  | .dedent, w, level => by
    rw [landsAt_single_iff .dedent rfl fun _ _ _ => Step.noConfusion, level?_dedent_held, Option.some_inj]
    rfl
  | .block opening closing body, w, level => by
    rw [landsAt_block_iff, level?_block_iff]
    exact and_congr_left' (landsAt_iff true body (w.line opening).indent (w.level + 1))

/-- **Levels can be told without text.** -/
theorem landsAt_iff (inside : Bool) : (steps : List Step) → ∀ (w : Writer) (level : Nat),
    LandsAt steps w level ↔ Step.levels? held inside steps w.level = some level
  | [], w, level => by
    constructor
    · rintro ⟨⟨after, hrun, rfl⟩, -⟩
      cases hrun
      rfl
    · intro h
      cases h
      exact ⟨⟨w, rfl, rfl⟩, nofun⟩
  | step :: rest, w, level => by
    rw [landsAt_cons_iff, Step.levels?, Option.bind_eq_some_iff]
    constructor
    · rintro ⟨next, -, hfirst, hrest⟩
      exact ⟨next.level, (landsAt_step_iff inside step w _).1 hfirst, (landsAt_iff inside rest next level).1 hrest⟩
    · rintro ⟨m, hfirst, hrest⟩
      have hlands := (landsAt_step_iff inside step w m).2 hfirst
      obtain ⟨next, hrun, rfl⟩ := hlands.runs
      exact ⟨next, (runAll?_singleton step w) ▸ hrun, hlands, (landsAt_iff inside rest next level).2 hrest⟩

end

/-! ## Heights -/

mutual

theorem level?_of_height : (step : Step) → ∀ {inside : Bool} {n m : Nat} (base : Nat),
    step.level? guarded inside n = some m →
    ∃ bottom, step.level? held inside (base + n) = some (bottom + m) ∧ (inside = true → bottom = base)
  | .line _, _, _, _, base, h => by
    cases h
    exact ⟨base, rfl, fun _ => rfl⟩
  | .blank, _, _, _, base, h => by
    cases h
    exact ⟨base, rfl, fun _ => rfl⟩
  | .lines _, _, _, _, base, h => by
    cases h
    exact ⟨base, rfl, fun _ => rfl⟩
  | .indent, _, _, _, base, h => by
    cases h
    exact ⟨base, rfl, fun _ => rfl⟩
  | .dedent, inside, 0, _, base, h => by
    cases inside with
    | true => cases h
    | false =>
      cases h
      exact ⟨base - 1, level?_dedent_held false base, fun hi => absurd hi Bool.false_ne_true⟩
  | .dedent, _, _ + 1, _, base, h => by
    cases h
    exact ⟨base, rfl, fun _ => rfl⟩
  | .block _ _ body, _, n, _, base, h => by
    obtain ⟨hbody, rfl⟩ := level?_block_iff.1 h
    obtain ⟨bottom, hheld, hbottom⟩ := levels?_of_heights body base hbody
    rw [hbottom rfl] at hheld
    exact ⟨base, level?_block_iff.2 ⟨hheld, rfl⟩, fun _ => rfl⟩

/-- what has a height comes to the level of that height, from every level; outside all blocks the margin may have held it -/
theorem levels?_of_heights : (steps : List Step) → ∀ {inside : Bool} {n m : Nat} (base : Nat),
    Step.levels? guarded inside steps n = some m →
    ∃ bottom, Step.levels? held inside steps (base + n) = some (bottom + m) ∧ (inside = true → bottom = base)
  | [], _, _, _, base, h => by
    cases h
    exact ⟨base, rfl, fun _ => rfl⟩
  | step :: rest, _, _, _, base, h => by
    obtain ⟨height, hstep, hrest⟩ := Option.bind_eq_some_iff.1 h
    obtain ⟨middle, hfirst, hmiddle⟩ := level?_of_height step base hstep
    obtain ⟨bottom, hall, hbottom⟩ := levels?_of_heights rest middle hrest
    exact ⟨bottom, Option.bind_eq_some_iff.2 ⟨_, hfirst, hall⟩, fun hi => (hbottom hi).trans (hmiddle hi)⟩

end

/-- what comes back to a height from every level has that height: inside a block, the margin would hold one level and not the
next -/
theorem heights_of_levels? : (steps : List Step) → ∀ {n m : Nat},
    (∀ base, Step.levels? held true steps (base + n) = some (base + m)) → Step.levels? guarded true steps n = some m
  | [], n, m, h => by
    have hsame := h 0
    rw [Step.levels?, Nat.zero_add, Nat.zero_add] at hsame
    exact hsame
  | .line _ :: rest, _, _, h => heights_of_levels? rest h
  | .blank :: rest, _, _, h => heights_of_levels? rest h
  | .lines _ :: rest, _, _, h => heights_of_levels? rest h
  | .indent :: rest, _, _, h => heights_of_levels? rest h
  | .dedent :: rest, 0, m, h => by
    -- from levels zero and one the rest begins at the margin
    have hsame : 0 + m = 1 + m := Option.some_inj.1 ((h 0).symm.trans (h 1))
    omega
  | .dedent :: rest, _ + 1, _, h => heights_of_levels? rest h
  | .block opening closing body :: rest, n, m, h => by
    have hsplit : ∀ base, Step.levels? held true body (base + n + 1) = some (base + n + 1) ∧
        Step.levels? held true rest (base + n) = some (base + m) := by
      intro base
      obtain ⟨level, hblock, hrest⟩ := Option.bind_eq_some_iff.1 (h base)
      obtain ⟨hbody, rfl⟩ := level?_block_iff.1 hblock
      exact ⟨hbody, hrest⟩
    have hbody : Step.levels? guarded true body (n + 1) = some (n + 1) :=
      heights_of_levels? body fun base => (hsplit base).1
    have hrest : Step.levels? guarded true rest n = some m := heights_of_levels? rest fun base => (hsplit base).2
    exact Option.bind_eq_some_iff.2 ⟨n, level?_block_iff.2 ⟨hbody, rfl⟩, hrest⟩

/-- outside all blocks there is nothing to come back to -/
theorem exists_height_of_levels? (steps : List Step) {n : Nat}
    (h : ∀ base, ∃ level, Step.levels? held false steps (base + n) = some level) :
    ∃ m, Step.levels? guarded false steps n = some m := by
  induction steps generalizing n with
  | nil => exact ⟨n, rfl⟩
  | cons step rest ih =>
    cases step with
    | line _ => exact ih h
    | blank => exact ih h
    | lines _ => exact ih h
    | indent => exact ih h
    | dedent =>
      cases n with
      | zero =>
        obtain ⟨m, hm⟩ := ih (n := 0) fun base => h (base + 1)
        exact ⟨m, hm⟩
      | succ n => exact ih (n := n) h
    | block opening closing body =>
      have hsplit : ∀ base, Step.levels? held true body (base + n + 1) = some (base + n + 1) ∧
          ∃ level, Step.levels? held false rest (base + n) = some level := by
        intro base
        obtain ⟨level, hall⟩ := h base
        obtain ⟨middle, hblock, hrest⟩ := Option.bind_eq_some_iff.1 hall
        obtain ⟨hbody, rfl⟩ := level?_block_iff.1 hblock
        exact ⟨hbody, level, hrest⟩
      have hbody : Step.levels? guarded true body (n + 1) = some (n + 1) :=
        heights_of_levels? body fun base => (hsplit base).1
      obtain ⟨m, hrest⟩ := ih fun base => (hsplit base).2
      exact ⟨m, Option.bind_eq_some_iff.2 ⟨n, level?_block_iff.2 ⟨hbody, rfl⟩, hrest⟩⟩

/-! ## Blocks and levels -/

/-- **Blocks keep the level in balanced steps, and only there.** From every writer, steps run to their end without going below
the margin, and every block that is met on the way, inside others or not, leaves the level as it was, exactly when the steps are
balanced. -/
theorem blocks_keep_level_iff (steps : List Step) :
    (∀ w : Writer, (∃ after, Step.runAll? steps w = some after) ∧
      ∀ opening closing body v, Meets steps w (.block opening closing body) v →
        (Step.block opening closing body).KeepsLevel v) ↔
      Step.Balanced steps := by
  constructor
  · intro h
    refine Option.isSome_iff_exists.2 (exists_height_of_levels? steps fun base => ?_)
    obtain ⟨⟨after, hrun⟩, hblocks⟩ := h ⟨default, base, ""⟩
    exact ⟨after.level, (landsAt_iff false steps _ _).1 ⟨⟨after, hrun, rfl⟩, hblocks⟩⟩
  · intro h w
    obtain ⟨m, hm⟩ := Option.isSome_iff_exists.1 h
    obtain ⟨bottom, hheld, -⟩ := levels?_of_heights steps w.level hm
    obtain ⟨⟨after, hrun, -⟩, hblocks⟩ := (landsAt_iff false steps w _).2 hheld
    exact ⟨⟨after, hrun⟩, hblocks⟩

/-- a body may go back beside its opening line, as one does for a label -/
example : Step.Balanced [.block "switch \x7b" "\x7d" [.dedent, .line "default:", .indent, .line "return;"]] := by decide

/-- **A level is not kept:** a body that goes one level deeper leaves its block there, and one that goes back to the margin cannot
be left. -/
theorem level_not_kept :
    (∃ after, (Step.block "a \x7b" "\x7d" [.indent, .line "x"]).run? (.start { }) = some after ∧
      after.text = "a \x7b\n    x\n  \x7d" ∧ after.level = 1 ∧ (Writer.start { }).level = 0) ∧
    (Step.block "a \x7b" "\x7d" [.dedent]).run? (.start { }) = none := by
  refine ⟨⟨_, rfl, ?_, rfl, rfl⟩, rfl⟩
  decide +kernel

end GraphGen
