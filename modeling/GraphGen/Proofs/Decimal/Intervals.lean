/-
The decimals that read back as a double.

The finite doubles that are not negative are numbered by their bits below the sign (`magnitude`). Between a double and the next
one lies a bound (`upperBound`), and the bounds grow with the number (`upperBound_strictMono`). A decimal that reads back as a
positive double lies between the bounds below and above it, and is one of them only if the double is even
(`mem_interval_of_readsBack`); of two doubles next to each other one is not.

Main result:
- `magnitude_eq_of_readsBack`: a decimal reads back as one positive double only.
-/
import GraphGen.Decimal.Shortest
import Mathlib.Algebra.Order.Field.Power
import Mathlib.Algebra.Order.Ring.Rat
import Mathlib.Order.Monotone.Basic
import Mathlib.Tactic.FieldSimp
import Mathlib.Tactic.Linarith
import Mathlib.Tactic.NormNum
import Mathlib.Tactic.Positivity
import Mathlib.Tactic.Ring

namespace GraphGen

namespace Binary64

/-! ## Scaled naturals as fractions -/

/-- a natural times a power of ten -/
def decimal (a : Nat) (p : Int) : ℚ := a * 10 ^ p

/-- a natural times a power of two -/
def dyadic (m : Nat) (q : Int) : ℚ := m * 2 ^ q

theorem pow_toNat {b : ℚ} (hb : b ≠ 0) (p : Int) : b ^ p.toNat = b ^ p * b ^ (-p).toNat := by
  rw [← zpow_natCast, ← zpow_natCast, ← zpow_add₀ hb]
  congr 1
  omega

/-- both sides of a comparison are scaled alike -/
theorem compareScaled_sides (a : Nat) (p : Int) (b : Nat) (q : Int) : ∃ scale : ℚ, 0 < scale ∧
    ((a * pow10 p.toNat * pow2 (-q).toNat : Nat) : ℚ) = decimal a p * scale ∧
    ((b * pow2 q.toNat * pow10 (-p).toNat : Nat) : ℚ) = dyadic b q * scale := by
  refine ⟨10 ^ (-p).toNat * 2 ^ (-q).toNat, by positivity, ?_, ?_⟩
  · have hten := pow_toNat (b := 10) (by norm_num) p
    simp only [pow10, pow2, decimal, Nat.pow_eq]
    push_cast
    rw [hten]
    ring
  · have htwo := pow_toNat (b := 2) (by norm_num) q
    simp only [pow10, pow2, dyadic, Nat.pow_eq]
    push_cast
    rw [htwo]
    ring

theorem compareScaled_eq_lt {a : Nat} {p : Int} {b : Nat} {q : Int} :
    compareScaled a p b q = .lt ↔ decimal a p < dyadic b q := by
  obtain ⟨scale, hscale, ha, hb⟩ := compareScaled_sides a p b q
  rw [compareScaled, Nat.compare_eq_lt, ← mul_lt_mul_iff_left₀ hscale, ← ha, ← hb, Nat.cast_lt]

theorem compareScaled_eq_gt {a : Nat} {p : Int} {b : Nat} {q : Int} :
    compareScaled a p b q = .gt ↔ dyadic b q < decimal a p := by
  obtain ⟨scale, hscale, ha, hb⟩ := compareScaled_sides a p b q
  rw [compareScaled, Nat.compare_eq_gt, ← mul_lt_mul_iff_left₀ hscale, ← ha, ← hb, Nat.cast_lt]

theorem compareScaled_eq_eq {a : Nat} {p : Int} {b : Nat} {q : Int} :
    compareScaled a p b q = .eq ↔ decimal a p = dyadic b q := by
  obtain ⟨scale, hscale, ha, hb⟩ := compareScaled_sides a p b q
  rw [compareScaled, Nat.compare_eq_eq, ← mul_left_inj' hscale.ne', ← ha, ← hb, Nat.cast_inj]

/-! ## Bounds between doubles -/

/-- the bits of a double below its sign -/
def magnitude (d : Binary64) : Nat := d.bits.toNat % 2 ^ 63

/-- the significand of the finite double of that number -/
def significandOf (n : Nat) : Nat := if n / 2 ^ 52 = 0 then n % 2 ^ 52 else 2 ^ 52 + n % 2 ^ 52

/-- the power of two that goes with it -/
def scaleOf (n : Nat) : Int := if n / 2 ^ 52 = 0 then -1074 else (n / 2 ^ 52 : Nat) - 1075

/-- the bound between a finite double and the next one -/
def upperBound (n : Nat) : ℚ := dyadic (4 * significandOf n + 2) (scaleOf n - 2)

theorem exponentBits_eq (d : Binary64) : d.exponentBits = d.magnitude / 2 ^ 52 := by
  simp only [exponentBits, magnitude, pow2, Nat.pow_eq]
  omega

theorem fractionBits_eq (d : Binary64) : d.fractionBits = d.magnitude % 2 ^ 52 := by
  simp only [fractionBits, magnitude, pow2, Nat.pow_eq]
  omega

theorem significand_eq (d : Binary64) : d.significand = significandOf d.magnitude := by
  rw [significand, significandOf, exponentBits_eq, fractionBits_eq]
  rfl

theorem scale_eq (d : Binary64) : d.scale = scaleOf d.magnitude := by
  rw [scale, scaleOf, exponentBits_eq]

/-- the bound below a double, in quarters of its last place -/
def lowerQuarters (n : Nat) : Nat :=
  if n % 2 ^ 52 = 0 ∧ 1 < n / 2 ^ 52 then 4 * significandOf n - 1 else 4 * significandOf n - 2

/-- the bound below a double is that above the one before it -/
theorem lowerBound_succ (n : Nat) : dyadic (lowerQuarters (n + 1)) (scaleOf (n + 1) - 2) = upperBound n := by
  by_cases hpower : (n + 1) % 2 ^ 52 = 0 ∧ n / 2 ^ 52 ≠ 0
  · -- a power of two, behind which places are twice as great
    have hlower : 2 * lowerQuarters (n + 1) = 4 * significandOf n + 2 := by
      rw [lowerQuarters, significandOf, significandOf]
      split_ifs <;> omega
    have hscale : scaleOf (n + 1) = scaleOf n + 1 := by
      rw [scaleOf, scaleOf]
      split_ifs <;> omega
    rw [upperBound, ← hlower, hscale, dyadic, dyadic, show scaleOf n + 1 - 2 = scaleOf n - 2 + 1 by ring,
      zpow_add_one₀ (by norm_num)]
    push_cast
    ring
  · -- the same places, also where the first double has an exponent of its own
    have hlower : lowerQuarters (n + 1) = 4 * significandOf n + 2 := by
      rw [lowerQuarters, significandOf, significandOf]
      split_ifs <;> omega
    have hscale : scaleOf (n + 1) = scaleOf n := by
      rw [scaleOf, scaleOf]
      split_ifs <;> omega
    rw [upperBound, hlower, hscale]

theorem dyadic_lt {m n : Nat} (h : m < n) (q : Int) : dyadic m q < dyadic n q := by
  have hcast : (m : ℚ) < n := by exact_mod_cast h
  exact mul_lt_mul_of_pos_right hcast (by positivity)

/-- **The bounds grow.** -/
theorem upperBound_strictMono : StrictMono upperBound := by
  refine strictMono_nat_of_lt_succ fun n => ?_
  rw [← lowerBound_succ n]
  refine dyadic_lt ?_ _
  rw [lowerQuarters]
  split_ifs <;> omega

/-! ## Reading back -/

/-- a decimal reads back as a double when it lies between the bounds, or is one of them and the double is even -/
theorem readsBack_iff {d : Binary64} {a : Nat} {p : Int} : d.readsBack a p = true ↔
    dyadic (lowerQuarters d.magnitude) (d.scale - 2) < decimal a p ∧
        decimal a p < dyadic (4 * d.significand + 2) (d.scale - 2) ∨
      d.significand % 2 = 0 ∧ (decimal a p = dyadic (lowerQuarters d.magnitude) (d.scale - 2) ∨
        decimal a p = dyadic (4 * d.significand + 2) (d.scale - 2)) := by
  have hlow : (if d.fractionBits = 0 && 1 < d.exponentBits then 4 * d.significand - 1 else 4 * d.significand - 2) =
      lowerQuarters d.magnitude := by
    rw [lowerQuarters, ← significand_eq, fractionBits_eq, exponentBits_eq]
    simp
  rw [← compareScaled_eq_gt, ← compareScaled_eq_lt, ← compareScaled_eq_eq, ← compareScaled_eq_eq, ← hlow]
  simp only [readsBack]
  split <;> simp_all

/-- **A decimal that reads back lies between the bounds of the double,** and is no bound of an odd one. -/
theorem mem_interval_of_readsBack {d : Binary64} {a : Nat} {p : Int} {n : Nat} (hn : d.magnitude = n + 1)
    (h : d.readsBack a p = true) : upperBound n ≤ decimal a p ∧ decimal a p ≤ upperBound (n + 1) ∧
      (decimal a p = upperBound n ∨ decimal a p = upperBound (n + 1) → (n + 1) % 2 = 0) := by
  have hparity : significandOf (n + 1) % 2 = (n + 1) % 2 := by
    rw [significandOf]
    split_ifs <;> omega
  have hbounds : upperBound n < upperBound (n + 1) := upperBound_strictMono (Nat.lt_succ_self n)
  rw [readsBack_iff, significand_eq, scale_eq, hn, lowerBound_succ, ← upperBound, hparity] at h
  rcases h with ⟨hlow, hhigh⟩ | ⟨heven, hsame | hsame⟩
  · refine ⟨hlow.le, hhigh.le, ?_⟩
    rintro (hsame | hsame)
    · exact absurd hsame hlow.ne'
    · exact absurd hsame hhigh.ne
  · exact ⟨hsame.ge, hsame.trans_le hbounds.le, fun _ => heven⟩
  · exact ⟨hbounds.le.trans hsame.ge, hsame.le, fun _ => heven⟩

/-- bounds that meet are those of neighbours, one of which is odd -/
theorem magnitude_le_of_readsBack {d e : Binary64} {a b : Nat} {p q : Int} (hd : 0 < d.magnitude) (he : 0 < e.magnitude)
    (h : d.readsBack a p = true) (h' : e.readsBack b q = true) (hsame : decimal a p = decimal b q) :
    e.magnitude ≤ d.magnitude := by
  refine not_lt.1 fun hlt => ?_
  obtain ⟨m, hm⟩ := Nat.exists_eq_add_of_lt hd
  obtain ⟨n, hn⟩ := Nat.exists_eq_add_of_lt he
  rw [Nat.zero_add] at hm hn
  obtain ⟨-, hhigh, heven⟩ := mem_interval_of_readsBack hm h
  obtain ⟨hlow, -, heven'⟩ := mem_interval_of_readsBack hn h'
  have hmono : upperBound (m + 1) ≤ upperBound n := upperBound_strictMono.monotone (by omega)
  have hmeet : upperBound (m + 1) = upperBound n := le_antisymm hmono (by linarith)
  have hnext : m + 1 = n := upperBound_strictMono.injective hmeet
  have hodd := heven (Or.inr (by linarith))
  have hodd' := heven' (Or.inl (by linarith))
  omega

/-- **A decimal reads back as one positive double only.** -/
theorem magnitude_eq_of_readsBack {d e : Binary64} {a b : Nat} {p q : Int} (hd : 0 < d.magnitude) (he : 0 < e.magnitude)
    (h : d.readsBack a p = true) (h' : e.readsBack b q = true) (hsame : decimal a p = decimal b q) :
    d.magnitude = e.magnitude :=
  le_antisymm (magnitude_le_of_readsBack he hd h' h hsame.symm) (magnitude_le_of_readsBack hd he h h' hsame)

end Binary64

end GraphGen
