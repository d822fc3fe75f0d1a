/-
Doubles are told apart by their written form.

The search for the shortest digits ends on a grid that is finer than the distance of the bounds around the double, so that it
finds digits that read back (`exists_readsBack_shortest`). Written without an exponent, digits stand for one number
(`readPositional`). So the written form gives the sign and a decimal that reads back as the double, which no other double has.

Main result:
- `display_injective`: two doubles that are no NaN are the same when their written forms are.
-/
import GraphGen.Proofs.Decimal.Intervals
import Mathlib.Data.List.Basic

namespace GraphGen

namespace Binary64

/-! ## Digits that read back -/

variable {d : Binary64}

theorem significand_pos (hd : 0 < d.magnitude) : 0 < d.significand := by
  rw [significand_eq, significandOf]
  split_ifs <;> omega

theorem significand_lt (d : Binary64) : d.significand < 2 ^ 53 := by
  rw [significand_eq, significandOf]
  split_ifs <;> omega

theorem exponentBits_le (hfinite : d.isFinite = true) : d.exponentBits ≤ 2046 := by
  have hlt : d.exponentBits < 2048 := Nat.mod_lt _ (by decide)
  have hne : d.exponentBits ≠ 2047 := by simpa [isFinite] using hfinite
  omega

/-- the grid point below a double is below it, and the next one is above it -/
theorem floorAt_bounds (d : Binary64) (p : Int) :
    decimal (d.floorAt p) p ≤ dyadic d.significand d.scale ∧
      dyadic d.significand d.scale < decimal (d.floorAt p + 1) p := by
  have hden : 0 < pow2 (-d.scale).toNat * pow10 p.toNat :=
    Nat.mul_pos (Nat.pow_pos (by decide)) (Nat.pow_pos (by decide))
  constructor
  · obtain ⟨scale, hscale, ha, hb⟩ := compareScaled_sides (d.floorAt p) p d.significand d.scale
    rw [← mul_le_mul_iff_left₀ hscale, ← ha, ← hb, Nat.cast_le, Nat.mul_assoc, Nat.mul_comm (pow10 _)]
    exact Nat.div_mul_le_self _ _
  · obtain ⟨scale, hscale, ha, hb⟩ := compareScaled_sides (d.floorAt p + 1) p d.significand d.scale
    rw [← mul_lt_mul_iff_left₀ hscale, ← ha, ← hb, Nat.cast_lt, Nat.mul_assoc (d.floorAt p + 1), Nat.mul_comm (pow10 _)]
    exact Nat.lt_mul_of_div_lt (Nat.lt_succ_self _) hden

theorem decimal_succ (a : Nat) (p : Int) : decimal (a + 1) p = decimal a p + 10 ^ p := by
  simp only [decimal]
  push_cast
  ring

/-- on a grid as fine as a quarter of the last place the point below a double reads back -/
theorem readsBack_floorAt (hd : 0 < d.magnitude) {p : Int} (hp : (10 : ℚ) ^ p ≤ 2 ^ (d.scale - 2)) :
    d.readsBack (d.floorAt p) p = true := by
  obtain ⟨hfloor, hnext⟩ := floorAt_bounds d p
  have hpos := significand_pos hd
  have hvalue : dyadic d.significand d.scale = dyadic (4 * d.significand) (d.scale - 2) := by
    rw [dyadic, dyadic, zpow_sub₀ (by norm_num)]
    push_cast
    ring
  have hlower : dyadic (lowerQuarters d.magnitude) (d.scale - 2) ≤
      dyadic (4 * d.significand) (d.scale - 2) - 2 ^ (d.scale - 2) := by
    have hquarters : lowerQuarters d.magnitude + 1 ≤ 4 * d.significand := by
      rw [lowerQuarters, ← significand_eq]
      split_ifs <;> omega
    have hcast : (lowerQuarters d.magnitude : ℚ) + 1 ≤ (4 * d.significand : Nat) := by exact_mod_cast hquarters
    have hunit : (0 : ℚ) < 2 ^ (d.scale - 2) := by positivity
    rw [dyadic, dyadic]
    nlinarith
  rw [decimal_succ] at hnext
  refine readsBack_iff.2 (Or.inl ⟨by linarith, lt_of_le_of_lt hfloor ?_⟩)
  rw [hvalue]
  exact dyadic_lt (Nat.lt_add_of_pos_right (by decide)) _

/-- what is found on a grid reads back -/
theorem readsBack_of_onGrid {a : Nat} {p : Int} (h : d.onGrid p = some a) : d.readsBack a p = true := by
  simp only [onGrid] at h
  split at h
  · rename_i hlow hhigh
    cases h
    split
    · exact hlow
    · exact hhigh
  · rename_i hlow _
    cases h
    exact hlow
  · rename_i _ hhigh
    cases h
    exact hhigh
  · cases h

/-- **The search finds digits that read back,** if the point on its last grid does. -/
theorem readsBack_searchGrid {n : Nat} {p : Int} (h : d.readsBack (d.floorAt (p - n)) (p - n) = true) :
    d.readsBack (d.searchGrid n p).1 (d.searchGrid n p).2 = true := by
  induction n generalizing p with
  | zero =>
    rw [searchGrid]
    simpa using h
  | succ n ih =>
    rw [searchGrid]
    cases hgrid : d.onGrid p with
    | some a => exact readsBack_of_onGrid hgrid
    | none => exact ih (by rwa [show p - 1 - n = p - (n + 1 : Nat) by push_cast; ring])

/-- taking zeros off changes nothing about the number -/
theorem decimal_dropZeros (n a : Nat) (p : Int) : decimal (dropZeros n a p).1 (dropZeros n a p).2 = decimal a p := by
  induction n generalizing a p with
  | zero => rfl
  | succ n ih =>
    rw [dropZeros]
    split
    · rename_i hzero
      have hten : a = a / 10 * 10 := by omega
      rw [ih]
      conv_rhs => rw [hten]
      rw [decimal, decimal, zpow_add_one₀ (by norm_num)]
      push_cast
      ring
    · rfl

/-! ### Where the search ends -/

/-- thirty thousand one hundred and three of a hundred thousand are a little more than `log10 2`, by too little to matter -/
theorem pow10_guess_le {k : Int} (hlow : -1075 ≤ k) (hhigh : k ≤ 1024) : (10 : ℚ) ^ (k * 30103 / 100000) ≤ 2 * 2 ^ k := by
  have hup : ∀ n < 1025, 10 ^ (n * 30103 / 100000) ≤ 2 * 2 ^ n := by decide +kernel
  have hdown : ∀ n < 1076, 2 ^ n ≤ 2 * 10 ^ ((n * 30103 + 99999) / 100000) := by decide +kernel
  rcases le_or_gt 0 k with hk | hk
  · obtain ⟨n, rfl⟩ := Int.eq_ofNat_of_zero_le hk
    have hcast : (10 : ℚ) ^ (n * 30103 / 100000) ≤ 2 * 2 ^ n := by exact_mod_cast hup n (by omega)
    rw [show ((n : Int) * 30103 / 100000) = ((n * 30103 / 100000 : Nat) : Int) by omega, zpow_natCast, zpow_natCast]
    exact hcast
  · obtain ⟨n, rfl⟩ : ∃ n : Nat, k = -(n : Int) := ⟨k.natAbs, by omega⟩
    have hcast : (2 : ℚ) ^ n ≤ 2 * 10 ^ ((n * 30103 + 99999) / 100000) := by exact_mod_cast hdown n (by omega)
    rw [show -(n : Int) * 30103 / 100000 = -(((n * 30103 + 99999) / 100000 : Nat) : Int) by omega, zpow_neg, zpow_neg,
      zpow_natCast, zpow_natCast, inv_le_iff_one_le_mul₀ (by positivity)]
    rw [← div_eq_mul_inv, div_mul_eq_mul_div, one_le_div (by positivity)]
    exact hcast

/-- the power of ten of the first digit is at most twice the double -/
theorem pow10_leadingPower_le (hfinite : d.isFinite = true) (hd : 0 < d.magnitude) :
    (10 : ℚ) ^ d.leadingPower ≤ 2 * dyadic d.significand d.scale := by
  have hpos := significand_pos hd
  have hvalue : (0 : ℚ) ≤ dyadic d.significand d.scale := by
    rw [dyadic]
    positivity
  simp only [leadingPower]
  split
  · have hsize : (2 : ℚ) ^ ((Nat.log2 d.significand : Int) + d.scale) ≤ dyadic d.significand d.scale := by
      have hlog : ((2 : ℚ) ^ Nat.log2 d.significand) ≤ d.significand := by
        exact_mod_cast Nat.log2_self_le hpos.ne'
      rw [zpow_add₀ (by norm_num), zpow_natCast, dyadic]
      exact mul_le_mul_of_nonneg_right hlog (by positivity)
    have hrange : -1075 ≤ (Nat.log2 d.significand : Int) + d.scale ∧ (Nat.log2 d.significand : Int) + d.scale ≤ 1024 := by
      have hlog : Nat.log2 d.significand < 53 := (Nat.log2_lt hpos.ne').2 (significand_lt d)
      have hexponent := exponentBits_le hfinite
      rw [scale]
      split <;> omega
    exact (pow10_guess_le hrange.1 hrange.2).trans (by linarith)
  · rename_i hfloor
    generalize ((Nat.log2 d.significand : Int) + d.scale) * 30103 / 100000 + 1 = p at hfloor ⊢
    have hone : (1 : ℚ) ≤ d.floorAt p := by exact_mod_cast Nat.one_le_iff_ne_zero.2 hfloor
    have hgrid := (floorAt_bounds d p).1
    have hten : (0 : ℚ) < 10 ^ p := by positivity
    rw [decimal] at hgrid
    nlinarith

/-- **The last grid of the search is fine enough.** -/
theorem pow10_lastGrid_le (hfinite : d.isFinite = true) (hd : 0 < d.magnitude) :
    (10 : ℚ) ^ (d.leadingPower + 1 - 18) ≤ 2 ^ (d.scale - 2) := by
  have hlead := pow10_leadingPower_le hfinite hd
  have hcast : (d.significand : ℚ) ≤ 2 ^ 53 := by exact_mod_cast (significand_lt d).le
  rw [show d.leadingPower + 1 - 18 = d.leadingPower - 17 by ring, zpow_sub₀ (by norm_num), div_le_iff₀ (by positivity)]
  have hunit : (0 : ℚ) < 2 ^ (d.scale - 2) := by positivity
  have hscale : (2 : ℚ) ^ d.scale = 4 * 2 ^ (d.scale - 2) := by
    rw [zpow_sub₀ (by norm_num)]
    ring
  have hbits := mul_le_mul_of_nonneg_right hcast hunit.le
  rw [dyadic, hscale] at hlead
  norm_num at hbits ⊢
  linarith

/-- **The shortest digits read back,** as they are found, and stand for the same number without the zeros at their end. -/
theorem exists_readsBack_shortest (hfinite : d.isFinite = true) (hd : 0 < d.magnitude) :
    ∃ a p, d.readsBack a p = true ∧ decimal d.shortest.1 d.shortest.2 = decimal a p :=
  ⟨_, _, readsBack_searchGrid (readsBack_floorAt hd (pow10_lastGrid_le hfinite hd)), decimal_dropZeros _ _ _⟩

/-! ## Written digits -/

/-- the number that digits with at most one point stand for -/
def readPositional (cs : List Char) : ℚ :=
  Nat.ofDigitChars 10 (cs.filter (· ≠ '.')) 0 / 10 ^ (cs.dropWhile (· ≠ '.')).tail.length

theorem readPositional_whole {cs : List Char} (h : '.' ∉ cs) : readPositional cs = Nat.ofDigitChars 10 cs 0 := by
  have hall : ∀ c ∈ cs, decide (c ≠ '.') = true := fun c hc => decide_eq_true fun hdot => h (hdot ▸ hc)
  have hnone : (cs ++ []).dropWhile (· ≠ '.') = [] := by rw [List.dropWhile_append_of_pos hall, List.dropWhile_nil]
  rw [List.append_nil] at hnone
  rw [readPositional, List.filter_eq_self.2 hall, hnone, List.tail_nil, List.length_nil, pow_zero, div_one]

theorem readPositional_point {whole places : List Char} (hw : '.' ∉ whole) (hp : '.' ∉ places) :
    readPositional (whole ++ '.' :: places) = Nat.ofDigitChars 10 (whole ++ places) 0 / 10 ^ places.length := by
  have hwhole : ∀ c ∈ whole, decide (c ≠ '.') = true := fun c hc => decide_eq_true fun hdot => hw (hdot ▸ hc)
  have hplaces : ∀ c ∈ places, decide (c ≠ '.') = true := fun c hc => decide_eq_true fun hdot => hp (hdot ▸ hc)
  have hfilter : (whole ++ '.' :: places).filter (· ≠ '.') = whole ++ places := by
    rw [List.filter_append, List.filter_cons_of_neg (by decide), List.filter_eq_self.2 hwhole, List.filter_eq_self.2 hplaces]
  have hdrop : (whole ++ '.' :: places).dropWhile (· ≠ '.') = '.' :: places := by
    rw [List.dropWhile_append_of_pos hwhole, List.dropWhile_cons_of_neg (by decide)]
  rw [readPositional, hfilter, hdrop, List.tail_cons]

theorem not_mem_zeros (n : Nat) : '.' ∉ List.replicate n '0' := fun hm => absurd (List.eq_of_mem_replicate hm) (by decide)

/-- **Digits laid out without an exponent** stand for their number times the power of ten. -/
theorem readPositional_positional {digits : List Char} (h : '.' ∉ digits) (p : Int) :
    readPositional (positional false digits p) = decimal (Nat.ofDigitChars 10 digits 0) p := by
  simp only [positional, Bool.false_eq_true, if_false, List.append_nil]
  split_ifs with hp hplaces
  · obtain ⟨n, rfl⟩ := Int.eq_ofNat_of_zero_le hp
    rw [readPositional_whole (List.not_mem_append h (not_mem_zeros _)), Nat.ofDigitChars_append,
      Nat.ofDigitChars_replicate_zero, decimal, Int.toNat_natCast, zpow_natCast]
    push_cast
    ring
  all_goals
    obtain ⟨n, hn⟩ : ∃ n : Nat, p = -(n : Int) := ⟨p.natAbs, by omega⟩
    subst hn
    rw [neg_neg, Int.toNat_natCast] at hplaces ⊢
  · rw [readPositional_point (fun hm => h (List.mem_of_mem_take hm)) (fun hm => h (List.mem_of_mem_drop hm)),
      List.take_append_drop, List.length_drop, decimal, zpow_neg, zpow_natCast, ← div_eq_mul_inv,
      show digits.length - (digits.length - n) = n by omega]
  · have hzeros : ['0', '.'] ++ List.replicate (n - digits.length) '0' ++ digits =
        ['0'] ++ '.' :: (List.replicate (n - digits.length) '0' ++ digits) := by simp
    rw [hzeros, readPositional_point (by decide) (List.not_mem_append (not_mem_zeros _) h), ← List.append_assoc,
      Nat.ofDigitChars_append, Nat.ofDigitChars_append, Nat.ofDigitChars_replicate_zero, List.length_append,
      List.length_replicate, Nat.sub_add_cancel (not_lt.1 hplaces), show Nat.ofDigitChars 10 ['0'] 0 = 0 by decide,
      Nat.mul_zero, decimal, zpow_neg, zpow_natCast, ← div_eq_mul_inv]

/-- a positional form begins with a digit -/
theorem head_positional {digits : List Char} (h : ∀ c ∈ digits, c.isDigit = true) (hne : digits ≠ []) (p : Int) :
    ∃ c rest, positional false digits p = c :: rest ∧ c.isDigit = true := by
  obtain ⟨c, rest, rfl⟩ := List.exists_cons_of_ne_nil hne
  have hc := h c List.mem_cons_self
  simp only [positional, Bool.false_eq_true, if_false, List.append_nil]
  split_ifs with hp hplaces
  · exact ⟨c, _, rfl, hc⟩
  · obtain ⟨n, hn⟩ : ∃ n, (c :: rest).length - (-p).toNat = n + 1 := ⟨(c :: rest).length - (-p).toNat - 1, by omega⟩
    rw [hn]
    exact ⟨c, _, rfl, hc⟩
  · exact ⟨'0', _, rfl, by decide⟩

/-! ## Written doubles -/

/-- whether it is no NaN -/
def isNumber (d : Binary64) : Bool :=
  d.isFinite || d.fractionBits = 0

/-- the written form of a number without its sign -/
def body (d : Binary64) : List Char :=
  if d.isFinite = false then ['i', 'n', 'f']
  else if d.significand = 0 then ['0']
  else positional false (digitsOf d.shortest.1) d.shortest.2

/-- a number is written as its sign and the rest -/
theorem display_of_isNumber (h : d.isNumber = true) :
    d.display.toList = (if d.isNegative then ['-'] else []) ++ d.body := by
  rw [display, write, body]
  by_cases hfinite : d.isFinite = true
  · by_cases hzero : d.significand = 0
    · simp [hfinite, hzero, positional]
    · simp [hfinite, hzero]
  · have hfraction : d.fractionBits = 0 := by simpa [isNumber, hfinite] using h
    simp [hfinite, hfraction]

theorem digitsOf_isDigit (n : Nat) : ∀ c ∈ digitsOf n, c.isDigit = true :=
  fun _ hc => Nat.isDigit_of_mem_toDigits (by decide) (by decide) hc

/-- a finite number is written with a digit first -/
theorem head_body_of_isFinite (h : d.isFinite = true) : ∃ c rest, d.body = c :: rest ∧ c.isDigit = true := by
  rw [body, if_neg (by simp [h])]
  split
  · exact ⟨'0', [], rfl, by decide⟩
  · exact head_positional (digitsOf_isDigit _) Nat.toDigits_ne_nil _

/-- behind the sign stands no sign -/
theorem head_body (d : Binary64) : d.body.head? ≠ some '-' := by
  by_cases hfinite : d.isFinite = true
  · obtain ⟨c, rest, hbody, hc⟩ := head_body_of_isFinite hfinite
    rw [hbody, List.head?_cons]
    rintro ⟨⟩
    exact absurd hc (by decide)
  · rw [body, if_pos (Bool.eq_false_iff.2 hfinite)]
    decide

/-- **The number that is written** is zero with the double, or reads back as it. -/
theorem readPositional_body (hfinite : d.isFinite = true) :
    d.magnitude = 0 ∧ readPositional d.body = 0 ∨
      0 < d.magnitude ∧ ∃ a p, d.readsBack a p = true ∧ readPositional d.body = decimal a p := by
  rw [body, if_neg (by simp [hfinite])]
  rcases Nat.eq_zero_or_pos d.magnitude with hd | hd
  · have hzero : d.significand = 0 := by rw [significand_eq, hd, significandOf, if_pos (by decide), Nat.zero_mod]
    exact Or.inl ⟨hd, by rw [if_pos hzero, readPositional_whole (by decide)]; rfl⟩
  · obtain ⟨a, p, hback, hsame⟩ := exists_readsBack_shortest hfinite hd
    refine Or.inr ⟨hd, a, p, hback, ?_⟩
    have hpoint : '.' ∉ digitsOf d.shortest.1 := fun hm => absurd (digitsOf_isDigit _ _ hm) (by decide)
    rw [if_neg (significand_pos hd).ne', readPositional_positional hpoint, digitsOf, Nat.ofDigitChars_ten_toDigits, hsame]

/-- a decimal that reads back is not zero -/
theorem decimal_pos_of_readsBack (hd : 0 < d.magnitude) {a : Nat} {p : Int} (h : d.readsBack a p = true) :
    0 < decimal a p := by
  obtain ⟨n, hn⟩ := Nat.exists_eq_add_of_lt hd
  rw [Nat.zero_add] at hn
  refine lt_of_lt_of_le ?_ (mem_interval_of_readsBack hn h).1
  rw [upperBound, dyadic]
  positivity

/-- the bits of a double are those of its sign and those below it -/
theorem eq_of_magnitude {e : Binary64} (hsign : d.isNegative = e.isNegative) (h : d.magnitude = e.magnitude) : d = e := by
  obtain ⟨bits⟩ := d
  obtain ⟨others⟩ := e
  have hbits := bits.toNat_lt
  have hothers := others.toNat_lt
  have hhalf : 2 ^ 63 ≤ bits.toNat ↔ 2 ^ 63 ≤ others.toNat := decide_eq_decide.1 hsign
  simp only [magnitude] at h
  congr 1
  exact UInt64.toNat_inj.1 (by omega)

theorem magnitude_of_infinite (h : d.isNumber = true) (hfinite : ¬ d.isFinite = true) :
    d.magnitude = 2047 * 2 ^ 52 := by
  have hfraction : d.fractionBits = 0 := by simpa [isNumber, hfinite] using h
  have hexponent : d.exponentBits = 2047 := by simpa [isFinite] using hfinite
  rw [fractionBits_eq] at hfraction
  rw [exponentBits_eq] at hexponent
  omega

/-- **Doubles are told apart by their written form,** where a NaN is left out. -/
theorem display_injective {d e : Binary64} (hd : d.isNumber = true) (he : e.isNumber = true)
    (h : d.display = e.display) : d = e := by
  have hchars := congrArg String.toList h
  rw [display_of_isNumber hd, display_of_isNumber he] at hchars
  obtain ⟨hsign, hbody⟩ : d.isNegative = e.isNegative ∧ d.body = e.body := by
    cases hneg : d.isNegative <;> cases hneg' : e.isNegative <;> rw [hneg, hneg'] at hchars
    · exact ⟨rfl, hchars⟩
    · exact absurd (congrArg List.head? hchars) (head_body d)
    · exact absurd (congrArg List.head? hchars).symm (head_body e)
    · exact ⟨rfl, (List.cons.inj hchars).2⟩
  refine eq_of_magnitude hsign ?_
  by_cases hfinite : d.isFinite = true <;> by_cases hfinite' : e.isFinite = true
  · rcases readPositional_body hfinite with ⟨hzero, hread⟩ | ⟨hpos, a, p, hback, hread⟩ <;>
      rcases readPositional_body hfinite' with ⟨hzero', hread'⟩ | ⟨hpos', b, q, hback', hread'⟩ <;>
      rw [hbody, hread'] at hread
    · rw [hzero, hzero']
    · exact absurd hread (decimal_pos_of_readsBack hpos' hback').ne'
    · exact absurd hread.symm (decimal_pos_of_readsBack hpos hback).ne'
    · exact magnitude_eq_of_readsBack hpos hpos' hback hback' hread.symm
  · obtain ⟨c, rest, hc, hdigit⟩ := head_body_of_isFinite hfinite
    rw [hbody, body, if_pos (Bool.eq_false_iff.2 hfinite')] at hc
    cases hc
    exact absurd hdigit (by decide)
  · obtain ⟨c, rest, hc, hdigit⟩ := head_body_of_isFinite hfinite'
    rw [← hbody, body, if_pos (Bool.eq_false_iff.2 hfinite)] at hc
    cases hc
    exact absurd hdigit (by decide)
  · rw [magnitude_of_infinite hd hfinite, magnitude_of_infinite he hfinite']

end Binary64

end GraphGen
