import UsageLedger.Proofs.Decimal.Value

/-! Sums of decimals against the exact sums. A sum that is the value of a decimal is given exactly. Any other
is rounded at the first place where it fits, by half a unit of that place at most, and refused if no place
is left. Only a sum with more digits than a coefficient has is rounded, so little of it goes. -/

namespace UsageLedger

namespace Decimal

/-! ### Rounding -/

/-- A rounded quotient of a whole number is within half a unit of the exact one. -/
theorem roundSigned_near (c : Int) {den : Nat} (hden : 0 < den) : 2 * |roundSigned c den * den - c| ≤ den := by
  obtain ⟨hlow, hhigh⟩ := roundQuotient_near hden c.natAbs
  zify at hlow hhigh
  rw [roundSigned]
  split
  · rename_i hneg
    rw [abs_of_neg hneg] at hlow hhigh
    have hdist : |-(roundQuotient c.natAbs den : Int) * den - c| = |roundQuotient c.natAbs den * den + c| := by
      rw [← abs_neg]
      ring_nf
    rw [hdist, ← abs_two, ← abs_mul, abs_le]
    constructor <;> linarith
  · rename_i hpos
    rw [abs_of_nonneg (not_lt.1 hpos)] at hlow hhigh
    rw [← abs_two, ← abs_mul, abs_le]
    constructor <;> linarith

/-- How far a coefficient that fits is from what it stands for, in units of the places it had. -/
theorem fit?_error {c : Int} {s : Nat} {d : Decimal} (h : fit? c s = some d) :
    ∃ k ≤ s, d.scale = s - k ∧ |d.value - c / 10 ^ s| * 10 ^ s = (|roundSigned c (10 ^ k) * 10 ^ k - c| : Int) ∧
      ∀ j < k, cut? c s j = none := by
  obtain ⟨k, hcut, hbefore⟩ := fit?_eq_some h
  obtain ⟨hk, hcoefficient, hscale⟩ := cut?_eq_some hcut
  refine ⟨k, hk, hscale, ?_, hbefore⟩
  have hpow : (10 : ℚ) ^ s = 10 ^ (s - k) * 10 ^ k := by rw [← pow_add, Nat.sub_add_cancel hk]
  have hten : (0 : ℚ) < 10 ^ s := by positivity
  have hdiff : (d.value - c / 10 ^ s) * 10 ^ s = roundSigned c (10 ^ k) * 10 ^ k - c := by
    rw [sub_mul, div_mul_cancel₀ _ hten.ne', value, hcoefficient, hscale, hpow, ← mul_assoc,
      div_mul_cancel₀ _ (by positivity)]
  rw [← abs_of_pos hten, ← abs_mul, abs_of_pos hten, hdiff]
  push_cast
  rfl

theorem fit?_near {c : Int} {s : Nat} {d : Decimal} (h : fit? c s = some d) :
    2 * |d.value - c / 10 ^ s| ≤ 1 / 10 ^ d.scale := by
  obtain ⟨k, hk, hscale, herror, -⟩ := fit?_error h
  have hnear := roundSigned_near c (Nat.pow_pos (n := k) (by norm_num : 0 < 10))
  have hten : (0 : ℚ) < 10 ^ s := by positivity
  have hunit : 1 / 10 ^ d.scale * (10 : ℚ) ^ s = 10 ^ k := by
    rw [hscale, one_div, inv_mul_eq_iff_eq_mul₀ (by positivity), ← pow_add, Nat.sub_add_cancel hk]
  refine le_of_mul_le_mul_right ?_ hten
  rw [hunit, mul_assoc, herror]
  exact_mod_cast hnear

/-- What is rounded has more digits than a coefficient, so rounding takes one part in `2 ^ 93` at most. -/
theorem fit?_relative {c : Int} {s : Nat} {d : Decimal} (h : fit? c s = some d) (hs : s ≤ 28) :
    2 ^ 93 * |d.value - c / 10 ^ s| ≤ |(c : ℚ) / 10 ^ s| := by
  obtain ⟨k, hk, -, herror, hbefore⟩ := fit?_error h
  have hten : (0 : ℚ) < 10 ^ s := by positivity
  refine le_of_mul_le_mul_right ?_ hten
  rw [abs_div, abs_of_pos hten, div_mul_cancel₀ _ hten.ne', mul_assoc, herror]
  cases k with
  | zero => simp [roundSigned_one]
  | succ j =>
      have hlarge := (cut?_eq_none_iff (by omega) (by omega)).1 (hbefore j (Nat.lt_succ_self j))
      rw [even_le_roundQuotient_iff (by norm_num) (by norm_num) (Nat.pow_pos (by norm_num))] at hlarge
      have hnear := roundSigned_near c (Nat.pow_pos (n := j + 1) (by norm_num : 0 < 10))
      zify at hlarge
      rw [Nat.cast_pow, Nat.cast_ofNat, pow_succ (10 : Int) j] at hnear
      rw [pow_succ (10 : Int) j]
      have hunit : (0 : Int) < 10 ^ j := by positivity
      have hbound : 2 ^ 93 * |roundSigned c (10 ^ (j + 1)) * (10 ^ j * 10) - c| ≤ |c| := by linarith
      exact_mod_cast hbound

/-! ### Sums -/

variable {a b c : Decimal}

/-- A sum is the exact one, or it is what fits of the exact one. -/
theorem add?_cases (a b : Decimal) : (∃ c, a.add? b = some c ∧ c.value = a.value + b.value) ∨
    ∃ c s, a.add? b = fit? c s ∧ s ≤ 28 ∧ (c : ℚ) / 10 ^ s = a.value + b.value := by
  unfold add?
  split
  · rename_i hzero
    exact .inl ⟨b, rfl, by rw [value_of_isZero hzero, zero_add]⟩
  · split
    · rename_i hzero
      exact .inl ⟨a, rfl, by rw [value_of_isZero hzero, add_zero]⟩
    · exact .inr ⟨_, _, rfl, max_le a.scale_le b.scale_le, sum_value a b⟩

/-- A sum is refused exactly when it is too large for the nearest whole number to fit. -/
theorem add?_eq_none_iff : a.add? b = none ↔ 2 ^ 97 - 1 ≤ 2 * |a.value + b.value| := by
  rcases add?_cases a b with ⟨c, hc, hvalue⟩ | ⟨c, s, hfit, -, hvalue⟩
  · have hlt : |c.value| ≤ 2 ^ 96 - 1 := by
      have hcoefficient : c.coefficient.natAbs ≤ 2 ^ 96 - 1 := Nat.le_sub_one_of_lt c.coefficient_lt
      have hcast : (c.coefficient.natAbs : ℚ) ≤ ((2 ^ 96 - 1 : Nat) : ℚ) := Nat.cast_le.2 hcoefficient
      exact (abs_value_le c).trans (hcast.trans_eq (by norm_num))
    rw [hc, ← hvalue]
    refine iff_of_false (by simp) (not_le.2 ?_)
    linarith
  · have hten : (0 : ℚ) < 10 ^ s := by positivity
    have hscaled : 2 * |a.value + b.value| * 10 ^ s = ((2 * c.natAbs : Nat) : ℚ) := by
      rw [← hvalue, abs_div, abs_of_pos hten, mul_assoc, div_mul_cancel₀ _ hten.ne']
      push_cast [Nat.cast_natAbs]
      rfl
    have hbound : (2 : ℚ) ^ 97 - 1 = ((2 ^ 97 - 1 : Nat) : ℚ) := by norm_num
    rw [hfit, fit?_eq_none_iff, ← mul_le_mul_iff_of_pos_right hten, hscaled, hbound]
    norm_cast

/-- A sum that is the value of a decimal is given exactly, and no other can be. -/
theorem add?_exact_iff : (∃ c, a.add? b = some c ∧ c.value = a.value + b.value) ↔
    ∃ d : Decimal, d.value = a.value + b.value := by
  refine ⟨fun ⟨c, _, hvalue⟩ => ⟨c, hvalue⟩, fun ⟨d, hd⟩ => ?_⟩
  rcases add?_cases a b with hexact | ⟨c, s, hfit, hs, hvalue⟩
  · exact hexact
  · have hgrid : c * 10 ^ d.scale = d.coefficient * 10 ^ s := by
      rw [← hvalue, value, div_eq_div_iff (by positivity) (by positivity)] at hd
      exact_mod_cast hd.symm
    rw [hfit, ← hvalue]
    exact fit?_on_grid hgrid hs d.coefficient_lt

/-- A sum is off by half a unit of its last place at most, and by one part in `2 ^ 93` at most. -/
theorem add?_near (h : a.add? b = some c) : 2 * |c.value - (a.value + b.value)| ≤ 1 / 10 ^ c.scale ∧
    2 ^ 93 * |c.value - (a.value + b.value)| ≤ |a.value + b.value| := by
  rcases add?_cases a b with ⟨c', hc', hvalue⟩ | ⟨n, s, hfit, hs, hvalue⟩
  · obtain rfl : c' = c := Option.some.inj (hc'.symm.trans h)
    rw [hvalue, sub_self, abs_zero, mul_zero, mul_zero]
    exact ⟨by positivity, abs_nonneg _⟩
  · rw [h, eq_comm] at hfit
    rw [← hvalue]
    exact ⟨fit?_near hfit, fit?_relative hfit hs⟩

end Decimal

end UsageLedger
