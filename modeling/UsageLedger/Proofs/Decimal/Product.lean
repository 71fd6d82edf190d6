import Mathlib.Algebra.Order.Floor.Ring
import Mathlib.Data.Rat.Floor
import UsageLedger.Proofs.Decimal.Rounding

/-! Products with a whole number. The product of a greater whole number with the same factor is not smaller, also
where it has to be rounded at fewer places: a product that does not fit at some place lies, as it is rounded at the
next, beyond all that do. -/

namespace UsageLedger

/-- A number without its fraction. -/
def wholePart (x : ℚ) : ℤ := if 0 ≤ x then ⌊x⌋ else ⌈x⌉

section WholePart

variable {x y : ℚ}

theorem wholePart_nonneg (h : 0 ≤ x) : 0 ≤ wholePart x := by
  rw [wholePart, if_pos h]
  exact Int.floor_nonneg.2 h

theorem wholePart_nonpos (h : x ≤ 0) : wholePart x ≤ 0 := by
  rw [wholePart]
  split
  · rename_i hpos
    rw [le_antisymm h hpos, Int.floor_zero]
  · exact Int.ceil_le.2 (h.trans_eq Int.cast_zero.symm)

theorem wholePart_mono (h : x ≤ y) : wholePart x ≤ wholePart y := by
  rcases le_or_gt 0 x with hx | hx
  · rw [wholePart, wholePart, if_pos hx, if_pos (hx.trans h)]
    exact Int.floor_le_floor h
  · rcases le_or_gt 0 y with hy | hy
    · exact (wholePart_nonpos hx.le).trans (wholePart_nonneg hy)
    · rw [wholePart, wholePart, if_neg hx.not_ge, if_neg hy.not_ge]
      exact Int.ceil_le_ceil h

end WholePart

namespace Decimal

variable {a b c d d' : Decimal}

theorem coefficient_trunc (a : Decimal) : a.trunc.coefficient = wholePart a.value := by
  have hpow : 0 < 10 ^ a.scale := Nat.pow_pos (by decide)
  have hcast : a.value = (a.coefficient : ℚ) / (10 ^ a.scale : Nat) := by
    rw [value]
    push_cast
    rfl
  have hsign : 0 ≤ a.value ↔ 0 ≤ a.coefficient := by
    rw [value, le_div_iff₀ (by positivity), zero_mul, Int.cast_nonneg_iff]
  change a.coefficient.tdiv (10 ^ a.scale : Nat) = _
  rw [wholePart]
  split
  · rename_i hpos
    rw [hcast, Rat.floor_intCast_div_natCast, Int.tdiv_eq_ediv_of_nonneg (hsign.1 hpos)]
  · rename_i hneg
    have hopposite : a.coefficient = -(-a.coefficient) := (neg_neg _).symm
    have hpos : 0 ≤ -a.coefficient := by
      rw [hsign, not_le] at hneg
      omega
    rw [hcast, hopposite, Int.neg_tdiv, Int.tdiv_eq_ediv_of_nonneg hpos, ← Rat.floor_intCast_div_natCast]
    push_cast
    rw [neg_neg, neg_div, ← Int.ceil_neg, neg_neg]

/-- The whole part is that of the value. -/
theorem value_trunc (a : Decimal) : a.trunc.value = wholePart a.value := by
  rw [value, coefficient_trunc]
  change (wholePart a.value : ℚ) / 10 ^ 0 = _
  rw [pow_zero, div_one]

/-! ### Fitting -/

/-- What a coefficient comes to when it fits: it is rounded at the first place at which it is in range. -/
theorem fit?_steps {n : ℤ} {s : Nat} (h : fit? n s = some d) (hs : s ≤ 28) :
    ∃ k, d.value * 10 ^ s = ((roundSigned n (10 ^ k) * 10 ^ k : ℤ) : ℚ) ∧ (roundSigned n (10 ^ k)).natAbs < 2 ^ 96 ∧
      ∀ j < k, 2 ^ 96 ≤ (roundSigned n (10 ^ j)).natAbs := by
  obtain ⟨k, hcut, hbefore⟩ := fit?_eq_some h
  obtain ⟨hk, hcoefficient, hscale⟩ := cut?_eq_some hcut
  refine ⟨k, ?_, hcoefficient ▸ d.coefficient_lt, fun j hj => ?_⟩
  · have hpow : (10 : ℚ) ^ s = 10 ^ (s - k) * 10 ^ k := by
      rw [← pow_add, Nat.sub_add_cancel hk]
    rw [value, hcoefficient, hscale, hpow, ← mul_assoc, div_mul_cancel₀ _ (by positivity)]
    push_cast
    rfl
  · rw [natAbs_roundSigned]
    exact (cut?_eq_none_iff (by omega) (by omega)).1 (hbefore j hj)

/-- A greater coefficient that fits only at a later place is rounded to something greater. -/
theorem roundSigned_le_later {n n' : ℤ} {k k' : Nat} (hle : n ≤ n') (hlt : k < k')
    (hfits : (roundSigned n (10 ^ k)).natAbs < 2 ^ 96)
    (hlarge : ∀ j < k', 2 ^ 96 ≤ (roundSigned n' (10 ^ j)).natAbs) :
    roundSigned n (10 ^ k) * 10 ^ k ≤ roundSigned n' (10 ^ k') * 10 ^ k' := by
  have hpow : ∀ j, 0 < 10 ^ j := fun _ => Nat.pow_pos (by decide)
  -- at the earlier place only the greater one is out of range, so it is out of range above
  have hpos : 0 ≤ n' := by
    by_contra hneg
    have hmono := roundSigned_mono (hpow k) hle
    have hbelow : roundSigned n' (10 ^ k) ≤ 0 := by
      rw [roundSigned, if_pos (not_le.1 hneg)]
      omega
    have hout := hlarge k hlt
    omega
  obtain ⟨j, rfl⟩ := Nat.exists_eq_add_of_lt hlt
  have hreach : (2 : ℤ) ^ 96 * 10 ^ (k + j) ≤ roundSigned n' (10 ^ (k + j + 1)) * 10 ^ (k + j + 1) := by
    have hlast := hlarge (k + j) (Nat.lt_succ_self _)
    rw [natAbs_roundSigned] at hlast
    have hnext := pow_le_roundQuotient_succ hlast
    rw [roundSigned, if_neg (not_lt.2 hpos)]
    exact_mod_cast hnext
  have hbound : roundSigned n (10 ^ k) ≤ 2 ^ 96 := by omega
  calc roundSigned n (10 ^ k) * 10 ^ k ≤ 2 ^ 96 * 10 ^ k := mul_le_mul_of_nonneg_right hbound (by positivity)
    _ ≤ 2 ^ 96 * 10 ^ (k + j) :=
      mul_le_mul_of_nonneg_left (pow_le_pow_right₀ (by norm_num) (Nat.le_add_right k j)) (by positivity)
    _ ≤ roundSigned n' (10 ^ (k + j + 1)) * 10 ^ (k + j + 1) := hreach

/-- Of two coefficients of one scale the greater one is not fitted to less. -/
theorem fit?_mono {n n' : ℤ} {s : Nat} (h : fit? n s = some d) (h' : fit? n' s = some d') (hs : s ≤ 28)
    (hle : n ≤ n') : d.value ≤ d'.value := by
  obtain ⟨k, hvalue, hfits, hlarge⟩ := fit?_steps h hs
  obtain ⟨k', hvalue', hfits', hlarge'⟩ := fit?_steps h' hs
  have hpow : ∀ j, 0 < 10 ^ j := fun _ => Nat.pow_pos (by decide)
  refine le_of_mul_le_mul_right ?_ (by positivity : (0 : ℚ) < 10 ^ s)
  rw [hvalue, hvalue', Int.cast_le]
  rcases lt_trichotomy k k' with hlt | rfl | hlt
  · exact roundSigned_le_later hle hlt hfits hlarge'
  · exact mul_le_mul_of_nonneg_right (roundSigned_mono (hpow k) hle) (by positivity)
  · -- the same below zero, with the two exchanged
    have hneg : ∀ (m : ℤ) j, roundSigned (-m) (10 ^ j) = -roundSigned m (10 ^ j) :=
      fun m j => roundSigned_neg m (hpow j)
    have hopposite := roundSigned_le_later (neg_le_neg hle) hlt (by rwa [hneg, Int.natAbs_neg])
      fun j hj => by rw [hneg, Int.natAbs_neg]; exact hlarge j hj
    rw [hneg, hneg, neg_mul, neg_mul, neg_le_neg_iff] at hopposite
    exact hopposite

/-! ### Products -/

/-- A product of few places is what fits of the product of the coefficients, also where it is zero. -/
theorem mul?_eq_fit? (h : a.mul? b = some d) (hscale : a.scale + b.scale ≤ 28) :
    ∃ d', fit? (a.coefficient * b.coefficient) (a.scale + b.scale) = some d' ∧ d'.value = d.value := by
  unfold mul? at h
  split at h
  · rename_i hzero
    have hnothing : a.coefficient * b.coefficient = 0 := by
      rcases Bool.or_eq_true_iff.1 hzero with hzero | hzero
      · rw [show a.coefficient = 0 by simpa [isZero] using hzero, zero_mul]
      · rw [show b.coefficient = 0 by simpa [isZero] using hzero, mul_zero]
    obtain rfl := Option.some.inj h
    rw [hnothing]
    refine ⟨_, fit?_of_lt (by decide) hscale, ?_⟩
    rw [value_zero, value, Int.cast_zero, zero_div]
  · rw [if_neg fun hshort => by omega] at h
    exact ⟨d, h, rfl⟩

/-- The product of a greater number of wholes with a factor that is not negative is not smaller. -/
theorem mul?_mono (ha : a.scale = 0) (hb : b.scale = 0) (hc : 0 ≤ c.value) (hle : a.value ≤ b.value)
    (h : a.mul? c = some d) (h' : b.mul? c = some d') : d.value ≤ d'.value := by
  have hscale := c.scale_le
  obtain ⟨e, hfit, hvalue⟩ := mul?_eq_fit? h (by omega)
  obtain ⟨e', hfit', hvalue'⟩ := mul?_eq_fit? h' (by omega)
  rw [ha] at hfit
  rw [hb] at hfit'
  rw [← hvalue, ← hvalue']
  have hfactor : 0 ≤ c.coefficient := by
    rwa [value, le_div_iff₀ (by positivity), zero_mul, Int.cast_nonneg_iff] at hc
  have hwhole : a.coefficient ≤ b.coefficient := by
    rw [value, value, ha, hb, pow_zero, div_one, div_one] at hle
    exact_mod_cast hle
  exact fit?_mono hfit hfit' (by omega) (mul_le_mul_of_nonneg_right hwhole hfactor)

/-- A product whose coefficient is in range is exact. -/
theorem mul?_of_small (hscale : a.scale + b.scale ≤ 28) (hsmall : (a.coefficient * b.coefficient).natAbs < 2 ^ 96) :
    ∃ d, a.mul? b = some d ∧ d.value = a.value * b.value := by
  unfold mul?
  split
  · rename_i hzero
    refine ⟨zero, rfl, ?_⟩
    rcases Bool.or_eq_true_iff.1 hzero with hzero | hzero
    · rw [value_of_isZero hzero, zero_mul, value_zero]
    · rw [value_of_isZero hzero, mul_zero, value_zero]
  · rw [if_neg fun hshort => by omega]
    refine ⟨_, fit?_of_lt hsmall hscale, ?_⟩
    rw [value, value, value, pow_add, div_mul_div_comm]
    push_cast
    rfl

end Decimal

end UsageLedger
