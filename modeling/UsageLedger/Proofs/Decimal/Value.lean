import Mathlib.Algebra.Order.Field.Rat
import Mathlib.Tactic.Linarith
import Mathlib.Tactic.FieldSimp
import Mathlib.Tactic.Ring
import Mathlib.Tactic.Positivity
import UsageLedger.Decimal.Basic

/-! The values of decimals as rational numbers. A sum that stays below the coefficient bound at the places
of its operands is the exact sum: rounding starts only beyond that bound, and what it gives lies beyond it
too. A product has no decimal exactly when the exact product is at least half a unit past the largest
coefficient. -/

namespace UsageLedger

/-- What a search through the first naturals finds, it finds at the first of them that has something. -/
theorem exists_of_findSome?_range {α : Type} {f : Nat → Option α} {n : Nat} {a : α}
    (h : (List.range n).findSome? f = some a) : ∃ k < n, f k = some a ∧ ∀ j < k, f j = none := by
  obtain ⟨before, k, after, hrange, hfound, hnone⟩ := List.findSome?_eq_some_iff.1 h
  rw [List.range_eq_range', List.range'_eq_append_iff] at hrange
  obtain ⟨i, hi, hbefore, hafter⟩ := hrange
  obtain ⟨rfl, hpos, -⟩ := List.range'_eq_cons_iff.1 hafter.symm
  refine ⟨_, by omega, hfound, fun j hj => hnone j ?_⟩
  rw [hbefore, List.mem_range'_1]
  omega

/-- A rounded quotient reaches an even number exactly when twice the quotient reaches the odd number
below its double: the tie just under an even number goes up to it. -/
theorem even_le_roundQuotient_iff {m den : Nat} (hm : m % 2 = 0) (hpos : 0 < m) (hden : 0 < den) (num : Nat) :
    m ≤ roundQuotient num den ↔ (2 * m - 1) * den ≤ 2 * num := by
  have hnear := roundQuotient_near hden num
  constructor
  · intro hle
    have hmul : m * den ≤ roundQuotient num den * den := Nat.mul_le_mul_right den hle
    have hsplit : (2 * m - 1) * den = 2 * (m * den) - den := by
      rw [Nat.sub_mul, one_mul, mul_assoc]
    rw [mul_assoc] at hnear
    omega
  · intro hle
    by_contra hlt
    rw [not_le] at hlt
    -- the quotient is then the tie halfway below `m`, whose lower neighbour `m - 1` is odd
    have hround : roundQuotient num den = m - 1 := by
      by_contra hne
      have hlow : 2 * roundQuotient num den + 1 < 2 * m - 1 := by omega
      have := Nat.mul_lt_mul_of_pos_right hlow hden
      omega
    have htie : 2 * num = (2 * m - 1) * den := by
      rw [hround, show 2 * (m - 1) + 1 = 2 * m - 1 by omega] at hnear
      omega
    have hquot : num / den = m - 1 ∧ 2 * (num % den) = den := by
      have hdivmod := Nat.div_add_mod num den
      have hmod := Nat.mod_lt num hden
      have hexpand : (2 * m - 1) * den = 2 * (den * (m - 1)) + den := by
        rw [show 2 * m - 1 = 2 * (m - 1) + 1 by omega, add_mul, one_mul, mul_assoc, mul_comm den]
      have hdiv : num / den = m - 1 := by
        apply Nat.div_eq_of_lt_le
        · rw [mul_comm]; omega
        · rw [show m - 1 + 1 = (m - 1) + 1 from rfl, add_mul, one_mul, mul_comm (m - 1)]; omega
      rw [hdiv] at hdivmod
      exact ⟨hdiv, by omega⟩
    rw [roundQuotient] at hround
    simp only [hquot.1, hquot.2, lt_irrefl, if_false] at hround
    split at hround <;> omega

namespace Decimal

def value (a : Decimal) : ℚ := a.coefficient / 10 ^ a.scale

@[simp] theorem value_zero : zero.value = 0 := by
  simp [value, zero]

theorem isNonpositive_iff {a : Decimal} : a.isNonpositive = true ↔ a.value ≤ 0 := by
  rw [isNonpositive, decide_eq_true_iff, value, div_le_iff₀ (by positivity), zero_mul, Int.cast_nonpos]

theorem same_iff_value_eq {a b : Decimal} : a.same b = true ↔ a.value = b.value := by
  rw [value, value, div_eq_div_iff (by positivity) (by positivity), same, beq_iff_eq]
  norm_cast

theorem value_of_isZero {a : Decimal} (h : a.isZero = true) : a.value = 0 := by
  have hzero : a.coefficient = 0 := by simpa [isZero] using h
  simp [value, hzero]

theorem roundSigned_one (c : Int) : roundSigned c 1 = c := by
  have hone : roundQuotient c.natAbs 1 = c.natAbs := by
    simpa using roundQuotient_mul Nat.one_pos c.natAbs
  unfold roundSigned
  rw [hone]
  split <;> omega

theorem cut?_eq_some {c : Int} {s k : Nat} {d : Decimal} (h : cut? c s k = some d) :
    k ≤ s ∧ d.coefficient = roundSigned c (10 ^ k) ∧ d.scale = s - k := by
  unfold cut? at h
  split at h
  · rename_i hk
    exact ⟨hk, mk?_eq_some.1 h⟩
  · cases h

theorem mk?_eq_none_iff {c : Int} {s : Nat} : mk? c s = none ↔ ¬(c.natAbs < 2 ^ 96 ∧ s ≤ 28) := by
  unfold mk?
  split
  · next h => exact iff_of_false (Option.some_ne_none _) (not_not_intro h)
  · next h => exact iff_of_true rfl h

theorem cut?_eq_none_iff {c : Int} {s k : Nat} (hk : k ≤ s) (hs : s - k ≤ 28) :
    cut? c s k = none ↔ 2 ^ 96 ≤ roundQuotient c.natAbs (10 ^ k) := by
  rw [cut?, if_pos hk, mk?_eq_none_iff, natAbs_roundSigned, not_and_or, not_lt]
  exact or_iff_left (not_not_intro hs)

theorem fit?_eq_some {c : Int} {s : Nat} {d : Decimal} (h : fit? c s = some d) :
    ∃ k, cut? c s k = some d ∧ ∀ j < k, cut? c s j = none := by
  obtain ⟨k, -, hcut, hnone⟩ := exists_of_findSome?_range h
  exact ⟨k, hcut, hnone⟩

theorem fit?_scale_le {c : Int} {s : Nat} {d : Decimal} (h : fit? c s = some d) : d.scale ≤ s := by
  obtain ⟨k, hcut, -⟩ := fit?_eq_some h
  have := (cut?_eq_some hcut).2.2
  omega

/-- A coefficient that is out of range stays there when another place is dropped, counted in the places it had. -/
theorem pow_le_roundQuotient_succ {n j : Nat} (h : 2 ^ 96 ≤ roundQuotient n (10 ^ j)) :
    2 ^ 96 * 10 ^ j ≤ roundQuotient n (10 ^ (j + 1)) * 10 ^ (j + 1) := by
  have hpow : 0 < 10 ^ j := Nat.pow_pos (by norm_num)
  have hold := (even_le_roundQuotient_iff (by norm_num) (by norm_num) hpow n).1 h
  have hnew := (roundQuotient_near (Nat.pow_pos (n := j + 1) (by norm_num : 0 < 10)) n).1
  rw [pow_succ] at hnew ⊢
  have hle : (2 * 2 ^ 96 - 1) * 10 ^ j ≤ ((2 * roundQuotient n (10 ^ j * 10) + 1) * 10) * 10 ^ j := by
    calc (2 * 2 ^ 96 - 1) * 10 ^ j ≤ 2 * n := hold
      _ ≤ (2 * roundQuotient n (10 ^ j * 10) + 1) * (10 ^ j * 10) := hnew
      _ = ((2 * roundQuotient n (10 ^ j * 10) + 1) * 10) * 10 ^ j := by ring
  have hbare := Nat.le_of_mul_le_mul_right hle hpow
  have hten : 2 ^ 96 ≤ roundQuotient n (10 ^ j * 10) * 10 := by omega
  calc 2 ^ 96 * 10 ^ j ≤ roundQuotient n (10 ^ j * 10) * 10 * 10 ^ j := Nat.mul_le_mul_right _ hten
    _ = roundQuotient n (10 ^ j * 10) * (10 ^ j * 10) := by ring

theorem le_roundQuotient_succ {n j : Nat} (h : 2 ^ 96 ≤ roundQuotient n (10 ^ j)) :
    2 ^ 96 ≤ roundQuotient n (10 ^ (j + 1)) * 10 ^ (j + 1) :=
  (Nat.le_mul_of_pos_right _ (Nat.pow_pos (by norm_num))).trans (pow_le_roundQuotient_succ h)

theorem abs_value_mul_pow (d : Decimal) {n : Nat} (h : d.scale ≤ n) :
    |d.value| * 10 ^ n = ((d.coefficient.natAbs * 10 ^ (n - d.scale) : Nat) : ℚ) := by
  have hpow : (10 : ℚ) ^ n = 10 ^ (n - d.scale) * 10 ^ d.scale := by
    rw [← pow_add, Nat.sub_add_cancel h]
  rw [value, abs_div, abs_of_pos (pow_pos (by norm_num : (0 : ℚ) < 10) _), hpow]
  push_cast [Nat.cast_natAbs]
  field_simp

theorem abs_value_le (d : Decimal) : |d.value| ≤ d.coefficient.natAbs := by
  rw [value, abs_div, abs_of_pos (pow_pos (by norm_num : (0 : ℚ) < 10) _)]
  have hone : (1 : ℚ) ≤ 10 ^ d.scale := one_le_pow₀ (by norm_num)
  push_cast [Nat.cast_natAbs]
  exact div_le_self (abs_nonneg _) hone

theorem abs_value_mul_lt {d : Decimal} {k n : Nat} (h : d.coefficient.natAbs * k < n) : |d.value| * k < n :=
  calc |d.value| * k ≤ (d.coefficient.natAbs : ℚ) * k :=
        mul_le_mul_of_nonneg_right d.abs_value_le (Nat.cast_nonneg k)
    _ < n := by exact_mod_cast h

/-- Fitting is exact for what stays below the coefficient bound at `n` places. -/
theorem fit?_exact {c : Int} {s n : Nat} {d : Decimal} (h : fit? c s = some d) (hs : s ≤ n) (hn : n ≤ 28)
    (hsmall : |d.value| * 10 ^ n < 2 ^ 96) : d.value = c / 10 ^ s := by
  obtain ⟨k, hcut, hbefore⟩ := fit?_eq_some h
  obtain ⟨hk, hcoefficient, hscale⟩ := cut?_eq_some hcut
  cases k with
  | zero =>
      rw [value, hcoefficient, hscale, pow_zero, roundSigned_one, Nat.sub_zero]
  | succ j =>
      have hlarge := le_roundQuotient_succ
        ((cut?_eq_none_iff (by omega) (by omega)).1 (hbefore j (Nat.lt_succ_self j)))
      rw [abs_value_mul_pow d (by omega)] at hsmall
      have hsmall' : d.coefficient.natAbs * 10 ^ (n - d.scale) < 2 ^ 96 := by exact_mod_cast hsmall
      rw [hcoefficient, natAbs_roundSigned] at hsmall'
      have hpow : 10 ^ (j + 1) ≤ 10 ^ (n - d.scale) := Nat.pow_le_pow_right (by norm_num) (by omega)
      have := Nat.mul_le_mul_left (roundQuotient c.natAbs (10 ^ (j + 1))) hpow
      omega

theorem add?_scale_le {a b c : Decimal} {n : Nat} (h : a.add? b = some c) (ha : a.scale ≤ n)
    (hb : b.scale ≤ n) : c.scale ≤ n := by
  unfold add? at h
  split at h
  · rwa [← Option.some.inj h]
  · split at h
    · rwa [← Option.some.inj h]
    · exact (fit?_scale_le h).trans (max_le ha hb)

theorem sum_value (a b : Decimal) :
    ((a.coefficient * 10 ^ (max a.scale b.scale - a.scale) +
      b.coefficient * 10 ^ (max a.scale b.scale - b.scale) : Int) : ℚ) / 10 ^ max a.scale b.scale =
        a.value + b.value := by
  have hpow : ∀ s ≤ max a.scale b.scale,
      (10 : ℚ) ^ max a.scale b.scale = 10 ^ (max a.scale b.scale - s) * 10 ^ s := by
    intro s hs
    rw [← pow_add, Nat.sub_add_cancel hs]
  push_cast
  rw [add_div, value, value]
  congr 1
  · rw [hpow a.scale (le_max_left _ _), mul_comm (a.coefficient : ℚ)]
    exact mul_div_mul_left _ _ (pow_ne_zero _ (by norm_num))
  · rw [hpow b.scale (le_max_right _ _), mul_comm (b.coefficient : ℚ)]
    exact mul_div_mul_left _ _ (pow_ne_zero _ (by norm_num))

/-- A sum of decimals of at most `n` places that stays below the coefficient bound at `n` places is exact. -/
theorem add?_exact {a b c : Decimal} {n : Nat} (h : a.add? b = some c) (ha : a.scale ≤ n) (hb : b.scale ≤ n)
    (hn : n ≤ 28) (hsmall : |c.value| * 10 ^ n < 2 ^ 96) : c.value = a.value + b.value := by
  unfold add? at h
  split at h
  · rename_i hzero
    rw [← Option.some.inj h, value_of_isZero hzero, zero_add]
  · split at h
    · rename_i hzero
      rw [← Option.some.inj h, value_of_isZero hzero, add_zero]
    · rw [fit?_exact h (max_le ha hb) hn hsmall]
      exact sum_value a b

/-- Nothing fits exactly when the whole number nearest to the quotient has too many bits. -/
theorem fit?_eq_none_iff {c : Int} {s : Nat} :
    fit? c s = none ↔ (2 ^ 97 - 1) * 10 ^ s ≤ 2 * c.natAbs := by
  have hreach : ∀ k, 2 ^ 96 ≤ roundQuotient c.natAbs (10 ^ k) ↔ (2 ^ 97 - 1) * 10 ^ k ≤ 2 * c.natAbs :=
    fun k => even_le_roundQuotient_iff (by norm_num) (by norm_num) (Nat.pow_pos (by norm_num)) _
  rw [fit?, List.findSome?_eq_none_iff]
  constructor
  · intro hnone
    have hlast := hnone s (by simp)
    rwa [cut?_eq_none_iff (le_refl s) (by omega), hreach] at hlast
  · intro hlarge k hk
    have hks : k ≤ s := Nat.lt_succ_iff.1 (List.mem_range.1 hk)
    rw [cut?, if_pos hks, mk?_eq_none_iff]
    rintro ⟨hfits, -⟩
    rw [natAbs_roundSigned] at hfits
    apply absurd hfits
    rw [not_lt, hreach]
    exact (Nat.mul_le_mul_left _ (Nat.pow_le_pow_right (by norm_num) hks)).trans hlarge

/-- A product has no decimal exactly when it is too large for the nearest whole number to fit. -/
theorem mul?_eq_none_iff {a b : Decimal} : a.mul? b = none ↔ 2 ^ 97 - 1 ≤ 2 * |a.value * b.value| := by
  have hproduct : 2 * |a.value * b.value| * 10 ^ (a.scale + b.scale) =
      ((2 * (a.coefficient * b.coefficient).natAbs : Nat) : ℚ) := by
    rw [value, value, abs_mul, abs_div, abs_div, abs_of_pos (pow_pos (by norm_num : (0 : ℚ) < 10) _),
      abs_of_pos (pow_pos (by norm_num : (0 : ℚ) < 10) _), pow_add, Int.natAbs_mul]
    push_cast [Nat.cast_natAbs]
    field_simp
  have hlarge : (2 : ℚ) ^ 97 - 1 ≤ 2 * |a.value * b.value| ↔
      (2 ^ 97 - 1) * 10 ^ (a.scale + b.scale) ≤ 2 * (a.coefficient * b.coefficient).natAbs := by
    have hbound : (2 : ℚ) ^ 97 - 1 = ((2 ^ 97 - 1 : Nat) : ℚ) := by norm_num
    have hten : (0 : ℚ) < 10 ^ (a.scale + b.scale) := pow_pos (by norm_num) _
    rw [← mul_le_mul_iff_of_pos_right hten, hproduct, hbound]
    norm_cast
  rw [hlarge, mul?]
  have hpow : 0 < 10 ^ (a.scale + b.scale) := Nat.pow_pos (by norm_num)
  split
  · rename_i hzero
    have hnone : (a.coefficient * b.coefficient).natAbs = 0 := by
      rcases Bool.or_eq_true_iff.1 hzero with h | h <;> simp_all [isZero]
    rw [hnone]
    simp only [reduceCtorEq, false_iff, not_le]
    omega
  · split
    · rename_i hshort
      have hbound : (a.coefficient * b.coefficient).natAbs < 2 ^ 32 * 2 ^ 32 := by
        rw [Int.natAbs_mul]
        exact Nat.mul_lt_mul'' hshort.1 hshort.2.1
      simp only [reduceCtorEq, false_iff, not_le]
      omega
    · exact fit?_eq_none_iff

/-! ### Amounts on a grid -/

theorem roundSigned_mul (q : Int) {den : Nat} (hden : 0 < den) : roundSigned (q * den) den = q := by
  have hround : roundQuotient (q * den).natAbs den = q.natAbs := by
    rw [Int.natAbs_mul, Int.natAbs_natCast]
    exact roundQuotient_mul hden _
  have hsign : q * den < 0 ↔ q < 0 := by
    constructor
    · intro h
      exact neg_of_mul_neg_left h (by positivity)
    · intro h
      exact mul_neg_of_neg_of_pos h (by exact_mod_cast hden)
  rw [roundSigned, hround]
  split
  · rename_i hneg
    rw [hsign] at hneg
    omega
  · rename_i hneg
    rw [hsign] at hneg
    omega

/-- Dropping places that hold only zeros leaves the value. -/
theorem cut?_on_grid {m : Int} {s n k : Nat} (hk : k + n ≤ s) :
    cut? (m * 10 ^ (s - n)) s k = mk? (m * 10 ^ (s - k - n)) (s - k) := by
  have hsplit : m * 10 ^ (s - n) = m * 10 ^ (s - k - n) * (10 ^ k : Nat) := by
    push_cast
    rw [mul_assoc, ← pow_add]
    congr 2
    omega
  rw [cut?, if_pos (by omega), hsplit, roundSigned_mul _ (Nat.pow_pos (by decide))]

/-- What is a whole number of steps of `n` places fits exactly, if so many steps are a coefficient. -/
theorem fit?_on_grid {c m : Int} {s n : Nat} (hgrid : c * 10 ^ n = m * 10 ^ s) (hs : s ≤ 28)
    (hm : m.natAbs < 2 ^ 96) : ∃ d, fit? c s = some d ∧ d.value = c / 10 ^ s := by
  by_cases hplaces : s ≤ n
  · have hsteps : c * 10 ^ (n - s) = m := by
      refine mul_right_cancel₀ (pow_ne_zero s (by norm_num : (10 : Int) ≠ 0)) ?_
      rw [mul_assoc, ← pow_add, Nat.sub_add_cancel hplaces, hgrid]
    have hfits : c.natAbs < 2 ^ 96 := by
      rw [← hsteps, Int.natAbs_mul] at hm
      exact (Nat.le_mul_of_pos_right _ (by positivity)).trans_lt hm
    exact ⟨_, fit?_of_lt hfits hs, rfl⟩
  · have hc : c = m * 10 ^ (s - n) := by
      refine mul_right_cancel₀ (pow_ne_zero n (by norm_num : (10 : Int) ≠ 0)) ?_
      rw [hgrid, mul_assoc, ← pow_add, Nat.sub_add_cancel (by omega)]
    subst hc
    -- with all its zeros dropped it fits, so the places that are dropped hold only zeros
    have hlast : ∃ d, cut? (m * 10 ^ (s - n)) s (s - n) = some d := by
      rw [cut?_on_grid (by omega), show s - (s - n) - n = 0 by omega, pow_zero, mul_one, mk?,
        dif_pos ⟨hm, by omega⟩]
      exact ⟨_, rfl⟩
    obtain ⟨last, hlast⟩ := hlast
    have hsome : ∃ d, fit? (m * 10 ^ (s - n)) s = some d := by
      rw [← Option.isSome_iff_exists, fit?, List.findSome?_isSome_iff]
      exact ⟨s - n, by rw [List.mem_range]; omega, by rw [hlast]; rfl⟩
    obtain ⟨d, hd⟩ := hsome
    obtain ⟨k, hcut, hbefore⟩ := fit?_eq_some hd
    have hk : k ≤ s - n := by
      by_contra hlate
      rw [hbefore (s - n) (by omega)] at hlast
      cases hlast
    rw [cut?_on_grid (by omega), mk?_eq_some] at hcut
    refine ⟨d, hd, ?_⟩
    have hsplit : (m : ℚ) * 10 ^ (s - n) = m * 10 ^ (s - k - n) * 10 ^ k := by
      rw [mul_assoc, ← pow_add]
      congr 2
      omega
    have hscale : (10 : ℚ) ^ s = 10 ^ (s - k) * 10 ^ k := by
      rw [← pow_add, Nat.sub_add_cancel (by omega)]
    rw [value, hcut.1, hcut.2]
    push_cast
    rw [hsplit, hscale, mul_div_mul_right _ _ (by positivity)]

/-- A decimal that is a whole number of steps of `n` places. -/
theorem coefficient_of_grid {a : Decimal} {m : Int} {n : Nat} (h : a.value = m / 10 ^ n) :
    a.coefficient * 10 ^ n = m * 10 ^ a.scale := by
  rw [value, div_eq_div_iff (by positivity) (by positivity)] at h
  exact_mod_cast h

/-- The sum of two decimals that are whole numbers of steps of `n` places is exact, if it is not too many
steps. -/
theorem add?_on_grid {a b : Decimal} {l m : Int} {n : Nat} (ha : a.value = l / 10 ^ n)
    (hb : b.value = m / 10 ^ n) (hsum : (l + m).natAbs < 2 ^ 96) :
    ∃ c, a.add? b = some c ∧ c.value = a.value + b.value := by
  unfold add?
  split
  · rename_i hzero
    exact ⟨b, rfl, by rw [value_of_isZero hzero, zero_add]⟩
  · split
    · rename_i hzero
      exact ⟨a, rfl, by rw [value_of_isZero hzero, add_zero]⟩
    · have hgrid : (a.coefficient * 10 ^ (max a.scale b.scale - a.scale) +
          b.coefficient * 10 ^ (max a.scale b.scale - b.scale)) * 10 ^ n =
            (l + m) * 10 ^ max a.scale b.scale := by
        have hpow : ∀ s ≤ max a.scale b.scale,
            (10 : Int) ^ max a.scale b.scale = 10 ^ s * 10 ^ (max a.scale b.scale - s) := by
          intro s hs
          rw [← pow_add, Nat.add_sub_cancel' hs]
        calc _ = a.coefficient * 10 ^ n * 10 ^ (max a.scale b.scale - a.scale) +
              b.coefficient * 10 ^ n * 10 ^ (max a.scale b.scale - b.scale) := by ring
          _ = l * (10 ^ a.scale * 10 ^ (max a.scale b.scale - a.scale)) +
              m * (10 ^ b.scale * 10 ^ (max a.scale b.scale - b.scale)) := by
            rw [coefficient_of_grid ha, coefficient_of_grid hb]
            ring
          _ = (l + m) * 10 ^ max a.scale b.scale := by
            rw [← hpow _ (le_max_left _ _), ← hpow _ (le_max_right _ _), add_mul]
      obtain ⟨c, hc, hvalue⟩ := fit?_on_grid hgrid (max_le a.scale_le b.scale_le) hsum
      exact ⟨c, hc, hvalue.trans (sum_value a b)⟩

/-- A decimal with no more places than `n` is a whole number of steps of `n` places. -/
theorem value_eq_steps (d : Decimal) {n : Nat} (h : d.scale ≤ n) :
    d.value = ((d.coefficient * 10 ^ (n - d.scale) : Int) : ℚ) / 10 ^ n := by
  obtain ⟨k, rfl⟩ := Nat.exists_eq_add_of_le h
  rw [value, Nat.add_sub_cancel_left, pow_add]
  push_cast
  rw [mul_div_mul_right _ _ (by positivity)]

/-- Decimals with few places have an exact sum, if it is not too large. -/
theorem add?_of_small {a b : Decimal} {n : Nat} (ha : a.scale ≤ n) (hb : b.scale ≤ n)
    (hsmall : |a.value + b.value| * 10 ^ n < 2 ^ 96) : ∃ c, a.add? b = some c ∧ c.value = a.value + b.value := by
  refine add?_on_grid (value_eq_steps a ha) (value_eq_steps b hb) ?_
  have hsteps : a.value + b.value =
      ((a.coefficient * 10 ^ (n - a.scale) + b.coefficient * 10 ^ (n - b.scale) : Int) : ℚ) / 10 ^ n := by
    rw [value_eq_steps a ha, value_eq_steps b hb, ← add_div]
    push_cast
    rfl
  rw [hsteps, abs_div, abs_of_pos (by positivity : (0 : ℚ) < 10 ^ n), div_mul_cancel₀ _ (by positivity)] at hsmall
  rw [← Nat.cast_lt (α := Int), Int.natCast_natAbs]
  exact_mod_cast hsmall

end Decimal

end UsageLedger
