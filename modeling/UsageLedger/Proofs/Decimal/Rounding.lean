import Mathlib.Algebra.Ring.Int.Parity
import UsageLedger.Proofs.Binary64.Nearest
import UsageLedger.Proofs.Decimal.Value

/-! Rounding, said of the values. A number is rounded to the nearest whole one, a half to the even neighbour;
there is one such whole number, greater numbers have no smaller one, and opposite numbers have opposite ones.
Rounding a decimal to places is that rule for the places. -/

namespace UsageLedger

/-- Whether a whole number is a number rounded once: it is nearest to it, and what lies halfway between two
goes to the even one. -/
def IsRounded (x : ℚ) (m : ℤ) : Prop := 2 * |x - m| ≤ 1 ∧ (2 * |x - m| = 1 → Even m)

namespace IsRounded

variable {x y : ℚ} {m n : ℤ}

theorem intCast (m : ℤ) : IsRounded m m := by
  rw [IsRounded, sub_self, abs_zero, mul_zero]
  exact ⟨zero_le_one, fun h => (zero_ne_one h).elim⟩

theorem neg (h : IsRounded x m) : IsRounded (-x) (-m) := by
  have hdist : |-x - ((-m : ℤ) : ℚ)| = |x - m| := by
    push_cast
    rw [← abs_neg]
    ring_nf
  rw [IsRounded, hdist]
  exact ⟨h.1, fun hhalf => (h.2 hhalf).neg⟩

/-- Greater numbers are not rounded to smaller ones: only a number halfway between two neighbours could be, and
one of the two is odd. -/
theorem mono (hx : IsRounded x m) (hy : IsRounded y n) (hle : x ≤ y) : m ≤ n := by
  by_contra hlt
  have hnext : (n : ℚ) + 1 ≤ m := by exact_mod_cast not_le.1 hlt
  have hlow := neg_abs_le (x - m)
  have hhigh := le_abs_self (y - n)
  have hx' := hx.1
  have hy' := hy.1
  have hm : Even m := hx.2 (by linarith)
  have hn : Even n := hy.2 (by linarith)
  have hneighbours : m = n + 1 := by
    have hclose : (m : ℚ) ≤ n + 1 := by linarith
    exact_mod_cast le_antisymm hclose hnext
  rw [hneighbours, Int.even_add_one] at hm
  exact hm hn

theorem unique (hm : IsRounded x m) (hn : IsRounded x n) : m = n :=
  le_antisymm (hm.mono hn le_rfl) (hn.mono hm le_rfl)

end IsRounded

theorem IsNearest.isRounded {q : Nat} {y : ℚ} (h : IsNearest q y) : IsRounded y q := by
  have hlow := Within.low_le h
  have hhigh := Within.le_high h
  refine ⟨?_, fun hhalf => ?_⟩
  · have hdist : |y - q| ≤ 1 / 2 := abs_le.2 ⟨by linarith, by linarith⟩
    push_cast
    linarith
  · by_contra hodd
    have hopen : decide (q % 2 = 0) = false := by
      rw [Int.even_coe_nat, Nat.even_iff] at hodd
      exact decide_eq_false hodd
    rw [IsNearest, hopen] at h
    have hdist : |y - q| < 1 / 2 := abs_lt.2 ⟨by linarith [h.1], by linarith [h.2]⟩
    push_cast at hhalf
    linarith

theorem isRounded_roundSigned (c : ℤ) {den : Nat} (hden : 0 < den) : IsRounded (c / den) (roundSigned c den) := by
  have hnear := (isNearest_roundQuotient hden c.natAbs).isRounded
  rw [roundSigned]
  split
  · rename_i hneg
    have hopposite : (c : ℚ) / den = -((c.natAbs : ℚ) / den) := by
      rw [Nat.cast_natAbs, abs_of_neg hneg]
      push_cast
      rw [neg_div, neg_neg]
    rw [hopposite]
    exact hnear.neg
  · rename_i hpos
    have hsame : (c : ℚ) / den = (c.natAbs : ℚ) / den := by
      rw [Nat.cast_natAbs, abs_of_nonneg (not_lt.1 hpos)]
    rw [hsame]
    exact hnear

theorem roundSigned_mono {c c' : ℤ} {den : Nat} (hden : 0 < den) (hle : c ≤ c') :
    roundSigned c den ≤ roundSigned c' den :=
  (isRounded_roundSigned c hden).mono (isRounded_roundSigned c' hden)
    (div_le_div_of_nonneg_right (Int.cast_le.2 hle) (Nat.cast_nonneg den))

theorem roundSigned_neg (c : ℤ) {den : Nat} (hden : 0 < den) : roundSigned (-c) den = -roundSigned c den := by
  refine (isRounded_roundSigned (-c) hden).unique ?_
  push_cast
  rw [neg_div]
  exact (isRounded_roundSigned c hden).neg

namespace Decimal

/-- Whether a decimal is a number rounded once to some places. -/
def IsRoundedTo (places : Nat) (x : ℚ) (d : Decimal) : Prop :=
  d.scale ≤ places ∧ IsRounded (x * 10 ^ places) (d.coefficient * 10 ^ (places - d.scale))

variable {places : Nat} {x y : ℚ} {a b : Decimal}

/-- A decimal is rounded by the rule, also where it has no more places than wanted and stays as it is. -/
theorem round_isRoundedTo (d : Decimal) (places : Nat) : IsRoundedTo places d.value (d.round places) := by
  refine ⟨d.round_scale_le places, ?_⟩
  by_cases hscale : d.scale ≤ places
  · rw [round_eq_self hscale, value_eq_steps d hscale, div_mul_cancel₀ _ (by positivity)]
    exact .intCast _
  · have hscaled : d.value * 10 ^ places = d.coefficient / (10 ^ (d.scale - places) : Nat) := by
      have hpow : (10 : ℚ) ^ d.scale = 10 ^ (d.scale - places) * 10 ^ places := by
        rw [← pow_add, Nat.sub_add_cancel (by omega)]
      rw [value, hpow, div_mul_eq_mul_div, mul_div_mul_right _ _ (by positivity)]
      push_cast
      rfl
    rw [hscaled, round, dif_neg hscale, Nat.sub_self, pow_zero, mul_one]
    exact isRounded_roundSigned _ (Nat.pow_pos (by decide))

theorem IsRoundedTo.mono (ha : IsRoundedTo places x a) (hb : IsRoundedTo places y b) (hle : x ≤ y) :
    a.value ≤ b.value := by
  have hsteps := ha.2.mono hb.2 (mul_le_mul_of_nonneg_right hle (by positivity))
  rw [value_eq_steps a ha.1, value_eq_steps b hb.1]
  exact div_le_div_of_nonneg_right (Int.cast_le.2 hsteps) (by positivity)

end Decimal

end UsageLedger
