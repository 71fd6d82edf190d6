import Mathlib.Algebra.Order.Field.Power
import Mathlib.Tactic.NormNum
import UsageLedger.Binary64
import UsageLedger.Proofs.Decimal.Value

/-! A positive number is read as the floating-point value whose interval it lies in. The binade of a number
gives the exponent, and the significand is nearest to the number at that exponent; the only number that
leaves its binade lies just under a power of two, where the interval of the power begins. -/

namespace UsageLedger

/-! ### Intervals -/

/-- Whether a number lies between two ends, which count when the interval is closed. -/
def Within : (closed : Bool) → (low high y : ℚ) → Prop
  | true, low, high, y => low ≤ y ∧ y ≤ high
  | false, low, high, y => low < y ∧ y < high

section Within

variable {closed : Bool} {low high y z w : ℚ}

theorem Within.low_le (h : Within closed low high y) : low ≤ y := by
  cases closed with
  | true => exact h.1
  | false => exact h.1.le

theorem Within.le_high (h : Within closed low high y) : y ≤ high := by
  cases closed with
  | true => exact h.2
  | false => exact h.2.le

theorem within_of_lt (hlow : low < y) (hhigh : y < high) : Within closed low high y := by
  cases closed with
  | true => exact ⟨hlow.le, hhigh.le⟩
  | false => exact ⟨hlow, hhigh⟩

/-- An interval holds what lies between two of its numbers. -/
theorem Within.between (hy : Within closed low high y) (hz : Within closed low high z) (hyw : y ≤ w)
    (hwz : w ≤ z) : Within closed low high w := by
  cases closed with
  | true => exact ⟨hy.1.trans hyw, hwz.trans hz.2⟩
  | false => exact ⟨hy.1.trans_le hyw, hwz.trans_lt hz.2⟩

end Within

/-! ### Rounded quotients -/

/-- Whether a whole number is nearest to a number; what lies halfway between two goes to the even one. The
ends are given in quarters, as those of the interval of a value are. -/
def IsNearest (q : Nat) (y : ℚ) : Prop := Within (q % 2 = 0) (4 * q - 2) (4 * q + 2) (4 * y)

theorem isNearest_roundQuotient {den : Nat} (h : 0 < den) (num : Nat) :
    IsNearest (roundQuotient num den) (num / den) := by
  have hden : (0 : ℚ) < den := by exact_mod_cast h
  have hwhole : (num : ℚ) = den * (num / den : Nat) + (num % den : Nat) := by
    exact_mod_cast (Nat.div_add_mod num den).symm
  have hvalue : 4 * ((num : ℚ) / den) = 4 * (num / den : Nat) + 2 * (2 * (num % den : Nat) / den) := by
    rw [hwhole]
    field_simp
    ring
  have hbelow : (0 : ℚ) ≤ 2 * (num % den : Nat) / den := by positivity
  have habove : 2 * ((num % den : Nat) : ℚ) / den < 2 := by
    rw [div_lt_iff₀ hden]
    exact_mod_cast Nat.mul_lt_mul_of_pos_left (Nat.mod_lt num h) (by decide)
  unfold IsNearest
  rw [hvalue, roundQuotient]
  generalize (num / den : Nat) = q
  split
  · rename_i hless
    have hhalf : 2 * ((num % den : Nat) : ℚ) / den < 1 := by
      rw [div_lt_iff₀ hden, one_mul]
      exact_mod_cast hless
    exact within_of_lt (by linarith) (by linarith)
  · rename_i hless
    split
    · rename_i hmore
      have hhalf : 1 < 2 * ((num % den : Nat) : ℚ) / den := by
        rw [lt_div_iff₀ hden, one_mul]
        exact_mod_cast hmore
      push_cast
      exact within_of_lt (by linarith) (by linarith)
    · rename_i hmore
      have hhalf : 2 * ((num % den : Nat) : ℚ) / den = 1 := by
        rw [div_eq_iff hden.ne', one_mul]
        exact_mod_cast (show 2 * (num % den) = den by omega)
      rw [hhalf]
      split
      · rename_i heven
        rw [decide_eq_true heven]
        exact ⟨by linarith, by linarith⟩
      · rename_i hodd
        rw [decide_eq_true (show (q + 1) % 2 = 0 by omega)]
        push_cast
        exact ⟨by linarith, by linarith⟩

/-- Nearest whole numbers are unique. -/
theorem IsNearest.unique {p q : Nat} {y : ℚ} (hp : IsNearest p y) (hq : IsNearest q y) : p = q := by
  -- two of them would be neighbours, and the number halfway between them, so both would be even
  have hle : ∀ {a b : Nat}, IsNearest a y → IsNearest b y → b ≤ a := by
    intro a b ha hb
    by_contra hlt
    have hhigh := ha.le_high
    have hlow := hb.low_le
    have hnext : b = a + 1 := by
      have : 4 * b ≤ 4 * a + 4 := by exact_mod_cast (show (4 : ℚ) * b ≤ 4 * a + 4 by linarith)
      omega
    subst hnext
    push_cast at hlow
    unfold IsNearest at ha hb
    rcases Nat.mod_two_eq_zero_or_one a with heven | hodd
    · rw [decide_eq_false (show ¬(a + 1) % 2 = 0 by omega)] at hb
      have := hb.1
      push_cast at this
      linarith
    · rw [decide_eq_false (show ¬a % 2 = 0 by omega)] at ha
      have := ha.2
      linarith
  exact (hle hq hp).antisymm (hle hp hq)

/-! ### Binades -/

namespace Binary64

/-- The ratio moved by a power of two. -/
theorem scaled_ratio (num den : Nat) (e : Int) :
    ((scaled num den e).1 : ℚ) / (scaled num den e).2 = num / den / 2 ^ e := by
  unfold scaled
  split
  · rename_i h
    obtain ⟨k, rfl⟩ := Int.eq_ofNat_of_zero_le h
    push_cast
    rw [Int.toNat_natCast, zpow_natCast, div_div]
  · rename_i h
    obtain ⟨k, hk⟩ := Int.eq_ofNat_of_zero_le (show 0 ≤ -e by omega)
    obtain rfl : e = -k := by omega
    push_cast
    rw [neg_neg, Int.toNat_natCast, zpow_neg, zpow_natCast, div_inv_eq_mul, mul_div_right_comm]

theorem scaled_pos {den : Nat} (h : 0 < den) (num : Nat) (e : Int) : 0 < (scaled num den e).2 := by
  unfold scaled
  split
  · exact Nat.mul_pos h (Nat.two_pow_pos _)
  · exact h

/-- Whether a number has a significand of 53 bits at an exponent. -/
def InBinade (x : ℚ) (e : Int) : Prop := 2 ^ 52 ≤ x / 2 ^ e ∧ x / 2 ^ e < 2 ^ 53

theorem two_zpow_pos (e : Int) : (0 : ℚ) < 2 ^ e := zpow_pos (by norm_num) e

theorem two_zpow_le {e : Int} {n : Nat} (h : e ≤ n) : (2 : ℚ) ^ e ≤ 2 ^ n :=
  (zpow_le_zpow_right₀ (by norm_num) h).trans_eq (zpow_natCast 2 n)

theorem le_two_zpow {e : Int} {n : Nat} (h : n ≤ e) : (2 : ℚ) ^ n ≤ 2 ^ e :=
  (zpow_natCast 2 n).symm.trans_le (zpow_le_zpow_right₀ (by norm_num) h)

theorem inBinade_iff {x : ℚ} {e : Int} : InBinade x e ↔ 2 ^ (52 + e) ≤ x ∧ x < 2 ^ (53 + e) := by
  rw [InBinade, le_div_iff₀ (two_zpow_pos e), div_lt_iff₀ (two_zpow_pos e), zpow_add₀ (by norm_num),
    zpow_add₀ (by norm_num)]
  rfl

theorem InBinade.lt_of_le {x : ℚ} {e k : Int} (h : InBinade x e) (hk : 2 ^ k ≤ x) : k < 53 + e :=
  (zpow_lt_zpow_iff_right₀ (by norm_num)).1 (hk.trans_lt (inBinade_iff.1 h).2)

theorem InBinade.lt_of_lt {x : ℚ} {e k : Int} (h : InBinade x e) (hk : x < 2 ^ k) : 52 + e < k :=
  (zpow_lt_zpow_iff_right₀ (by norm_num)).1 ((inBinade_iff.1 h).1.trans_lt hk)

theorem InBinade.unique {x : ℚ} {e e' : Int} (h : InBinade x e) (h' : InBinade x e') : e = e' := by
  have hle := h.lt_of_le (inBinade_iff.1 h').1
  have hge := h'.lt_of_le (inBinade_iff.1 h).1
  omega

theorem div_zpow_pred (x : ℚ) (e : Int) : x / 2 ^ (e - 1) = 2 * (x / 2 ^ e) := by
  rw [zpow_sub_one₀ (by norm_num), div_mul_eq_div_div, div_inv_eq_mul, mul_comm]

theorem InBinade.pred {x : ℚ} {e : Int} (hlow : 2 ^ 51 ≤ x / 2 ^ e) (hhigh : x / 2 ^ e < 2 ^ 52) :
    InBinade x (e - 1) := by
  rw [InBinade, div_zpow_pred]
  constructor <;> linarith

/-- The lengths of a ratio's parts in bits give its binade, up to one place. -/
theorem ratio_near_binade {num den : Nat} (hnum : 0 < num) (hden : 0 < den) :
    (2 : ℚ) ^ 51 < num / den / 2 ^ ((Nat.log2 num : Int) - Nat.log2 den - 52) ∧
      num / den / 2 ^ ((Nat.log2 num : Int) - Nat.log2 den - 52) < (2 : ℚ) ^ 53 := by
  have hden' : (0 : ℚ) < den := by exact_mod_cast hden
  have hnumLow : (2 : ℚ) ^ (Nat.log2 num : Int) ≤ num := by
    rw [zpow_natCast]
    exact_mod_cast Nat.log2_self_le hnum.ne'
  have hnumHigh : (num : ℚ) < 2 ^ ((Nat.log2 num : Int) + 1) := by
    exact_mod_cast Nat.lt_log2_self (n := num)
  have hdenLow : (2 : ℚ) ^ (Nat.log2 den : Int) ≤ den := by
    rw [zpow_natCast]
    exact_mod_cast Nat.log2_self_le hden.ne'
  have hdenHigh : (den : ℚ) < 2 ^ ((Nat.log2 den : Int) + 1) := by
    exact_mod_cast Nat.lt_log2_self (n := den)
  generalize (Nat.log2 num : Int) = a at *
  generalize (Nat.log2 den : Int) = b at *
  constructor
  · rw [lt_div_iff₀ (two_zpow_pos _), lt_div_iff₀ hden']
    calc (2 : ℚ) ^ 51 * 2 ^ (a - b - 52) * den < 2 ^ 51 * 2 ^ (a - b - 52) * 2 ^ (b + 1) := by gcongr
      _ = 2 ^ a := by
        rw [← zpow_natCast, ← zpow_add₀ (by norm_num), ← zpow_add₀ (by norm_num)]
        congr 1
        push_cast
        ring
      _ ≤ num := hnumLow
  · rw [div_lt_iff₀ (two_zpow_pos _), div_lt_iff₀ hden']
    calc (num : ℚ) < 2 ^ (a + 1) := hnumHigh
      _ = 2 ^ 53 * 2 ^ (a - b - 52) * 2 ^ b := by
        rw [← zpow_natCast, ← zpow_add₀ (by norm_num), ← zpow_add₀ (by norm_num)]
        congr 1
        push_cast
        ring
      _ ≤ 2 ^ 53 * 2 ^ (a - b - 52) * den := by gcongr

/-- The binade of a ratio, and the exponent that it is read at. -/
theorem exists_inBinade {num den : Nat} (hnum : 0 < num) (hden : 0 < den) :
    ∃ e, InBinade (num / den) e ∧ exponentOf num den = max e (-1074) := by
  obtain ⟨hlow, hhigh⟩ := ratio_near_binade hnum hden
  have hscaled := scaled_ratio num den ((Nat.log2 num : Int) - Nat.log2 den - 52)
  have hpos := scaled_pos hden num ((Nat.log2 num : Int) - Nat.log2 den - 52)
  unfold exponentOf
  generalize (Nat.log2 num : Int) - Nat.log2 den - 52 = g at *
  rw [← hscaled] at hlow hhigh
  have hpos' : (0 : ℚ) < (scaled num den g).2 := by exact_mod_cast hpos
  by_cases hshort : (scaled num den g).1 / (scaled num den g).2 < 2 ^ 52
  · have hbelow : ((scaled num den g).1 : ℚ) / (scaled num den g).2 < 2 ^ 52 := by
      rw [div_lt_iff₀ hpos']
      exact_mod_cast (Nat.div_lt_iff_lt_mul hpos).1 hshort
    refine ⟨g - 1, InBinade.pred (hscaled ▸ hlow.le) (hscaled ▸ hbelow), ?_⟩
    simp only [hshort, if_true]
  · have habove : (2 : ℚ) ^ 52 ≤ ((scaled num den g).1 : ℚ) / (scaled num den g).2 := by
      rw [le_div_iff₀ hpos']
      exact_mod_cast (Nat.le_div_iff_mul_le hpos).1 (Nat.not_lt.1 hshort)
    refine ⟨g, ⟨hscaled ▸ habove, hscaled ▸ hhigh⟩, ?_⟩
    simp only [hshort, if_false]

theorem exponentOf_of_inBinade {num den : Nat} {e : Int} (hnum : 0 < num) (hden : 0 < den)
    (h : InBinade (num / den) e) (he : -1074 ≤ e) : exponentOf num den = e := by
  obtain ⟨e', h', hexponent⟩ := exists_inBinade hnum hden
  rw [hexponent, h'.unique h, max_eq_left he]

/-! ### Reading -/

/-- Whether a significand has all its 53 bits and its exponent is neither the least nor too large. -/
structure Normal (m : Nat) (e : Int) : Prop where
  full : 2 ^ 52 ≤ m
  fits : m < 2 ^ 53
  above : -1074 < e
  finite : e ≤ 971

theorem Normal.ne_zero {m : Nat} {e : Int} (h : Normal m e) : m ≠ 0 := (lt_of_lt_of_le (by norm_num) h.full).ne'

/-- Whether a number lies in the interval of a value. -/
def Covers (m : Nat) (e : Int) (x : ℚ) : Prop :=
  Within (interval m e).closed (interval m e).low (interval m e).high (4 * (x / 2 ^ e))

section Covers

variable {m : Nat} {e : Int} {x : ℚ}

/-- The interval of a value holds the numbers that its significand is nearest to; that of a power of two ends
earlier below, where the values are twice as close. -/
theorem Normal.covers_iff (h : Normal m e) :
    Covers m e x ↔ IsNearest m (x / 2 ^ e) ∧ (m = 2 ^ 52 → 2 ^ 52 - 1 / 4 ≤ x / 2 ^ e) := by
  have hfull := h.full
  have hhigh : ((interval m e).high : ℚ) = 4 * m + 2 := by
    unfold interval
    push_cast
    rfl
  have hclosed : (interval m e).closed = decide (m % 2 = 0) := rfl
  unfold Covers IsNearest
  rw [hhigh, hclosed]
  by_cases hpower : m = 2 ^ 52
  · have hlow : ((interval m e).low : ℚ) = 4 * m - 1 := by
      unfold interval
      rw [hpower]
      simp only [h.above, and_self, if_true]
      norm_num
    rw [hlow, hpower, decide_eq_true (by norm_num)]
    push_cast
    constructor
    · rintro ⟨hlow, hhigh⟩
      exact ⟨⟨by linarith, hhigh⟩, fun _ => by linarith⟩
    · rintro ⟨⟨-, hhigh⟩, hlow⟩
      have := hlow trivial
      exact ⟨by linarith, hhigh⟩
  · have hlow : ((interval m e).low : ℚ) = 4 * m - 2 := by
      unfold interval
      simp only [hpower, false_and, if_false]
      rw [Nat.cast_sub (by omega)]
      push_cast
      rfl
    rw [hlow, and_iff_left fun hpower' => absurd hpower' hpower]

end Covers

theorem ofRatio_eq {num den : Nat} {e : Int} (hnum : 0 < num) (hden : 0 < den) (he : exponentOf num den = e)
    {q : Nat} (hq : IsNearest q (num / den / 2 ^ e)) (negative : Bool) : ofRatio negative num den =
      if q = 2 ^ 53 then if 971 < e + 1 then infinite negative else finite negative (2 ^ 52) (e + 1)
      else if 971 < e then infinite negative else finite negative q e := by
  have hround : roundQuotient (scaled num den e).1 (scaled num den e).2 = q := by
    refine (isNearest_roundQuotient (scaled_pos hden num e) _).unique ?_
    rwa [scaled_ratio]
  rw [ofRatio, if_neg hnum.ne']
  simp only [he, hround]
  split <;> rfl

/-- A ratio is read as the value whose interval it lies in. -/
theorem ofRatio_of_covers {m num den : Nat} {e : Int} (hnormal : Normal m e) (hnum : 0 < num) (hden : 0 < den)
    (h : Covers m e (num / den)) (negative : Bool) : ofRatio negative num den = finite negative m e := by
  obtain ⟨hnearest, hpower⟩ := hnormal.covers_iff.1 h
  obtain ⟨hfull, hfits, habove, hfinite⟩ := hnormal
  have hhigh := hnearest.le_high
  have hlow := hnearest.low_le
  by_cases hinside : 2 ^ 52 ≤ (num : ℚ) / den / 2 ^ e
  · have hlast : (m : ℚ) + 1 ≤ 2 ^ 53 := by exact_mod_cast hfits
    have hexponent := exponentOf_of_inBinade hnum hden ⟨hinside, by linarith⟩ habove.le
    rw [ofRatio_eq hnum hden hexponent hnearest, if_neg hfits.ne, if_neg (by omega)]
  · -- just under the power of two, in the binade below it, where the number is rounded up
    rw [not_le] at hinside
    obtain rfl : m = 2 ^ 52 := by
      have : 4 * m < 4 * 2 ^ 52 + 4 := by exact_mod_cast (show (4 : ℚ) * m < 4 * 2 ^ 52 + 4 by linarith)
      omega
    have hedge := hpower rfl
    have hexponent : exponentOf num den = e - 1 :=
      exponentOf_of_inBinade hnum hden (InBinade.pred (by linarith) hinside) (by omega)
    have hup : IsNearest (2 ^ 53) (num / den / 2 ^ (e - 1)) := by
      rw [div_zpow_pred, IsNearest, decide_eq_true (by norm_num)]
      push_cast
      exact ⟨by linarith, by linarith⟩
    rw [ofRatio_eq hnum hden hexponent hup, if_pos rfl, Int.sub_add_cancel, if_neg (by omega)]

/-- Every number that is neither too small nor too large lies in the interval of a value. -/
theorem exists_covers {num den : Nat} (hden : 0 < den) (hlow : (2 : ℚ) ^ (-1021 : Int) ≤ num / den)
    (hhigh : (num : ℚ) / den < 2 ^ (1023 : Int)) : ∃ m e, Normal m e ∧ Covers m e (num / den) := by
  have hnum : 0 < num := by
    by_contra hzero
    rw [Nat.eq_zero_of_not_pos hzero, Nat.cast_zero, zero_div] at hlow
    exact absurd hlow (not_le.2 (two_zpow_pos _))
  obtain ⟨e, hbinade, -⟩ := exists_inBinade hnum hden
  have habove := hbinade.lt_of_le hlow
  have hfinite := hbinade.lt_of_lt hhigh
  have hnearest := isNearest_roundQuotient (scaled_pos hden num e) (scaled num den e).1
  rw [scaled_ratio] at hnearest
  generalize roundQuotient _ _ = m at hnearest
  obtain ⟨hfull, hshort⟩ := hbinade
  have hm := hnearest.le_high
  have hm' := hnearest.low_le
  by_cases hcarry : m = 2 ^ 53
  · have hnormal : Normal (2 ^ 52) (e + 1) := ⟨le_refl _, by norm_num, by omega, by omega⟩
    have hhalf := div_zpow_pred (num / den) (e + 1)
    rw [Int.add_sub_cancel] at hhalf
    rw [hcarry] at hm'
    push_cast at hm'
    refine ⟨2 ^ 52, e + 1, hnormal, hnormal.covers_iff.2 ⟨?_, fun _ => by linarith⟩⟩
    rw [IsNearest, decide_eq_true (by norm_num)]
    push_cast
    exact ⟨by linarith, by linarith⟩
  · have hfull' : 2 ^ 52 ≤ m := by
      have : 4 * 2 ^ 52 < 4 * m + 4 := by exact_mod_cast (show (4 : ℚ) * 2 ^ 52 < 4 * m + 4 by linarith)
      omega
    have hfits : m < 2 ^ 53 := by
      have : 4 * m < 4 * 2 ^ 53 + 4 := by exact_mod_cast (show (4 : ℚ) * m < 4 * 2 ^ 53 + 4 by linarith)
      omega
    have hnormal : Normal m e := ⟨hfull', hfits, by omega, by omega⟩
    exact ⟨m, e, hnormal, hnormal.covers_iff.2 ⟨hnearest, fun _ => by linarith⟩⟩

end Binary64

end UsageLedger
