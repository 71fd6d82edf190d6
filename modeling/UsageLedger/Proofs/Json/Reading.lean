import UsageLedger.Json.Token
import UsageLedger.Proofs.Decimal.Binary64

/-! Decimals that are written as floating-point numbers and read again. A text with a point or an exponent is read as
its digits, moved by a power of ten, and both are rounded before the result is. So what is read is some roundings away
from what was written, and is the same again if the digits and the power are exact. -/

namespace UsageLedger

namespace Json

open Binary64

variable {m n i : Nat} {e k : Int} {x : Binary64}

/-! ### Digits and powers of ten -/

theorem moveTens_eq (x : Binary64) (h : k.natAbs ≤ 308) : moveTens x k =
    if 0 ≤ k then x.mul (ofNat (10 ^ k.toNat)) else x.div (ofNat (10 ^ (-k).toNat)) := by
  unfold moveTens
  rw [if_pos h]

/-- A number that is moved by a power of ten is rounded once more. -/
theorem exists_moveTens (hx : Near i x n) (hpower : Near i (ofNat (10 ^ k.natAbs)) (10 ^ k.natAbs : Nat)) (hn : 0 < n)
    (hn' : n ≤ 10 ^ 17) (hlow : -60 ≤ k) (hhigh : k ≤ 40) (hi : i ≤ 1) :
    ∃ p, Close (i + i) p (n * 10 ^ k) ∧ RoundsTo (moveTens x k) p := by
  have hpow : 0 < 10 ^ k.natAbs := Nat.pow_pos (by decide)
  rw [moveTens_eq x (by omega)]
  split
  · rename_i hup
    have hk : (10 : ℚ) ^ k = (10 ^ k.natAbs : Nat) := by
      rw [Nat.cast_pow, Nat.cast_ofNat, ← zpow_natCast]
      congr 1
      omega
    have hbound : n * 10 ^ k.natAbs ≤ 10 ^ 60 :=
      calc n * 10 ^ k.natAbs ≤ 10 ^ 17 * 10 ^ 40 := Nat.mul_le_mul hn' (Nat.pow_le_pow_right (by decide) (by omega))
        _ ≤ 10 ^ 60 := by norm_num
    have hmoderate := moderate_natCast (Nat.mul_pos hn hpow) hbound
    rw [Nat.cast_mul] at hmoderate
    rw [hk, show k.toNat = k.natAbs by omega]
    exact hx.exists_mul hpower hmoderate (by omega)
  · rename_i hdown
    have hk : n * (10 : ℚ) ^ k = n / (10 ^ k.natAbs : Nat) := by
      rw [div_eq_mul_inv, Nat.cast_pow, Nat.cast_ofNat, ← zpow_natCast, ← zpow_neg]
      congr 2
      omega
    rw [hk, show (-k).toNat = k.natAbs by omega]
    exact hx.exists_div hpower
      (moderate_ratio hn hpow (hn'.trans (by norm_num)) (Nat.pow_le_pow_right (by decide) (by omega))) (by omega)

/-- The digits and the exponent in the text of a number. A whole number that is not too long has a zero behind the
point, which counts as a digit. -/
def spelled (s : Scientific) : Nat × Int :=
  if 0 ≤ s.exponent ∧ (pointed s).2 ≤ 16 then (s.digits * 10 ^ (s.exponent.toNat + 1), -1) else (s.digits, s.exponent)

theorem spelled_value (s : Scientific) : ((spelled s).1 : ℚ) * 10 ^ (spelled s).2 = s.value := by
  rw [spelled, Scientific.value]
  split
  · rename_i hwhole
    obtain ⟨x, hx⟩ := Int.eq_ofNat_of_zero_le hwhole.1
    rw [hx, Int.toNat_natCast, zpow_natCast]
    push_cast
    rw [pow_succ, zpow_neg_one]
    field_simp
  · rfl

theorem spelled_pos {s : Scientific} (h : 0 < s.digits) : 0 < (spelled s).1 := by
  rw [spelled]
  split
  · exact Nat.mul_pos h (Nat.pow_pos (by decide))
  · exact h

theorem spelled_le {s : Scientific} (h : s.digits < 10 ^ 17) : (spelled s).1 ≤ 10 ^ 17 := by
  rw [spelled]
  split
  · rename_i hwhole
    obtain ⟨hwhole, hplace⟩ := hwhole
    rw [pointed] at hplace
    dsimp only at hplace ⊢
    calc s.digits * 10 ^ (s.exponent.toNat + 1)
        ≤ 10 ^ (Text.digits s.digits).length * 10 ^ (s.exponent.toNat + 1) :=
          Nat.mul_le_mul_right _ (Text.lt_pow_length_digits s.digits).le
      _ = 10 ^ ((Text.digits s.digits).length + (s.exponent.toNat + 1)) := (Nat.pow_add ..).symm
      _ ≤ 10 ^ 17 := Nat.pow_le_pow_right (by decide) (by omega)
  · exact h.le

theorem spelled_exponent (s : Scientific) : (spelled s).2 = -1 ∨ (spelled s).2 = s.exponent := by
  rw [spelled]
  split
  · exact .inl rfl
  · exact .inr rfl

/-! ### Values that are written and read -/

/-- The value that the text of a positive value is read as. -/
def reading (m : Nat) (e : Int) : Binary64 :=
  moveTens (ofNat (spelled (shortest m e)).1) (spelled (shortest m e)).2

/-- A value that is written and read is at most three roundings from its digits. -/
theorem near_reading (h : Normal m e) (hlow : 10 ^ (-30 : Int) ≤ (shortest m e).value)
    (hhigh : (shortest m e).value ≤ 10 ^ (30 : Int)) : Near 3 (reading m e) (shortest m e).value := by
  have hpos := shortest_digits_pos h
  have hfew := shortest_digits_lt h
  have hleast : (shortest m e).exponent ≤ 30 := by
    by_contra hlarge
    have hsome : (1 : ℚ) ≤ (shortest m e).digits := by exact_mod_cast hpos
    have hstep : (10 : ℚ) ^ (30 : Int) < 10 ^ (shortest m e).exponent :=
      zpow_lt_zpow_right₀ (by norm_num) (by omega)
    rw [Scientific.value] at hhigh
    exact absurd (hstep.trans_le ((le_mul_of_one_le_left (ten_zpow_pos _).le hsome).trans hhigh)) (lt_irrefl _)
  have hmost : -47 ≤ (shortest m e).exponent := by
    by_contra hsmall
    have hfew' : ((shortest m e).digits : ℚ) ≤ 10 ^ (17 : Int) := by exact_mod_cast hfew.le
    have hstep : (10 : ℚ) ^ (17 + (shortest m e).exponent) < 10 ^ (-30 : Int) :=
      zpow_lt_zpow_right₀ (by norm_num) (by omega)
    rw [Scientific.value] at hlow
    rw [zpow_add₀ (by norm_num)] at hstep
    exact absurd (hlow.trans (mul_le_mul_of_nonneg_right hfew' (ten_zpow_pos _).le)) hstep.not_ge
  have hexponent := spelled_exponent (shortest m e)
  have hbound := spelled_le hfew
  have hsome := spelled_pos hpos
  have hpower := near_ten_pow (show (spelled (shortest m e)).2.natAbs ≤ 60 by omega)
  obtain ⟨p, hp, hrounds⟩ := exists_moveTens (near_ofNat (moderate_natCast hsome (hbound.trans (by norm_num)))) hpower
    hsome hbound (by omega) (by omega) le_rfl
  rw [spelled_value] at hp
  exact hrounds.near hp

/-- A value with few digits and places is rounded once when it is written and read. -/
theorem roundsTo_reading (h : Normal m e) {c g : Nat} (hfew : c < 10 ^ 15) (hg : g ≤ 22)
    (hvalue : (shortest m e).value = c * 10 ^ (-(g : Int))) : RoundsTo (reading m e) (shortest m e).value := by
  have hpos := shortest_digits_pos h
  have hplaces := shortest_places h hvalue
  have hdigits : (shortest m e).digits * 10 ^ ((shortest m e).exponent + g).toNat = c := by
    rw [Scientific.value, natCast_mul_zpow _ hplaces, sub_neg_eq_add] at hvalue
    exact_mod_cast mul_right_cancel₀ (ten_zpow_pos _).ne' hvalue
  have hle := Nat.le_mul_of_pos_right (shortest m e).digits
    (Nat.pow_pos (n := ((shortest m e).exponent + g).toNat) (show 0 < 10 by decide))
  have hleast : (shortest m e).exponent < 15 := by
    by_contra hlarge
    have hpow : 10 ^ 15 ≤ 10 ^ ((shortest m e).exponent + g).toNat := Nat.pow_le_pow_right (by decide) (by omega)
    have := Nat.le_mul_of_pos_left (10 ^ ((shortest m e).exponent + g).toNat) hpos
    omega
  have hexact : Near 0 (ofNat (spelled (shortest m e)).1) (spelled (shortest m e)).1 := by
    rw [spelled]
    split
    · -- a tenth of these digits is the number itself, so half of them fit
      rename_i hwhole
      have hsmall : (shortest m e).digits * 10 ^ (shortest m e).exponent.toNat ≤ c := by
        rw [← hdigits]
        exact Nat.mul_le_mul_left _ (Nat.pow_le_pow_right (by decide) (by omega))
      have hten : (shortest m e).digits * 10 ^ ((shortest m e).exponent.toNat + 1) =
          (shortest m e).digits * 10 ^ (shortest m e).exponent.toNat * 5 * 2 ^ 1 := by
        rw [Nat.pow_succ, ← Nat.mul_assoc]
        omega
      dsimp only
      rw [hten]
      exact near_ofNat_of_fits (Nat.mul_pos (Nat.mul_pos hpos (Nat.pow_pos (by decide))) (by decide))
        (by omega) (by omega)
    · exact near_ofNat_of_lt hpos (by dsimp only; omega)
  have hexponent := spelled_exponent (shortest m e)
  have hpower := near_ten_pow_exact (show (spelled (shortest m e)).2.natAbs ≤ 22 by omega)
  obtain ⟨p, hp, hrounds⟩ := exists_moveTens hexact hpower (spelled_pos hpos) (spelled_le (shortest_digits_lt h))
    (by omega) (by omega) (Nat.zero_le 1)
  rwa [← spelled_value, ← hp.eq]

end Json

end UsageLedger
