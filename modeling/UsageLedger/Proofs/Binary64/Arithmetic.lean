import Mathlib.Tactic.Positivity
import UsageLedger.Binary64.Arithmetic
import UsageLedger.Proofs.Binary64.Shortest

/-! Computations that round in every step. How far the result is from the exact one is counted in roundings: each
step multiplies the quotient of the two by at most one factor more, so factors and divisors add their counts, and a
sum has the larger count of its terms. A count of nothing says that the result is exact. -/

namespace UsageLedger.Binary64

/-! ### Roundings apart -/

/-- The most that a rounding multiplies or divides a number by. -/
def rounding : ℚ := 2 ^ 53 / (2 ^ 53 - 1)

theorem one_le_rounding : 1 ≤ rounding := by norm_num [rounding]

theorem rounding_pow_pos (k : Nat) : 0 < rounding ^ k := pow_pos (one_pos.trans_le one_le_rounding) k

theorem rounding_pow_le {k n : Nat} (h : k ≤ n) : rounding ^ k ≤ rounding ^ n := pow_le_pow_right₀ one_le_rounding h

theorem rounding_pow_le_two {k : Nat} (h : k ≤ 64) : rounding ^ k ≤ 2 :=
  (rounding_pow_le h).trans (by norm_num [rounding])

/-- Whether two positive numbers are at most so many roundings apart. -/
structure Close (k : Nat) (x y : ℚ) : Prop where
  pos : 0 < x
  pos' : 0 < y
  le : x ≤ y * rounding ^ k
  ge : y ≤ x * rounding ^ k

namespace Close

variable {j k : Nat} {x y z x' y' : ℚ}

theorem refl (h : 0 < x) : Close 0 x x := ⟨h, h, by simp, by simp⟩

theorem symm (h : Close k x y) : Close k y x := ⟨h.pos', h.pos, h.ge, h.le⟩

theorem eq (h : Close 0 x y) : x = y := le_antisymm (by simpa using h.le) (by simpa using h.ge)

theorem mono (h : Close j x y) (hjk : j ≤ k) : Close k x y where
  pos := h.pos
  pos' := h.pos'
  le := h.le.trans (mul_le_mul_of_nonneg_left (rounding_pow_le hjk) h.pos'.le)
  ge := h.ge.trans (mul_le_mul_of_nonneg_left (rounding_pow_le hjk) h.pos.le)

theorem le_double (h : Close k x y) (hk : k ≤ 64) : x ≤ y * 2 :=
  h.le.trans (mul_le_mul_of_nonneg_left (rounding_pow_le_two hk) h.pos'.le)

theorem bound_trans (hx : x ≤ y * rounding ^ j) (hy : y ≤ z * rounding ^ k) : x ≤ z * rounding ^ (j + k) :=
  calc x ≤ y * rounding ^ j := hx
    _ ≤ z * rounding ^ k * rounding ^ j := mul_le_mul_of_nonneg_right hy (rounding_pow_pos j).le
    _ = z * rounding ^ (j + k) := by ring

theorem trans (hx : Close j x y) (hy : Close k y z) : Close (j + k) x z where
  pos := hx.pos
  pos' := hy.pos'
  le := bound_trans hx.le hy.le
  ge := (bound_trans hy.ge hx.ge).trans_eq (by rw [Nat.add_comm])

theorem bound_mul (hx : x ≤ y * rounding ^ j) (hx' : x' ≤ y' * rounding ^ k) (hpos : 0 ≤ x') (hy : 0 ≤ y) :
    x * x' ≤ y * y' * rounding ^ (j + k) :=
  calc x * x' ≤ y * rounding ^ j * (y' * rounding ^ k) :=
        mul_le_mul hx hx' hpos (mul_nonneg hy (rounding_pow_pos j).le)
    _ = y * y' * rounding ^ (j + k) := by ring

theorem mul (h : Close j x y) (h' : Close k x' y') : Close (j + k) (x * x') (y * y') where
  pos := mul_pos h.pos h'.pos
  pos' := mul_pos h.pos' h'.pos'
  le := bound_mul h.le h'.le h'.pos.le h.pos'.le
  ge := bound_mul h.ge h'.ge h'.pos'.le h.pos.le

theorem inv (h : Close k x y) : Close k x⁻¹ y⁻¹ where
  pos := inv_pos.2 h.pos
  pos' := inv_pos.2 h.pos'
  le := by
    rw [inv_le_iff_one_le_mul₀ h.pos, mul_right_comm, mul_comm y⁻¹, ← div_eq_mul_inv, div_mul_eq_mul_div,
      one_le_div h.pos']
    exact h.ge
  ge := by
    rw [inv_le_iff_one_le_mul₀ h.pos', mul_right_comm, mul_comm x⁻¹, ← div_eq_mul_inv, div_mul_eq_mul_div,
      one_le_div h.pos]
    exact h.le

theorem div (h : Close j x y) (h' : Close k x' y') : Close (j + k) (x / x') (y / y') := by
  rw [div_eq_mul_inv, div_eq_mul_inv]
  exact h.mul h'.inv

theorem add (h : Close k x y) (h' : Close k x' y') : Close k (x + x') (y + y') where
  pos := add_pos h.pos h'.pos
  pos' := add_pos h.pos' h'.pos'
  le := (add_le_add h.le h'.le).trans_eq (add_mul _ _ _).symm
  ge := (add_le_add h.ge h'.ge).trans_eq (add_mul _ _ _).symm

/-- What is so many roundings apart is off by a small part at most. -/
theorem abs_sub_le (h : Close k x y) {ε : ℚ} (hε : rounding ^ k ≤ 1 + ε) : |x - y| ≤ ε * y := by
  have hhigh : x ≤ y * (1 + ε) := h.le.trans (mul_le_mul_of_nonneg_left hε h.pos'.le)
  have hlow : y ≤ x * (1 + ε) := h.ge.trans (mul_le_mul_of_nonneg_left hε h.pos.le)
  have hnonneg : 0 ≤ ε := by
    have := one_le_pow₀ one_le_rounding (n := k)
    linarith
  rw [abs_le]
  refine ⟨?_, by linarith⟩
  rcases le_total y x with hle | hle
  · have := mul_nonneg hnonneg h.pos'.le
    linarith
  · have := mul_le_mul_of_nonneg_left hle hnonneg
    linarith

/-- What is off by a small part is a few roundings apart at most. -/
theorem of_abs_sub_le (hx : 0 < x) {ε : ℚ} (hsmall : ε < 1) (hε : 1 ≤ (1 - ε) * rounding ^ k) (h : |y - x| ≤ ε * x) :
    Close k x y := by
  obtain ⟨hlow, hhigh⟩ := abs_le.1 h
  have hpos : 0 < 1 - ε := by linarith
  have hup : 1 + ε ≤ rounding ^ k := by
    refine le_of_mul_le_mul_left ?_ hpos
    have := sq_nonneg ε
    linarith
  have hbelow : (1 - ε) * x ≤ y := by linarith
  refine ⟨hx, (mul_pos hpos hx).trans_le hbelow, ?_, ?_⟩
  · calc x ≤ (1 - ε) * rounding ^ k * x := le_mul_of_one_le_left hx.le hε
      _ = (1 - ε) * x * rounding ^ k := by ring
      _ ≤ y * rounding ^ k := mul_le_mul_of_nonneg_right hbelow (rounding_pow_pos k).le
  · calc y ≤ (1 + ε) * x := by linarith
      _ ≤ rounding ^ k * x := mul_le_mul_of_nonneg_right hup hx.le
      _ = x * rounding ^ k := mul_comm _ _

end Close

/-! ### Values near a number -/

/-- Whether a number is so far from zero and from infinity that nothing near it is out of range. -/
structure Moderate (y : ℚ) : Prop where
  low : 2 ^ (-200 : Int) ≤ y
  high : y ≤ 2 ^ (200 : Int)

theorem moderate_ratio {num den : Nat} (hnum : 0 < num) (hden : 0 < den) (hnum' : num ≤ 10 ^ 60)
    (hden' : den ≤ 10 ^ 60) : Moderate (num / den) := by
  have hpos : (0 : ℚ) < den := by exact_mod_cast hden
  have hone : (1 : ℚ) ≤ den := by exact_mod_cast hden
  have hsome : (1 : ℚ) ≤ num := by exact_mod_cast hnum
  have hsmall : (num : ℚ) ≤ 10 ^ 60 := by exact_mod_cast hnum'
  have hsmall' : (den : ℚ) ≤ 10 ^ 60 := by exact_mod_cast hden'
  constructor
  · rw [le_div_iff₀ hpos]
    calc (2 : ℚ) ^ (-200 : Int) * den ≤ 2 ^ (-200 : Int) * 10 ^ 60 :=
          mul_le_mul_of_nonneg_left hsmall' (two_zpow_pos _).le
      _ ≤ 1 := by norm_num
      _ ≤ num := hsome
  · rw [div_le_iff₀ hpos]
    calc (num : ℚ) ≤ 10 ^ 60 := hsmall
      _ ≤ 2 ^ (200 : Int) := by norm_num
      _ ≤ 2 ^ (200 : Int) * den := le_mul_of_one_le_right (two_zpow_pos _).le hone

theorem moderate_natCast {n : Nat} (hpos : 0 < n) (hle : n ≤ 10 ^ 60) : Moderate n := by
  have hratio := moderate_ratio hpos Nat.one_pos hle (Nat.pow_pos (by decide))
  rwa [Nat.cast_one, div_one] at hratio

/-- Whether a floating-point number is the one that a positive number is rounded to. -/
def RoundsTo (x : Binary64) (y : ℚ) : Prop := ∃ m e, Normal m e ∧ Covers m e y ∧ x = finite false m e

/-- Whether a floating-point number is at most so many roundings from a positive number. -/
def Near (k : Nat) (x : Binary64) (y : ℚ) : Prop :=
  ∃ m e, Normal m e ∧ Close k (magnitude m e) y ∧ x = finite false m e

variable {j k m n num den : Nat} {e : Int} {x y : Binary64} {a b p z : ℚ}

theorem Normal.magnitude_pos (h : Normal m e) : 0 < magnitude m e := h.pos_of_covers h.covers_magnitude

/-- One rounding is between a number and the value whose interval it lies in. -/
theorem Normal.close (h : Normal m e) (hz : Covers m e z) : Close 1 (magnitude m e) z := by
  have hlarge := h.zpow_le_magnitude
  refine .of_abs_sub_le h.magnitude_pos (show (1 : ℚ) / 2 ^ 53 < 1 by norm_num) (by norm_num [rounding]) ?_
  calc |z - magnitude m e| ≤ 2 ^ e / 2 := h.abs_sub_le hz
    _ = 1 / 2 ^ 53 * (2 ^ 52 * 2 ^ e) := by ring
    _ ≤ 1 / 2 ^ 53 * magnitude m e := mul_le_mul_of_nonneg_left hlarge (by norm_num)

/-- The value whose interval a number lies in is the only one. -/
theorem RoundsTo.unique (hx : RoundsTo x z) (h : Normal m e) (hz : Covers m e z) : x = finite false m e := by
  obtain ⟨m', e', h', hz', rfl⟩ := hx
  have hpos := h.pos_of_covers hz
  have hnum : 0 < z.num := Rat.num_pos.2 hpos
  obtain ⟨num, hnum'⟩ := Int.eq_ofNat_of_zero_le hnum.le
  have hratio : z = (num : ℚ) / (z.den : ℚ) := by
    conv_lhs => rw [← Rat.num_div_den z, hnum', Int.cast_natCast]
  rw [hratio] at hz hz'
  rw [← ofRatio_of_covers h' (by omega) z.den_pos hz' false, ofRatio_of_covers h (by omega) z.den_pos hz false]

theorem RoundsTo.near (h : RoundsTo x p) (hp : Close k p z) : Near (1 + k) x z := by
  obtain ⟨m, e, hm, hcovers, rfl⟩ := h
  exact ⟨m, e, hm, (hm.close hcovers).trans hp, rfl⟩

theorem Near.mono (h : Near j x z) (hjk : j ≤ k) : Near k x z := by
  obtain ⟨m, e, hm, hclose, rfl⟩ := h
  exact ⟨m, e, hm, hclose.mono hjk, rfl⟩

theorem Near.trans (h : Near j x a) (hab : Close k a b) : Near (j + k) x b := by
  obtain ⟨m, e, hm, hclose, rfl⟩ := h
  exact ⟨m, e, hm, hclose.trans hab, rfl⟩

theorem withSign_finite (negative : Bool) (m : Nat) (e : Int) :
    (finite false m e).withSign negative = finite negative m e := by
  cases negative with
  | false => rfl
  | true => rfl

/-- A ratio near a moderate number is read as the value that it is rounded to. -/
theorem roundsTo_ofRatio (hden : 0 < den) (hp : Close k (num / den) z) (hz : Moderate z) (hk : k ≤ 64) :
    RoundsTo (ofRatio false num den) (num / den) := by
  have hnum : 0 < num := by
    refine Nat.pos_of_ne_zero fun hzero => hp.pos.ne' ?_
    rw [hzero, Nat.cast_zero, zero_div]
  have hlow : (2 : ℚ) ^ (-1021 : Int) ≤ num / den := by
    have hhalf := hp.symm.le_double hk
    have hfar : (2 : ℚ) ^ (-1021 : Int) ≤ 2 ^ (-201 : Int) := zpow_le_zpow_right₀ (by norm_num) (by norm_num)
    have hstep : (2 : ℚ) ^ (-201 : Int) * 2 = 2 ^ (-200 : Int) := by norm_num
    linarith [hz.low]
  have hhigh : (num : ℚ) / den < 2 ^ (1023 : Int) :=
    calc (num : ℚ) / den ≤ z * 2 := hp.le_double hk
      _ ≤ 2 ^ (200 : Int) * 2 := mul_le_mul_of_nonneg_right hz.high (by norm_num)
      _ = 2 ^ (201 : Int) := by norm_num
      _ < 2 ^ (1023 : Int) := zpow_lt_zpow_right₀ (by norm_num) (by norm_num)
  obtain ⟨m, e, h, hcovers⟩ := exists_covers hden hlow hhigh
  exact ⟨m, e, h, hcovers, ofRatio_of_covers h hnum hden hcovers false⟩

theorem roundsTo_ofBinary (hp : Close k (n * 2 ^ e) z) (hz : Moderate z) (hk : k ≤ 64) :
    RoundsTo (ofBinary false n e) (n * 2 ^ e) := by
  have hratio : (n : ℚ) * 2 ^ e = (n * 2 ^ e.toNat : Nat) / (2 ^ (-e).toNat : Nat) := magnitude_eq_ratio n e
  rw [hratio] at hp ⊢
  exact roundsTo_ofRatio (Nat.two_pow_pos _) hp hz hk

/-! ### Operations -/

theorem Near.exists_mul (hx : Near j x a) (hy : Near k y b) (hab : Moderate (a * b)) (hjk : j + k ≤ 64) :
    ∃ p, Close (j + k) p (a * b) ∧ RoundsTo (x.mul y) p := by
  obtain ⟨m, e, hm, hclose, rfl⟩ := hx
  obtain ⟨n, i, hn, hclose', rfl⟩ := hy
  have hvalue : magnitude m e * magnitude n i = (m * n : Nat) * 2 ^ (e + i) := by
    rw [magnitude, magnitude, zpow_add₀ (by norm_num)]
    push_cast
    ring
  have hp := hclose.mul hclose'
  rw [hvalue] at hp
  exact ⟨_, hp, roundsTo_ofBinary hp hab hjk⟩

theorem Near.exists_div (hx : Near j x a) (hy : Near k y b) (hab : Moderate (a / b)) (hjk : j + k ≤ 64) :
    ∃ p, Close (j + k) p (a / b) ∧ RoundsTo (x.div y) p := by
  obtain ⟨m, e, hm, hclose, rfl⟩ := hx
  obtain ⟨n, i, hn, hclose', rfl⟩ := hy
  have hpos : 0 < n := Nat.pos_of_ne_zero hn.ne_zero
  have hvalue : magnitude m e / magnitude n i =
      (m * 2 ^ (e - i).toNat : Nat) / (n * 2 ^ (i - e).toNat : Nat) := by
    have hshift : (2 : ℚ) ^ (e - i) = 2 ^ (e - i).toNat / 2 ^ (i - e).toNat := by
      rw [zpow_eq_ratio (by norm_num), neg_sub]
    rw [magnitude, magnitude, mul_div_mul_comm, ← zpow_sub₀ (by norm_num), hshift]
    push_cast
    rw [div_mul_div_comm]
  have hp := hclose.div hclose'
  rw [hvalue] at hp
  refine ⟨_, hp, ?_⟩
  rw [div, if_pos hpos.ne']
  exact roundsTo_ofRatio (Nat.mul_pos hpos (Nat.two_pow_pos _)) hp hab hjk

theorem add_finite {i : Int} (hpos : 0 < m * 2 ^ (e - min e i).toNat + n * 2 ^ (i - min e i).toNat) :
    (finite false m e).add (finite false n i) =
      ofBinary false (m * 2 ^ (e - min e i).toNat + n * 2 ^ (i - min e i).toNat) (min e i) := by
  have hsum : ((m : Int) * 2 ^ (e - min e i).toNat) + n * 2 ^ (i - min e i).toNat =
      (m * 2 ^ (e - min e i).toNat + n * 2 ^ (i - min e i).toNat : Nat) := by push_cast; rfl
  rw [add]
  rw [if_neg Bool.false_ne_true, if_neg Bool.false_ne_true, hsum, if_neg (by omega), Int.natAbs_natCast,
    decide_eq_false (by omega)]

theorem two_pow_mul_zpow {i l : Int} (h : i ≤ l) : (2 : ℚ) ^ (l - i).toNat * 2 ^ i = 2 ^ l := by
  rw [← zpow_natCast, ← zpow_add₀ (by norm_num)]
  congr 1
  omega

/-- Zero is left out of a sum. -/
theorem zero_add_finite (h : Normal m e) {i : Int} (hi : i ≤ e) :
    (finite false 0 i).add (finite false m e) = finite false m e := by
  have hm := Nat.pos_of_ne_zero h.ne_zero
  have hpos : 0 < 0 * 2 ^ (i - min i e).toNat + m * 2 ^ (e - min i e).toNat := by
    rw [Nat.zero_mul, Nat.zero_add]
    exact Nat.mul_pos hm (Nat.two_pow_pos _)
  rw [add_finite hpos, min_eq_left hi, Nat.zero_mul, Nat.zero_add]
  refine ofRatio_of_covers h (Nat.mul_pos (Nat.mul_pos hm (Nat.two_pow_pos _)) (Nat.two_pow_pos _))
    (Nat.two_pow_pos _) ?_ false
  rw [← magnitude_eq_ratio, magnitude, Nat.cast_mul, Nat.cast_pow, Nat.cast_ofNat, mul_assoc, two_pow_mul_zpow hi]
  exact h.covers_magnitude

theorem Near.exists_add (hx : Near k x a) (hy : Near k y b) (hab : Moderate (a + b)) (hk : k ≤ 64) :
    ∃ p, Close k p (a + b) ∧ RoundsTo (x.add y) p := by
  obtain ⟨m, e, hm, hclose, rfl⟩ := hx
  obtain ⟨n, i, hn, hclose', rfl⟩ := hy
  have hpos : 0 < m * 2 ^ (e - min e i).toNat + n * 2 ^ (i - min e i).toNat :=
    Nat.add_pos_left (Nat.mul_pos (Nat.pos_of_ne_zero hm.ne_zero) (Nat.two_pow_pos _)) _
  have hvalue : magnitude m e + magnitude n i =
      (m * 2 ^ (e - min e i).toNat + n * 2 ^ (i - min e i).toNat : Nat) * 2 ^ min e i := by
    push_cast
    rw [add_mul, mul_assoc, mul_assoc, two_pow_mul_zpow (min_le_left e i), two_pow_mul_zpow (min_le_right e i),
      magnitude, magnitude]
  have hp := hclose.add hclose'
  rw [hvalue] at hp
  rw [add_finite hpos]
  exact ⟨_, hp, roundsTo_ofBinary hp hab hk⟩

theorem Near.mul (hx : Near j x a) (hy : Near k y b) (hab : Moderate (a * b)) (hjk : j + k ≤ 64) :
    Near (1 + (j + k)) (x.mul y) (a * b) := by
  obtain ⟨p, hp, hrounds⟩ := hx.exists_mul hy hab hjk
  exact hrounds.near hp

theorem Near.div (hx : Near j x a) (hy : Near k y b) (hab : Moderate (a / b)) (hjk : j + k ≤ 64) :
    Near (1 + (j + k)) (x.div y) (a / b) := by
  obtain ⟨p, hp, hrounds⟩ := hx.exists_div hy hab hjk
  exact hrounds.near hp

theorem Near.add (hx : Near k x a) (hy : Near k y b) (hab : Moderate (a + b)) (hk : k ≤ 64) :
    Near (1 + k) (x.add y) (a + b) := by
  obtain ⟨p, hp, hrounds⟩ := hx.exists_add hy hab hk
  exact hrounds.near hp

/-- A quotient of exact numbers is rounded once. -/
theorem Near.roundsTo_div (hx : Near 0 x a) (hy : Near 0 y b) (hab : Moderate (a / b)) :
    RoundsTo (x.div y) (a / b) := by
  obtain ⟨p, hp, hrounds⟩ := hx.exists_div hy hab (Nat.zero_le _)
  rwa [← hp.eq]

theorem Near.zero_add {i : Int} (hx : Near k x a) (hi : i ≤ -1074) : Near k ((finite false 0 i).add x) a := by
  obtain ⟨m, e, h, hclose, rfl⟩ := hx
  exact ⟨m, e, h, hclose, zero_add_finite h (hi.trans h.above.le)⟩

/-! ### Whole numbers -/

theorem roundsTo_ofNat (hn : Moderate n) : RoundsTo (ofNat n) n := by
  have hpos : (0 : ℚ) < n := (two_zpow_pos _).trans_le hn.low
  have hone : (n : ℚ) / (1 : Nat) = n := by rw [Nat.cast_one, div_one]
  have hclose : Close 0 ((n : ℚ) / (1 : Nat)) n := by
    rw [hone]
    exact .refl hpos
  have hread := roundsTo_ofRatio Nat.one_pos hclose hn (Nat.zero_le _)
  rwa [hone] at hread

theorem near_ofNat (hn : Moderate n) : Near 1 (ofNat n) n :=
  (roundsTo_ofNat hn).near (.refl ((two_zpow_pos _).trans_le hn.low))

/-- A significand that fits, at an exponent that is neither too small nor too large, is that of a value. -/
theorem exists_normal {c : Nat} (hc : 0 < c) (hfits : c < 2 ^ 53) {i : Int} (hlow : -900 ≤ i) (hhigh : i ≤ 900) :
    ∃ m e, Normal m e ∧ magnitude m e = c * 2 ^ i := by
  have hbits : Nat.log2 c < 53 := (Nat.log2_lt hc.ne').2 hfits
  have hbelow := Nat.log2_self_le hc.ne'
  have habove := Nat.lt_log2_self (n := c)
  have hfull : 2 ^ Nat.log2 c * 2 ^ (52 - Nat.log2 c) = 2 ^ 52 := by
    rw [← Nat.pow_add]
    congr 1
    omega
  refine ⟨c * 2 ^ (52 - Nat.log2 c), i - (52 - Nat.log2 c : Nat), ⟨?_, ?_, by omega, by omega⟩, ?_⟩
  · rw [← hfull]
    exact Nat.mul_le_mul_right _ hbelow
  · calc c * 2 ^ (52 - Nat.log2 c) < 2 ^ (Nat.log2 c + 1) * 2 ^ (52 - Nat.log2 c) :=
          Nat.mul_lt_mul_of_pos_right habove (Nat.two_pow_pos _)
      _ = 2 ^ 53 := by rw [Nat.pow_succ, Nat.mul_right_comm, hfull]
  · rw [magnitude]
    push_cast
    rw [mul_assoc, ← zpow_natCast, ← zpow_add₀ (by norm_num)]
    congr 2
    omega

/-- A natural number with a significand that fits is exact. -/
theorem near_ofNat_of_fits {c i : Nat} (hc : 0 < c) (hfits : c < 2 ^ 53) (hi : i ≤ 900) :
    Near 0 (ofNat (c * 2 ^ i)) (c * 2 ^ i : Nat) := by
  obtain ⟨m, e, h, hvalue⟩ := exists_normal hc hfits (i := i) (by omega) (by omega)
  have hexact : magnitude m e = (c * 2 ^ i : Nat) := by
    rw [hvalue, zpow_natCast]
    push_cast
    rfl
  refine ⟨m, e, h, hexact ▸ .refl h.magnitude_pos, ?_⟩
  refine ofRatio_of_covers h (Nat.mul_pos hc (Nat.two_pow_pos _)) Nat.one_pos ?_ false
  rw [Nat.cast_one, div_one, ← hexact]
  exact h.covers_magnitude

theorem near_ofNat_of_lt (hn : 0 < n) (hfits : n < 2 ^ 53) : Near 0 (ofNat n) n := by
  have hexact := near_ofNat_of_fits hn hfits (Nat.zero_le 900)
  rwa [Nat.pow_zero, Nat.mul_one] at hexact

theorem near_ten_pow (hk : k ≤ 60) : Near 1 (ofNat (10 ^ k)) (10 ^ k : Nat) :=
  near_ofNat (moderate_natCast (Nat.pow_pos (by decide)) (Nat.pow_le_pow_right (by decide) hk))

/-- Powers of ten are exact as long as those of five fit. -/
theorem near_ten_pow_exact (hk : k ≤ 22) : Near 0 (ofNat (10 ^ k)) (10 ^ k : Nat) := by
  have hfive : 5 ^ k < 2 ^ 53 := (Nat.pow_le_pow_right (by decide) hk).trans_lt (by norm_num)
  rw [show 10 = 5 * 2 from rfl, Nat.mul_pow]
  exact near_ofNat_of_fits (Nat.pow_pos (by decide)) hfive (by omega)

/-- The nearest whole number is at most a half away, and is exact. -/
theorem exists_roundAway (h : Normal m e) : ∃ r : Nat, |(r : ℚ) - magnitude m e| ≤ 1 / 2 ∧
    (0 < r → Near 0 (roundAway (finite false m e)) r) := by
  rw [roundAway]
  split
  · rename_i he
    have hvalue : magnitude m e = (m * 2 ^ e.toNat : Nat) := by
      rw [magnitude_eq_ratio, show (-e).toNat = 0 by omega]
      simp
    refine ⟨m * 2 ^ e.toNat, ?_, fun _ => ⟨m, e, h, hvalue ▸ .refl h.magnitude_pos, rfl⟩⟩
    rw [hvalue, sub_self, abs_zero]
    norm_num
  · rename_i he
    have hfits := h.fits
    have hvalue : magnitude m e = (m : ℚ) / (2 ^ (-e).toNat : Nat) := by
      rw [magnitude_eq_ratio, show e.toNat = 0 by omega, Nat.pow_zero, Nat.mul_one]
    obtain ⟨k, hk⟩ : ∃ k, (-e).toNat = k + 1 := ⟨(-e).toNat - 1, by omega⟩
    have hden : 2 ^ (-e).toNat = 2 * 2 ^ k := by rw [hk, Nat.pow_succ, Nat.mul_comm]
    have hpos := Nat.two_pow_pos k
    rw [hvalue, hden]
    generalize 2 ^ k = d at *
    have hlow := Nat.div_mul_le_self (2 * m + 2 * d) (2 * (2 * d))
    have hhigh := Nat.lt_mul_of_div_lt (Nat.lt_succ_self ((2 * m + 2 * d) / (2 * (2 * d)))) (show 0 < 2 * (2 * d) by omega)
    generalize (2 * m + 2 * d) / (2 * (2 * d)) = r at *
    have hbelow : r * (2 * d) ≤ m + d := by linarith
    have habove : m + d < (r + 1) * (2 * d) := by linarith
    have hd : (0 : ℚ) < (2 * d : Nat) := by exact_mod_cast Nat.mul_pos (by decide) hpos
    refine ⟨r, ?_, fun hr => ?_⟩
    · have hbelow' : (r : ℚ) * (2 * d : Nat) ≤ m + d := by exact_mod_cast hbelow
      have habove' : (m : ℚ) + d < (r + 1) * (2 * d : Nat) := by exact_mod_cast habove
      have hsplit : (r : ℚ) - m / (2 * d : Nat) = (r * (2 * d : Nat) - m) / (2 * d : Nat) := by
        rw [sub_div, mul_div_cancel_right₀ _ hd.ne']
      rw [hsplit, abs_div, abs_of_pos hd, div_le_iff₀ hd, abs_le]
      push_cast at hbelow' habove' ⊢
      constructor <;> linarith
    · have hshort : r < 2 ^ 53 := by
        have : r * 1 ≤ r * d := Nat.mul_le_mul_left r hpos
        have : r * (2 * d) = 2 * (r * d) := by ring
        have : d ≤ r * d := Nat.le_mul_of_pos_left d hr
        omega
      exact near_ofNat_of_lt hr hshort

/-- Rounding gives a whole number back, if it is near enough. -/
theorem Near.roundAway_exact {c : Nat} (h : Near k x c) {ε : ℚ} (hε : rounding ^ k ≤ 1 + ε) (hsmall : ε * c < 1 / 2) :
    Near 0 x.roundAway c := by
  obtain ⟨m, e, hm, hclose, rfl⟩ := h
  obtain ⟨r, hr, hexact⟩ := exists_roundAway hm
  have hsame : r = c := by
    have hgap := (abs_sub_le (r : ℚ) (magnitude m e) c).trans (add_le_add hr (hclose.abs_sub_le hε))
    have hone : |((r - c : Int) : ℚ)| < 1 := by
      push_cast
      linarith
    have : |(r - c : Int)| < 1 := by exact_mod_cast hone
    have := Int.abs_lt_one_iff.1 this
    omega
  rw [hsame] at hexact
  exact hexact (by exact_mod_cast hclose.pos')

/-- Rounding keeps a number near a whole one: it gives small ones back, and is little next to large ones. -/
theorem Near.roundAway {c : Nat} (h : Near 6 x c) : Near 16 x.roundAway c := by
  have hfew : rounding ^ 6 ≤ 1 + 7 / 2 ^ 53 := by norm_num [rounding]
  by_cases hsmall : c < 2 ^ 49
  · have hsmall' : (c : ℚ) < 2 ^ 49 := by exact_mod_cast hsmall
    exact (h.roundAway_exact hfew (by linarith)).mono (Nat.zero_le _)
  · have hlarge : (2 : ℚ) ^ 49 ≤ c := by exact_mod_cast Nat.le_of_not_lt hsmall
    obtain ⟨m, e, hm, hclose, rfl⟩ := h
    obtain ⟨r, hr, hexact⟩ := exists_roundAway hm
    have hgap : |(r : ℚ) - c| ≤ 15 / 2 ^ 53 * c := by
      refine (abs_sub_le (r : ℚ) (magnitude m e) c).trans ?_
      linarith [hclose.abs_sub_le hfew]
    have hr' : Close 16 (c : ℚ) r :=
      .of_abs_sub_le hclose.pos' (by norm_num) (by norm_num [rounding]) hgap
    have hpos : 0 < r := by exact_mod_cast hr'.pos'
    exact (hexact hpos).trans hr'.symm

end UsageLedger.Binary64
