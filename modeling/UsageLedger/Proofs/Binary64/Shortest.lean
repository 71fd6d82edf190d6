import UsageLedger.Proofs.Binary64.Nearest
import UsageLedger.Proofs.Text.Digits

/-! The fewest digits that read back as a floating-point value. The search goes from coarse grids of decimals to
fine ones and stops at the first that meets the interval of the value, after seventeen digits at the latest.
So whatever digits read back, the fewest are no finer; and where the grid is wider than the places of the
value, as it is for fifteen digits, they are the same. -/

namespace UsageLedger.Binary64

/-! ### Powers and ratios -/

theorem ten_zpow_pos (p : Int) : (0 : ℚ) < 10 ^ p := zpow_pos (by norm_num) p

/-- A power as a ratio of natural ones, of which one is one. -/
theorem zpow_eq_ratio {b : ℚ} (hb : b ≠ 0) (e : Int) : b ^ e = b ^ e.toNat / b ^ (-e).toNat := by
  rw [← zpow_natCast, ← zpow_natCast, ← zpow_sub₀ hb]
  congr 1
  omega

/-- The exponent of the leading digit of a ratio. -/
theorem leadingPlace_spec {num den : Nat} (hnum : 0 < num) (hden : 0 < den) :
    (10 : ℚ) ^ leadingPlace num den ≤ num / den ∧ (num : ℚ) / den < 10 ^ (leadingPlace num den + 1) := by
  have hnum' : (0 : ℚ) < num := by exact_mod_cast hnum
  have hden' : (0 : ℚ) < den := by exact_mod_cast hden
  rw [le_div_iff₀ hden', div_lt_iff₀ hden']
  unfold leadingPlace
  split
  · rename_i hle
    have hlow := Text.pow_length_digits_le (Nat.div_pos hle hden)
    have hhigh := Text.lt_pow_length_digits (num / den)
    have hsome := Text.length_digits_pos (num / den)
    generalize (Text.digits (num / den)).length = k at *
    obtain ⟨k, rfl⟩ : ∃ l, k = l + 1 := ⟨k - 1, by omega⟩
    rw [Nat.le_div_iff_mul_le hden] at hlow
    rw [Nat.div_lt_iff_lt_mul hden] at hhigh
    push_cast
    rw [add_sub_cancel_right]
    constructor
    · exact_mod_cast hlow
    · exact_mod_cast hhigh
  · rename_i hlt
    have hlow := Text.pow_length_digits_le (Nat.div_pos (Nat.le_of_not_le hlt) hnum)
    have hhigh := Text.lt_pow_length_digits (den / num)
    have hsome := Text.length_digits_pos (den / num)
    dsimp only
    generalize (Text.digits (den / num)).length = k at *
    obtain ⟨k, rfl⟩ : ∃ l, k = l + 1 := ⟨k - 1, by omega⟩
    rw [Nat.le_div_iff_mul_le hnum] at hlow
    rw [Nat.div_lt_iff_lt_mul hnum] at hhigh
    have hlow' : (10 : ℚ) ^ k * num ≤ den := by exact_mod_cast hlow
    have hhigh' : (den : ℚ) < 10 ^ (k + 1) * num := by exact_mod_cast hhigh
    have hdown : ∀ l : Nat, (10 : ℚ) ^ (-(l : Int)) = (10 ^ l)⁻¹ := fun l => by rw [zpow_neg, zpow_natCast]
    rw [Nat.add_sub_cancel]
    split
    · rename_i hexact
      have hexact' : (den : ℚ) ≤ 10 ^ k * num := by exact_mod_cast hexact.trans_eq (Nat.mul_comm _ _)
      rw [show -(((k + 1 : Nat) : Int) - 1) = -(k : Int) by omega, zpow_add₀ (by norm_num), hdown,
        inv_mul_le_iff₀ (by positivity), mul_assoc, lt_inv_mul_iff₀ (by positivity)]
      exact ⟨hexact', by linarith⟩
    · rename_i hexact
      have hexact' : (10 : ℚ) ^ k * num < den := by
        exact_mod_cast (Nat.mul_comm _ _).trans_lt (Nat.not_le.1 hexact)
      rw [show -((k + 1 : Nat) : Int) + 1 = -(k : Int) by omega, hdown, hdown,
        inv_mul_le_iff₀ (by positivity), lt_inv_mul_iff₀ (by positivity)]
      exact ⟨hhigh'.le, hexact'⟩

/-! ### Values on a grid -/

/-- The number that a significand and an exponent stand for. -/
def magnitude (m : Nat) (e : Int) : ℚ := m * 2 ^ e

def Scientific.value (s : Scientific) : ℚ := s.digits * 10 ^ s.exponent

variable {m : Nat} {e p : Int}

theorem magnitude_eq_ratio (m : Nat) (e : Int) :
    magnitude m e = (m * 2 ^ e.toNat : Nat) / (2 ^ (-e).toNat : Nat) := by
  rw [magnitude, zpow_eq_ratio (by norm_num), ← mul_div_assoc]
  push_cast
  rfl

theorem within_ratio {closed : Bool} {low high n k : Nat} (hk : 0 < k) :
    (if closed then decide (low * k ≤ n) && decide (n ≤ high * k)
      else decide (low * k < n) && decide (n < high * k)) = true ↔ Within closed low high (n / k) := by
  have hk' : (0 : ℚ) < k := by exact_mod_cast hk
  cases closed with
  | true =>
      rw [Within, le_div_iff₀ hk', div_le_iff₀ hk', if_pos rfl, Bool.and_eq_true, decide_eq_true_iff,
        decide_eq_true_iff]
      norm_cast
  | false =>
      rw [Within, lt_div_iff₀ hk', div_lt_iff₀ hk', if_neg Bool.false_ne_true, Bool.and_eq_true,
        decide_eq_true_iff, decide_eq_true_iff]
      norm_cast

theorem contains_iff {i : Interval} {d : Nat} : i.contains e d p = true ↔
    Within i.closed i.low i.high (4 * (d * 10 ^ p / 2 ^ e)) := by
  unfold Interval.contains
  obtain ⟨n, k, hpair, hpos, hratio⟩ : ∃ n k : Nat,
      (if 0 ≤ p then (d * 10 ^ p.toNat, 1) else (d, 10 ^ (-p).toNat)) = (n, k) ∧ 0 < k ∧ (n : ℚ) / k = d * 10 ^ p := by
    rw [zpow_eq_ratio (by norm_num : (10 : ℚ) ≠ 0) p]
    split
    · rename_i h
      refine ⟨_, _, rfl, Nat.one_pos, ?_⟩
      rw [show (-p).toNat = 0 by omega]
      push_cast
      ring
    · rename_i h
      refine ⟨_, _, rfl, Nat.pow_pos (by decide), ?_⟩
      rw [show p.toNat = 0 by omega]
      push_cast
      ring
  rw [hpair]
  dsimp only
  rw [within_ratio (scaled_pos hpos _ _), scaled_ratio, ← hratio]
  push_cast
  rw [mul_div_assoc, mul_div_assoc]

/-- The lower neighbour is the last on the grid up to the value. -/
theorem neighbours_spec (m : Nat) (e p : Int) : ((neighbours m e p).1 : ℚ) * 10 ^ p ≤ magnitude m e ∧
    magnitude m e < ((neighbours m e p).1 + 1) * 10 ^ p := by
  have hfloor : ∃ n k : Nat, (neighbours m e p).1 = n / k ∧ 0 < k ∧ (n : ℚ) / k = magnitude m e / 10 ^ p := by
    have htwo : 0 < 2 ^ (-e).toNat := Nat.two_pow_pos _
    rw [magnitude_eq_ratio, zpow_eq_ratio (by norm_num : (10 : ℚ) ≠ 0) p]
    unfold neighbours
    by_cases h : 0 ≤ p
    · refine ⟨m * 2 ^ e.toNat, 2 ^ (-e).toNat * 10 ^ p.toNat, by simp [h], Nat.mul_pos htwo (Nat.pow_pos (by decide)), ?_⟩
      rw [show (-p).toNat = 0 by omega]
      push_cast
      rw [pow_zero, div_one, div_div]
    · refine ⟨m * 2 ^ e.toNat * 10 ^ (-p).toNat, 2 ^ (-e).toNat, by simp [h], htwo, ?_⟩
      rw [show p.toNat = 0 by omega]
      push_cast
      rw [pow_zero, one_div, div_inv_eq_mul, mul_div_right_comm]
  obtain ⟨n, k, hbelow, hk, hratio⟩ := hfloor
  have hk' : (0 : ℚ) < k := by exact_mod_cast hk
  rw [← le_div_iff₀ (ten_zpow_pos p), ← div_lt_iff₀ (ten_zpow_pos p), hbelow, ← hratio, le_div_iff₀ hk',
    div_lt_iff₀ hk']
  constructor
  · exact_mod_cast Nat.div_mul_le_self n k
  · exact_mod_cast Nat.lt_mul_of_div_lt (Nat.lt_succ_self (n / k)) hk

/-! ### Intervals -/

section Covers

variable {x y z : ℚ}

theorem Covers.between (hx : Covers m e x) (hz : Covers m e z) (hxy : x ≤ y) (hyz : y ≤ z) : Covers m e y := by
  have hpos := two_zpow_pos e
  exact Within.between hx hz (by gcongr) (by gcongr)

theorem Normal.zpow_le_magnitude (h : Normal m e) : 2 ^ 52 * 2 ^ e ≤ magnitude m e := by
  have hfull : (2 : ℚ) ^ 52 ≤ m := by exact_mod_cast h.full
  have := two_zpow_pos e
  unfold magnitude
  gcongr

theorem Normal.magnitude_le (h : Normal m e) : magnitude m e ≤ (2 ^ 53 - 1) * 2 ^ e := by
  have hfits : (m : ℚ) + 1 ≤ 2 ^ 53 := by exact_mod_cast h.fits
  have := two_zpow_pos e
  unfold magnitude
  gcongr
  linarith

theorem Normal.magnitude_le_of_le (h : Normal m e) {n : Nat} (he : e ≤ n) : magnitude m e ≤ (2 ^ 53 - 1) * 2 ^ n :=
  h.magnitude_le.trans (mul_le_mul_of_nonneg_left (two_zpow_le he) (by norm_num))

/-- An interval goes from its value half a place up. -/
theorem Normal.covers_above (h : Normal m e) (hle : magnitude m e ≤ x) (hnear : x - magnitude m e < 2 ^ e / 2) :
    Covers m e x := by
  have hpos := two_zpow_pos e
  have hfull : (2 : ℚ) ^ 52 ≤ m := by exact_mod_cast h.full
  have hlow : (m : ℚ) ≤ x / 2 ^ e := by rwa [le_div_iff₀ hpos]
  have hhigh : x / 2 ^ e < m + 1 / 2 := by
    rw [div_lt_iff₀ hpos]
    unfold magnitude at hnear
    linarith
  exact h.covers_iff.2 ⟨within_of_lt (by linarith) (by linarith), fun _ => by linarith⟩

/-- An interval goes from its value half a place down, if that is no power of two. -/
theorem Normal.covers_below (h : Normal m e) (hm : m ≠ 2 ^ 52) (hle : x ≤ magnitude m e)
    (hnear : magnitude m e - x < 2 ^ e / 2) : Covers m e x := by
  have hpos := two_zpow_pos e
  have hhigh : x / 2 ^ e ≤ m := by rwa [div_le_iff₀ hpos]
  have hlow : m - 1 / 2 < x / 2 ^ e := by
    rw [lt_div_iff₀ hpos]
    unfold magnitude at hnear
    linarith
  exact h.covers_iff.2 ⟨within_of_lt (by linarith) (by linarith), fun hpower => absurd hpower hm⟩

theorem Normal.covers_magnitude (h : Normal m e) : Covers m e (magnitude m e) :=
  h.covers_above le_rfl (by rw [sub_self]; exact half_pos (two_zpow_pos e))

/-- An interval holds nothing that is further from its value than half a place. -/
theorem Normal.abs_sub_le (h : Normal m e) (hx : Covers m e x) : |x - magnitude m e| ≤ 2 ^ e / 2 := by
  have hnearest := (h.covers_iff.1 hx).1
  have hpos := two_zpow_pos e
  have hlow := hnearest.low_le
  have hhigh := hnearest.le_high
  have hx' : x = x / 2 ^ e * 2 ^ e := (div_mul_cancel₀ _ hpos.ne').symm
  rw [abs_le, magnitude, hx']
  constructor
  · nlinarith
  · nlinarith

theorem Normal.pos_of_covers (h : Normal m e) (hx : Covers m e x) : 0 < x := by
  have hnear := (abs_le.1 (h.abs_sub_le hx)).1
  have hlarge := h.zpow_le_magnitude
  have := two_zpow_pos e
  linarith

/-- A number in the interval of a value is not far below the least significand. -/
theorem Normal.le_div_of_covers (h : Normal m e) (hx : Covers m e x) : 2 ^ 52 - 1 / 4 ≤ x / 2 ^ e := by
  obtain ⟨hnearest, hpower⟩ := h.covers_iff.1 hx
  by_cases hm : m = 2 ^ 52
  · exact hpower hm
  · have hlow := hnearest.low_le
    have hnext : (2 : ℚ) ^ 52 + 1 ≤ m := by exact_mod_cast lt_of_le_of_ne h.full (Ne.symm hm)
    linarith

end Covers

/-! ### The search -/

variable {d : Nat}

/-- What is found on a grid is one of the value's neighbours there, and reads back. -/
theorem onGrid?_sound (h : onGrid? m e p = some d) :
    0 < d ∧ d ≤ (neighbours m e p).1 + 1 ∧ Covers m e (d * 10 ^ p) := by
  unfold onGrid? at h
  dsimp only at h
  generalize (neighbours m e p).1 = b at *
  have hlow : (decide (0 < b) && (interval m e).contains e b p) = true →
      0 < b ∧ b ≤ b + 1 ∧ Covers m e (b * 10 ^ p) := by
    intro hfits
    rw [Bool.and_eq_true, decide_eq_true_iff] at hfits
    exact ⟨hfits.1, Nat.le_succ b, contains_iff.1 hfits.2⟩
  have hhigh : (interval m e).contains e (b + 1) p = true →
      0 < b + 1 ∧ b + 1 ≤ b + 1 ∧ Covers m e ((b + 1 : Nat) * 10 ^ p) :=
    fun hfits => ⟨Nat.succ_pos b, le_rfl, contains_iff.1 hfits⟩
  split at h
  · cases h
  · rename_i hfits _
    obtain rfl := Option.some.inj h
    exact hlow hfits
  · rename_i _ hfits
    obtain rfl := Option.some.inj h
    exact hhigh hfits
  · rename_i hfits hfits'
    split at h
    · obtain rfl := Option.some.inj h
      exact hlow hfits
    · obtain rfl := Option.some.inj h
      exact hhigh hfits'
    · obtain rfl := Option.some.inj h
      split
      · exact hlow hfits
      · exact hhigh hfits'

/-- Nothing on a grid reads back when neither neighbour does: one of them lies between the value and any
other number there. -/
theorem onGrid?_complete (h : Normal m e) (hnone : onGrid? m e p = none) (hd : 0 < d) :
    ¬Covers m e (d * 10 ^ p) := by
  intro hcovers
  have hspec := neighbours_spec m e p
  have hpos := ten_zpow_pos p
  unfold onGrid? at hnone
  dsimp only at hnone
  generalize (neighbours m e p).1 = b at *
  have hfits : (decide (0 < b) && (interval m e).contains e b p) = true ∨
      (interval m e).contains e (b + 1) p = true := by
    rcases Nat.lt_or_ge b d with hlt | hge
    · refine .inr (contains_iff.2 (h.covers_magnitude.between hcovers ?_ ?_))
      · push_cast
        exact hspec.2.le
      · have : ((b + 1 : Nat) : ℚ) ≤ d := by exact_mod_cast hlt
        gcongr
    · rw [Bool.and_eq_true, decide_eq_true_iff]
      refine .inl ⟨by omega, contains_iff.2 (hcovers.between h.covers_magnitude ?_ hspec.1)⟩
      gcongr
  split at hnone
  · simp_all
  · cases hnone
  · cases hnone
  · split at hnone <;> cases hnone

/-- Seventeen digits always read back: their grid is finer than the places of a value, so one of the two
neighbours is less than half a place away, and on the far side of a power of two the upper one is. -/
theorem onGrid?_seventeen (h : Normal m e) {t : Int} (ht : 10 ^ t ≤ magnitude m e) :
    onGrid? m e (t - 16) ≠ none := by
  intro hnone
  have hspec := neighbours_spec m e (t - 16)
  have hpos := two_zpow_pos e
  have hstep : (10 : ℚ) ^ (t - 16) ≤ magnitude m e / 10 ^ 16 := by
    rw [zpow_sub₀ (by norm_num), zpow_ofNat]
    gcongr
  have hlarge := h.zpow_le_magnitude
  have hfits := h.magnitude_le
  have hhigh := onGrid?_complete h hnone (Nat.succ_pos (neighbours m e (t - 16)).1)
  have hlow : 0 < (neighbours m e (t - 16)).1 → _ := onGrid?_complete h hnone
  generalize (neighbours m e (t - 16)).1 = b at *
  push_cast at hhigh
  by_cases hnear : (b + 1) * 10 ^ (t - 16) - magnitude m e < 2 ^ e / 2
  · exact hhigh (h.covers_above hspec.2.le hnear)
  · have hhalf : (2 : ℚ) ^ e / 2 ≤ 10 ^ (t - 16) := by linarith
    have hm : m ≠ 2 ^ 52 := by
      rintro rfl
      rw [magnitude] at hstep
      push_cast at hstep
      linarith
    have hb : 0 < b := by
      refine Nat.pos_of_ne_zero ?_
      rintro rfl
      push_cast at hspec
      linarith
    exact hlow hb (h.covers_below hm hspec.1 (by linarith))

theorem stripZeros_spec {s : Scientific} (h : 0 < s.digits) :
    (stripZeros s).value = s.value ∧ 0 < (stripZeros s).digits ∧ (stripZeros s).digits ≤ s.digits ∧
      ¬10 ∣ (stripZeros s).digits := by
  fun_induction stripZeros s with
  | case1 s hzero ih =>
      obtain ⟨hvalue, hpos, hle, hlast⟩ := ih (show 0 < s.digits / 10 by omega)
      refine ⟨hvalue.trans ?_, hpos, hle.trans (Nat.div_le_self _ _), hlast⟩
      have hten : (s.digits : ℚ) = 10 * (s.digits / 10 : Nat) := by
        exact_mod_cast (Nat.mul_div_cancel' (Nat.dvd_of_mod_eq_zero hzero.2)).symm
      rw [Scientific.value, Scientific.value, hten, zpow_add_one₀ (by norm_num)]
      ring
  | case2 s hdone => exact ⟨rfl, h, le_rfl, by omega⟩

/-- What the search finds, and where. -/
theorem shortest_found (h : Normal m e) : ∃ (t : Int) (k d : Nat), 10 ^ t ≤ magnitude m e ∧
    magnitude m e < 10 ^ (t + 1) ∧ k < 17 ∧ onGrid? m e (t - k) = some d ∧
      (∀ j < k, onGrid? m e (t - (j : Nat)) = none) ∧ shortest m e = stripZeros ⟨d, t - k⟩ := by
  have hm := Nat.pos_of_ne_zero h.ne_zero
  obtain ⟨hlow, hhigh⟩ := leadingPlace_spec (Nat.mul_pos hm (Nat.two_pow_pos e.toNat))
    (Nat.two_pow_pos (-e).toNat)
  rw [← magnitude_eq_ratio] at hlow hhigh
  have hlast := onGrid?_seventeen h hlow
  unfold shortest
  dsimp only
  generalize leadingPlace (m * 2 ^ e.toNat) (2 ^ (-e).toNat) = t at *
  have hsome : ((List.range 17).findSome? fun k : Nat =>
      (onGrid? m e (t - k)).map fun d => stripZeros ⟨d, t - k⟩).isSome := by
    rw [List.findSome?_isSome_iff]
    exact ⟨16, by simp, by simpa [Option.isSome_iff_ne_none] using hlast⟩
  obtain ⟨s, hs⟩ := Option.isSome_iff_exists.1 hsome
  obtain ⟨k, hk, hfound, hnone⟩ := exists_of_findSome?_range hs
  obtain ⟨d, hd, rfl⟩ := Option.map_eq_some_iff.1 hfound
  refine ⟨t, k, d, hlow, hhigh, hk, hd, fun j hj => Option.map_eq_none_iff.1 (hnone j hj), ?_⟩
  rw [hs, Option.getD_some]

/-! ### The fewest digits -/

/-- Two numbers on a grid that is wider than the places of a value are not both in its interval. -/
theorem Normal.covers_unique (h : Normal m e) {a b : Nat} {g : Int} (ha : Covers m e (a * 10 ^ g))
    (hb : Covers m e (b * 10 ^ g)) (hwide : (2 : ℚ) ^ e < 10 ^ g) : a = b := by
  have hle : ∀ {a b : Nat}, Covers m e (a * 10 ^ g) → Covers m e (b * 10 ^ g) → a ≤ b := by
    intro a b ha hb
    by_contra hlt
    have hnext : (b : ℚ) + 1 ≤ a := by exact_mod_cast Nat.not_le.1 hlt
    have hgap : ((b : ℚ) + 1) * 10 ^ g ≤ a * 10 ^ g := by
      have := ten_zpow_pos g
      gcongr
    have hnearA := (abs_le.1 (h.abs_sub_le ha)).2
    have hnearB := (abs_le.1 (h.abs_sub_le hb)).1
    linarith
  exact (hle ha hb).antisymm (hle hb ha)

theorem shortest_covers (h : Normal m e) : Covers m e (shortest m e).value := by
  obtain ⟨t, k, d, -, -, -, hfound, -, hshortest⟩ := shortest_found h
  obtain ⟨hd, -, hcovers⟩ := onGrid?_sound hfound
  rw [hshortest, (stripZeros_spec hd).1]
  exact hcovers

theorem shortest_digits_pos (h : Normal m e) : 0 < (shortest m e).digits := by
  obtain ⟨t, k, d, -, -, -, hfound, -, hshortest⟩ := shortest_found h
  rw [hshortest]
  exact (stripZeros_spec (onGrid?_sound hfound).1).2.1

theorem shortest_last_digit (h : Normal m e) : ¬10 ∣ (shortest m e).digits := by
  obtain ⟨t, k, d, -, -, -, hfound, -, hshortest⟩ := shortest_found h
  rw [hshortest]
  exact (stripZeros_spec (onGrid?_sound hfound).1).2.2.2

theorem shortest_digits_lt (h : Normal m e) : (shortest m e).digits < 10 ^ 17 := by
  obtain ⟨t, k, d, -, hhigh, hk, hfound, -, hshortest⟩ := shortest_found h
  obtain ⟨hd, hnext, -⟩ := onGrid?_sound hfound
  have hbelow : (neighbours m e (t - k)).1 < 10 ^ (k + 1) := by
    have hlt := (neighbours_spec m e (t - k)).1.trans_lt hhigh
    rw [show t + 1 = ((k + 1 : Nat) : Int) + (t - k) by omega, zpow_add₀ (by norm_num), zpow_natCast] at hlt
    exact_mod_cast lt_of_mul_lt_mul_right hlt (ten_zpow_pos _).le
  have hpow : 10 ^ (k + 1) ≤ 10 ^ 17 := Nat.pow_le_pow_right (by decide) (by omega)
  obtain ⟨-, -, hle, hlast⟩ := stripZeros_spec (s := ⟨d, t - k⟩) hd
  rw [← hshortest] at hle hlast
  refine lt_of_le_of_ne (hle.trans (by omega : d ≤ 10 ^ 17)) fun hfull => hlast ?_
  rw [hfull]
  exact Dvd.intro (10 ^ 16) (by norm_num)

theorem natCast_mul_zpow (d : Nat) {g p : Int} (h : g ≤ p) :
    (d : ℚ) * 10 ^ p = (d * 10 ^ (p - g).toNat : Nat) * 10 ^ g := by
  push_cast
  rw [← zpow_natCast, mul_assoc, ← zpow_add₀ (by norm_num)]
  congr 2
  omega

/-- The fewest digits lie on every grid that has digits which read back. -/
theorem shortest_on_grid (h : Normal m e) {c : Nat} {g : Int} (hc : 0 < c) (hcovers : Covers m e (c * 10 ^ g)) :
    ∃ b : Nat, (shortest m e).value = b * 10 ^ g := by
  obtain ⟨t, k, d, hlow, hhigh, hk, hfound, hnone, hshortest⟩ := shortest_found h
  obtain ⟨hd, -, hreads⟩ := onGrid?_sound hfound
  rw [hshortest, (stripZeros_spec hd).1, Scientific.value]
  by_cases hg : g ≤ t
  · have hcoarse : g ≤ t - k := by
      by_contra hfine
      refine onGrid?_complete h (hnone (t - g).toNat (by omega)) hc ?_
      rwa [show t - ((t - g).toNat : Int) = g by omega]
    exact ⟨_, natCast_mul_zpow d hcoarse⟩
  · -- such a grid is wider than the first one searched, which has one number that reads back at most
    have hpos : 0 < c * 10 ^ (g - t).toNat := Nat.mul_pos hc (Nat.pow_pos (by decide))
    rw [natCast_mul_zpow c (show t ≤ g by omega)] at hcovers
    obtain rfl : k = 0 := by
      by_contra hlate
      exact onGrid?_complete h (hnone 0 (Nat.pos_of_ne_zero hlate)) hpos (by simpa using hcovers)
    have hwide : (2 : ℚ) ^ e < 10 ^ t := by
      have := h.zpow_le_magnitude
      have := two_zpow_pos e
      rw [zpow_add_one₀ (by norm_num)] at hhigh
      linarith
    rw [Nat.cast_zero, sub_zero] at hreads ⊢
    rw [h.covers_unique hreads hcovers hwide]
    exact ⟨c, (natCast_mul_zpow c (show t ≤ g by omega)).symm⟩

/-- The fewest digits do not end in zeros, so they go no further than the number that they make. -/
theorem shortest_places (h : Normal m e) {c : Nat} {g : Int} (hvalue : (shortest m e).value = c * 10 ^ g) :
    g ≤ (shortest m e).exponent := by
  by_contra hfine
  apply shortest_last_digit h
  have hdigits : (shortest m e).digits = c * 10 ^ (g - (shortest m e).exponent).toNat := by
    rw [natCast_mul_zpow c (show (shortest m e).exponent ≤ g by omega), Scientific.value] at hvalue
    exact_mod_cast mul_right_cancel₀ (ten_zpow_pos _).ne' hvalue
  rw [hdigits]
  exact Dvd.dvd.mul_left (dvd_pow_self 10 (by omega)) c

/-- A few digits that read back are the fewest. -/
theorem shortest_value_eq (h : Normal m e) {c : Nat} {g : Int} (hc : 0 < c) (hfew : c < 10 ^ 15)
    (hcovers : Covers m e (c * 10 ^ g)) : (shortest m e).value = c * 10 ^ g := by
  obtain ⟨b, hb⟩ := shortest_on_grid h hc hcovers
  have hwide : (2 : ℚ) ^ e < 10 ^ g := by
    have hnear := (abs_le.1 (h.abs_sub_le hcovers)).1
    have hlarge := h.zpow_le_magnitude
    have hpos := two_zpow_pos e
    have hsmall : (c : ℚ) * 10 ^ g < 10 ^ 15 * 10 ^ g := by
      have hfew' : (c : ℚ) < 10 ^ 15 := by exact_mod_cast hfew
      have := ten_zpow_pos g
      gcongr
    linarith
  have hreads := shortest_covers h
  rw [hb] at hreads
  rw [hb, h.covers_unique hreads hcovers hwide]

/-! ### Reading back -/

theorem two_zpow_le_ten_zpow {a b : Nat} (h : 2 ^ a ≤ 10 ^ b) : (2 : ℚ) ^ (a : Int) ≤ 10 ^ (b : Int) := by
  rw [zpow_natCast, zpow_natCast]
  exact_mod_cast h

/-- A number in the interval of a value is neither so small nor so large that it is read without its digits. -/
theorem Covers.magnitude_bounds (h : Normal m e) {n : Nat} {k : Int} (hn : 0 < n)
    (hcovers : Covers m e (n * 10 ^ k)) :
    -330 ≤ k + (Text.digits n).length ∧ k + (Text.digits n).length ≤ 311 := by
  have hnear := abs_le.1 (h.abs_sub_le hcovers)
  have hlarge := h.zpow_le_magnitude
  have hfits := h.magnitude_le
  have hpos := two_zpow_pos e
  have hlow : 2 ^ e ≤ (n : ℚ) * 10 ^ k := by linarith
  have hhigh : (n : ℚ) * 10 ^ k < 2 ^ 53 * 2 ^ e := by linarith
  constructor
  · by_contra hsmall
    have hlt : (n : ℚ) < 10 ^ (Text.digits n).length := by exact_mod_cast Text.lt_pow_length_digits n
    apply lt_irrefl ((2 : ℚ) ^ e)
    calc (2 : ℚ) ^ e ≤ n * 10 ^ k := hlow
      _ < 10 ^ (Text.digits n).length * 10 ^ k := mul_lt_mul_of_pos_right hlt (ten_zpow_pos k)
      _ = 10 ^ (((Text.digits n).length : Int) + k) := by rw [zpow_add₀ (by norm_num), zpow_natCast]
      _ ≤ 10 ^ (-((330 : Nat) : Int)) := zpow_le_zpow_right₀ (by norm_num) (by omega)
      _ ≤ 2 ^ (-((1073 : Nat) : Int)) := by
        rw [zpow_neg, zpow_neg]
        exact inv_anti₀ (two_zpow_pos _) (two_zpow_le_ten_zpow (by decide +kernel))
      _ ≤ 2 ^ e := zpow_le_zpow_right₀ (by norm_num) (by have := h.above; omega)
  · by_contra hgreat
    have hge : (10 : ℚ) ^ ((Text.digits n).length - 1) ≤ n := by
      exact_mod_cast Text.pow_length_digits_le hn
    have hsome := Text.length_digits_pos n
    apply lt_irrefl ((n : ℚ) * 10 ^ k)
    calc (n : ℚ) * 10 ^ k < 2 ^ 53 * 2 ^ e := hhigh
      _ = 2 ^ (53 + e) := by rw [zpow_add₀ (by norm_num), zpow_ofNat]
      _ ≤ 2 ^ ((1024 : Nat) : Int) := zpow_le_zpow_right₀ (by norm_num) (by have := h.finite; omega)
      _ ≤ 10 ^ ((311 : Nat) : Int) := two_zpow_le_ten_zpow (by decide +kernel)
      _ ≤ 10 ^ ((((Text.digits n).length - 1 : Nat) : Int) + k) :=
        zpow_le_zpow_right₀ (by norm_num) (by omega)
      _ = 10 ^ ((Text.digits n).length - 1) * 10 ^ k := by rw [zpow_add₀ (by norm_num), zpow_natCast]
      _ ≤ n * 10 ^ k := mul_le_mul_of_nonneg_right hge (ten_zpow_pos k).le

/-- Digits in the interval of a value are read as the value. -/
theorem ofScientific_of_covers (h : Normal m e) {n : Nat} {k : Int} (hn : 0 < n)
    (hcovers : Covers m e (n * 10 ^ k)) (negative : Bool) : ofScientific negative n k = finite negative m e := by
  obtain ⟨hsmall, hgreat⟩ := Covers.magnitude_bounds h hn hcovers
  unfold ofScientific
  dsimp only
  rw [if_neg hn.ne', if_neg (by omega), if_neg (by omega)]
  rw [zpow_eq_ratio (by norm_num)] at hcovers
  split
  · refine ofRatio_of_covers h (Nat.mul_pos hn (Nat.pow_pos (by decide))) Nat.one_pos ?_ negative
    rw [show (-k).toNat = 0 by omega, pow_zero, div_one] at hcovers
    push_cast
    rwa [div_one]
  · refine ofRatio_of_covers h hn (Nat.pow_pos (by decide)) ?_ negative
    rw [show k.toNat = 0 by omega, pow_zero, mul_one_div] at hcovers
    exact_mod_cast hcovers

/-- The fewest digits of a value are read as the value. -/
theorem ofScientific_shortest (h : Normal m e) (negative : Bool) :
    ofScientific negative (shortest m e).digits (shortest m e).exponent = finite negative m e :=
  ofScientific_of_covers h (shortest_digits_pos h) (shortest_covers h) negative

end UsageLedger.Binary64
