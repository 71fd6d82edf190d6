import UsageLedger.Proofs.Json.Reading

/-! What is left of a decimal that is written as a floating-point number and read again. The number is some roundings
away from the decimal, and the number that is read some more; the decimal that this one shows is the same again if
there are few digits and places. -/

namespace UsageLedger

namespace Json

open Binary64

/-- The floating-point number that the text of one is read as. -/
def reread : Binary64 → Binary64
  | finite negative m e => if m = 0 then finite negative m e else (reading m e).withSign negative
  | x => x

theorem reread_finite {m : Nat} {e : Int} (h : Normal m e) (negative : Bool) :
    reread (finite negative m e) = (reading m e).withSign negative := if_neg h.ne_zero

end Json

namespace Decimal

open Binary64 Json

variable {m : Nat} {e : Int} {d v : Decimal}

/-- The decimal that is shown by what is read from the text of a decimal as a floating-point number. -/
def shown? (d : Decimal) : Option Decimal := ofBinary64? (reread d.toBinary64)

/-! ### Signs and bounds -/

theorem value_neg_iff : d.value < 0 ↔ d.coefficient < 0 := by
  have hpow : (0 : ℚ) < 10 ^ d.scale := by positivity
  rw [value, div_neg_iff, or_iff_right fun h => absurd h.2 (not_lt.2 hpow.le), and_iff_left hpow]
  norm_cast

theorem value_eq_abs (d : Decimal) : d.value = if d.coefficient < 0 then -|d.value| else |d.value| := by
  split
  · rename_i h
    rw [abs_of_neg (value_neg_iff.2 h), neg_neg]
  · rename_i h
    rw [abs_of_nonneg (not_lt.1 (mt value_neg_iff.1 h))]

theorem coefficient_ne_zero (h : 0 < |d.value|) : d.coefficient ≠ 0 := by
  intro hzero
  rw [abs_value_eq, hzero, Int.natAbs_zero, Nat.cast_zero, zero_div] at h
  exact lt_irrefl _ h

theorem le_abs_value (h : d.coefficient ≠ 0) : (10 : ℚ) ^ (-28 : Int) ≤ |d.value| := by
  have hsome : (1 : ℚ) ≤ d.coefficient.natAbs := by exact_mod_cast Int.natAbs_pos.2 h
  have hscale := d.scale_le
  rw [abs_value_eq_grid]
  calc (10 : ℚ) ^ (-28 : Int) ≤ 10 ^ (-(d.scale : Int)) := zpow_le_zpow_right₀ (by norm_num) (by omega)
    _ ≤ d.coefficient.natAbs * 10 ^ (-(d.scale : Int)) := le_mul_of_one_le_left (ten_zpow_pos _).le hsome

theorem abs_value_lt (d : Decimal) : |d.value| < 2 ^ 96 := by
  refine d.abs_value_le.trans_lt ?_
  exact_mod_cast d.coefficient_lt

theorem scale_eq_zero_of_large (h : 2 ^ 95 ≤ |d.value|) : d.scale = 0 := by
  by_contra hscale
  have hten : (10 : ℚ) ≤ (10 ^ d.scale : Nat) := by
    exact_mod_cast Nat.le_self_pow hscale 10
  have hfits : (d.coefficient.natAbs : ℚ) < 2 ^ 96 := by exact_mod_cast d.coefficient_lt
  rw [abs_value_eq, le_div_iff₀ (by linarith)] at h
  linarith

theorem toBinary64_of_zero (h : d.coefficient = 0) : d.toBinary64 = finite false 0 (-1074) := by
  have hfloat : ∀ scale, floatOf 0 scale = finite false 0 (-1074) := fun scale => by
    rw [floatOf, Nat.zero_div, Nat.zero_mod, if_pos rfl]
    rfl
  rw [toBinary64, h, Int.natAbs_zero, hfloat]
  rfl

theorem shown?_of_zero (h : d.coefficient = 0) : d.shown? = some zero := by
  rw [shown?, toBinary64_of_zero h]
  decide +kernel

/-- A large decimal is whole, so it is rounded once when it is written. -/
theorem exists_covers_of_large (h : 2 ^ 95 ≤ |d.value|) : ∃ m e, Normal m e ∧ Covers m e |d.value| ∧
    d.toBinary64 = finite (d.coefficient < 0) m e := by
  have hscale := scale_eq_zero_of_large h
  have hpos : 0 < |d.value| := by linarith
  have hwhole : d.coefficient.natAbs % 10 ^ d.scale = 0 := by rw [hscale, Nat.pow_zero, Nat.mod_one]
  have hrounds := roundsTo_floatOf_whole (Int.natAbs_pos.2 (coefficient_ne_zero hpos))
    (d.coefficient_lt.le.trans (by norm_num)) hwhole
  rw [← abs_value_eq] at hrounds
  obtain ⟨m, e, hm, hcovers, hfloat⟩ := hrounds
  exact ⟨m, e, hm, hcovers, by rw [toBinary64, hfloat, withSign_finite]⟩

/-! ### What is written and what is read -/

/-- What is read from the text of a decimal is near the digits in the text. -/
theorem near_reading_written (h : d.coefficient ≠ 0) (hm : Normal m e) (hclose : Close 18 (magnitude m e) |d.value|) :
    Near 3 (reading m e) (shortest m e).value := by
  have hdigits : Close 19 (shortest m e).value |d.value| := (hm.close (shortest_covers hm)).symm.trans hclose
  have hlow := hdigits.symm.le_double (by decide)
  have hhigh := hdigits.le_double (by decide)
  have hleast := le_abs_value h
  have hmost := d.abs_value_lt
  refine near_reading hm ?_ ?_
  · norm_num at hleast ⊢
    linarith
  · norm_num at hmost ⊢
    linarith

/-- Writing and reading is at most twenty-two roundings. -/
theorem exists_reread (h : d.coefficient ≠ 0) : ∃ m e, Normal m e ∧ Close 22 (magnitude m e) |d.value| ∧
    reread d.toBinary64 = finite (d.coefficient < 0) m e := by
  obtain ⟨m, e, hm, hclose, hwritten⟩ := exists_toBinary64 h
  obtain ⟨m', e', hm', hclose', hread⟩ := near_reading_written h hm hclose
  refine ⟨m', e', hm', hclose'.trans ((hm.close (shortest_covers hm)).symm.trans hclose), ?_⟩
  rw [hwritten, reread_finite hm, hread, withSign_finite]

/-- The exponent of a value below `2 ^ 96`. -/
theorem exponent_le_of_lt (h : Normal m e) (hlt : magnitude m e < 2 ^ 96) : e ≤ 43 := by
  by_contra hlarge
  have hstep := le_two_zpow (n := 44) (show ((44 : Nat) : Int) ≤ e by omega)
  have hlow := h.zpow_le_magnitude
  linarith

theorem shortest_lt (h : Normal m e) (hlt : magnitude m e < 2 ^ 96) : (shortest m e).value < 2 ^ 96 := by
  have hexponent := exponent_le_of_lt h hlt
  have hstep := two_zpow_le (n := 43) hexponent
  have hnear := (abs_le.1 (h.abs_sub_le (shortest_covers h))).2
  have hfits := h.magnitude_le_of_le (n := 43) hexponent
  linarith

/-- The last values before `2 ^ 96` are not read as more than that. -/
theorem reading_last : ∀ k < 5, ∃ j < 8, reading (2 ^ 53 - 1 - k) 43 = finite false (2 ^ 53 - 1 - j) 43 := by
  decide +kernel

/-- All other values are further below than reading moves them. -/
theorem magnitude_le_of_not_last (h : Normal m e) (hexponent : e ≤ 43) (hnot : e = 43 → m + 6 ≤ 2 ^ 53) :
    magnitude m e ≤ (2 ^ 53 - 6) * 2 ^ 43 := by
  by_cases he : e = 43
  · have hm : (m : ℚ) + 6 ≤ 2 ^ 53 := by exact_mod_cast hnot he
    exact mul_le_mul (by linarith) (two_zpow_le hexponent) (two_zpow_pos e).le (by norm_num)
  · have hfits := h.magnitude_le_of_le (n := 42) (show e ≤ ((42 : Nat) : Int) by omega)
    linarith

/-- What is read from the text of a value below `2 ^ 96` is below it, too. -/
theorem reading_lt {m' : Nat} {e' : Int} {negative : Bool} (hm : Normal m e) (hlow : 2 ^ 94 ≤ magnitude m e)
    (hlt : magnitude m e < 2 ^ 96) (hm' : Normal m' e')
    (hread : (reading m e).withSign negative = finite negative m' e') : magnitude m' e' < 2 ^ 96 := by
  have hexponent := exponent_le_of_lt hm hlt
  by_cases hlast : e = 43 ∧ 2 ^ 53 - 6 < m
  · obtain ⟨rfl, hlast⟩ := hlast
    have hfits := hm.fits
    obtain ⟨j, -, hj⟩ := reading_last (2 ^ 53 - 1 - m) (by omega)
    rw [show 2 ^ 53 - 1 - (2 ^ 53 - 1 - m) = m by omega] at hj
    rw [hj, withSign_finite] at hread
    obtain ⟨-, rfl, rfl⟩ := finite.inj hread
    exact hm'.magnitude_le.trans_lt (by norm_num)
  · have hbelow := magnitude_le_of_not_last hm hexponent fun he => by omega
    have hdigits := hm.close (shortest_covers hm)
    have hshort := shortest_lt hm hlt
    have hdouble := hdigits.le_double (by decide)
    obtain ⟨n, k, hn, hclose, hread'⟩ := near_reading hm (by norm_num at hlow ⊢; linarith)
      (by norm_num at hshort ⊢; linarith)
    rw [hread', withSign_finite] at hread
    obtain ⟨-, rfl, rfl⟩ := finite.inj hread
    calc magnitude n k ≤ magnitude m e * rounding ^ 4 := (hclose.trans hdigits.symm).le
      _ ≤ (2 ^ 53 - 6) * 2 ^ 43 * rounding ^ 4 := mul_le_mul_of_nonneg_right hbelow (rounding_pow_pos 4).le
      _ < 2 ^ 96 := by norm_num [rounding]

/-- Below the last number that is nearest to less than `2 ^ 96`, so is what is read. -/
theorem reread_lt (hlt : |d.value| < 2 ^ 96 - 2 ^ 42) (hm : Normal m e) (hclose : Close 22 (magnitude m e) |d.value|)
    (hread : reread d.toBinary64 = finite (d.coefficient < 0) m e) : magnitude m e < 2 ^ 96 := by
  by_cases hlarge : 2 ^ 95 ≤ |d.value|
  · obtain ⟨n, k, hn, hcovers, hwritten⟩ := exists_covers_of_large hlarge
    have hk : k ≤ 43 := by
      by_contra hmany
      have hstep := le_two_zpow (n := 44) (show ((44 : Nat) : Int) ≤ k by omega)
      have hlow := (le_div_iff₀ (two_zpow_pos k)).1 (hn.le_div_of_covers hcovers)
      linarith
    have hstep := two_zpow_le (n := 43) hk
    have hnear := abs_le.1 (hn.abs_sub_le hcovers)
    have hfits := hn.magnitude_le_of_le (n := 43) hk
    rw [hwritten, reread_finite hn] at hread
    exact reading_lt hn (by linarith) (by linarith) hm hread
  · have hdouble := hclose.le_double (by decide)
    linarith

/-! ### What is shown -/

/-- Whether a decimal is shown by a value that another one is written and read as. -/
structure ShownBy (d v : Decimal) (m : Nat) (e : Int) : Prop where
  normal : Normal m e
  close : Close 22 (magnitude m e) |d.value|
  shows : Shows (shortest m e) v
  sign : v.value = if d.coefficient < 0 then -|v.value| else |v.value|

/-- A decimal shows a decimal, as long as it is not too large. -/
theorem exists_shown (h : d.coefficient ≠ 0) (hlt : |d.value| < 2 ^ 96 - 2 ^ 42) :
    ∃ v m e, d.shown? = some v ∧ d.ShownBy v m e := by
  obtain ⟨m, e, hm, hclose, hread⟩ := exists_reread h
  obtain ⟨v, hv, hshows, hsign⟩ := ofBinary64?_finite hm (d.coefficient < 0)
    (shortest_lt hm (reread_lt hlt hm hclose hread))
  exact ⟨v, m, e, by rw [shown?, hread, hv], hm, hclose, hshows, by simpa using hsign⟩

/-- The largest decimals are written as `2 ^ 96`. -/
theorem toBinary64_of_large (hlarge : 2 ^ 96 - 2 ^ 42 ≤ |d.value|) :
    d.toBinary64 = finite (d.coefficient < 0) (2 ^ 52) 44 := by
  have hnormal : Normal (2 ^ 52) 44 := ⟨le_rfl, by norm_num, by norm_num, by norm_num⟩
  have hlt := d.abs_value_lt
  obtain ⟨m, e, hm, hcovers, hwritten⟩ := exists_covers_of_large (d := d) (by linarith)
  have hcovers' : Covers (2 ^ 52) 44 |d.value| := by
    have hlow : 2 ^ 52 - 1 / 4 ≤ |d.value| / 2 ^ (44 : Int) := by
      rw [le_div_iff₀ (two_zpow_pos _)]
      norm_num at hlarge ⊢
      exact hlarge
    have hhigh : |d.value| / 2 ^ (44 : Int) < 2 ^ 52 := by
      rw [div_lt_iff₀ (two_zpow_pos _)]
      norm_num at hlt ⊢
      exact hlt
    rw [hnormal.covers_iff, IsNearest, decide_eq_true (by norm_num)]
    push_cast
    exact ⟨⟨by linarith, by linarith⟩, fun _ => hlow⟩
  obtain ⟨-, rfl, rfl⟩ := finite.inj (RoundsTo.unique ⟨m, e, hm, hcovers, rfl⟩ hnormal hcovers')
  exact hwritten

/-- The decimals that show one: the digits of `2 ^ 96` are too many for a coefficient. -/
theorem exists_shown_iff (d : Decimal) : (∃ v, d.shown? = some v) ↔ |d.value| < 2 ^ 96 - 2 ^ 42 := by
  constructor
  · rintro ⟨v, hv⟩
    by_contra hlarge
    have hnone : ∀ negative, ofBinary64? (reread (finite negative (2 ^ 52) 44)) = none := by decide +kernel
    rw [shown?, toBinary64_of_large (not_lt.1 hlarge), hnone] at hv
    cases hv
  · intro hlt
    by_cases hzero : d.coefficient = 0
    · exact ⟨zero, shown?_of_zero hzero⟩
    · obtain ⟨v, m, e, hv, -⟩ := exists_shown hzero hlt
      exact ⟨v, hv⟩

/-- What a decimal other than zero shows. -/
theorem exists_shownBy (hv : d.shown? = some v) (h : d.coefficient ≠ 0) : ∃ m e, d.ShownBy v m e := by
  obtain ⟨v', m, e, hv', hshown⟩ := exists_shown h ((exists_shown_iff d).1 ⟨v, hv⟩)
  obtain rfl : v = v' := Option.some.inj (hv.symm.trans hv')
  exact ⟨m, e, hshown⟩

/-- Numbers on the grid of all decimals are the same, or at least a step apart. -/
theorem eq_or_le_abs_sub (v d : Decimal) : |v.value| = |d.value| ∨ 10 ^ (-28 : Int) ≤ abs (|v.value| - |d.value|) := by
  have hgrid : ∀ a : Decimal, ∃ n : Nat, |a.value| = n * 10 ^ (-28 : Int) := fun a =>
    ⟨_, (abs_value_eq_grid a).trans (natCast_mul_zpow _ (by have := a.scale_le; omega))⟩
  obtain ⟨n, hn⟩ := hgrid v
  obtain ⟨k, hk⟩ := hgrid d
  rw [hn, hk]
  by_cases hsame : n = k
  · exact .inl (by rw [hsame])
  · refine .inr ?_
    have hone : (1 : ℚ) ≤ |(n : ℚ) - k| := by
      exact_mod_cast Int.one_le_abs (show (n : Int) - k ≠ 0 by omega)
    rw [← sub_mul, abs_mul, abs_of_pos (ten_zpow_pos _)]
    exact le_mul_of_one_le_left (ten_zpow_pos _).le hone

namespace ShownBy

theorem abs_sub_eq (h : d.ShownBy v m e) : |v.value - d.value| = abs (|v.value| - |d.value|) := by
  rw [h.sign, d.value_eq_abs]
  split
  · rw [abs_neg, abs_neg, abs_abs, abs_abs, ← neg_sub', abs_neg]
  · rw [abs_abs, abs_abs]

/-- The digits of the value are at most twenty-three roundings away. -/
theorem digits_near (h : d.ShownBy v m e) :
    abs ((shortest m e).value - |d.value|) ≤ 24 / 2 ^ 53 * |d.value| := by
  have hdigits : Close 23 (shortest m e).value |d.value| :=
    (h.normal.close (shortest_covers h.normal)).symm.trans h.close
  exact hdigits.abs_sub_le (by norm_num [rounding])

theorem near (h : d.ShownBy v m e) : 2 ^ 47 * |v.value - d.value| ≤ |d.value| := by
  have hgap := h.digits_near
  have hnonneg := abs_nonneg d.value
  rw [h.abs_sub_eq]
  cases h.shows with
  | exact places value scale =>
      rw [value]
      linarith
  | rounded places near scale few =>
      rcases eq_or_le_abs_sub v d with heq | hstep
      · rwa [heq, sub_self, abs_zero, mul_zero]
      · -- half a step is no more than the roundings are
        have htriangle := abs_sub_le |v.value| (shortest m e).value |d.value|
        generalize (10 : ℚ) ^ (-28 : Int) = step at near hstep
        linarith

end ShownBy

/-- What a decimal shows is off by less than one part in `2 ^ 47`. -/
theorem shown_near (hv : d.shown? = some v) : 2 ^ 47 * |v.value - d.value| ≤ |d.value| := by
  by_cases hzero : d.coefficient = 0
  · obtain rfl : zero = v := Option.some.inj ((shown?_of_zero hzero).symm.trans hv)
    simp [value, hzero, zero]
  · obtain ⟨m, e, hshown⟩ := exists_shownBy hv hzero
    exact hshown.near

/-- Whether a decimal has at most `n` digits, zeros at either end apart. -/
def HasDigits (d : Decimal) (n : Nat) : Prop := ∃ (c : Nat) (g : Int), c < 10 ^ n ∧ |d.value| = c * 10 ^ g

/-- A decimal that shows itself has at most seventeen digits. -/
theorem few_of_shown (hv : d.shown? = some v) (hd : v.value = d.value) : d.HasDigits 17 := by
  by_cases hzero : d.coefficient = 0
  · exact ⟨0, 0, by norm_num, by simp [value, hzero]⟩
  · obtain ⟨m, e, hshown⟩ := exists_shownBy hv hzero
    rw [HasDigits, ← hd]
    cases hshown.shows with
    | exact places value scale => exact ⟨_, _, shortest_digits_lt hshown.normal, value⟩
    | rounded places near scale few => exact ⟨_, _, few, abs_value_eq_grid v⟩

/-- Of two decimals with one value, the one with fewer places has the smaller coefficient. -/
theorem natAbs_le_of_scale_le (hvalue : |v.value| = |d.value|) (hscale : v.scale ≤ d.scale) :
    v.coefficient.natAbs ≤ d.coefficient.natAbs := by
  have hpow : ∀ k : Nat, ((10 ^ k : Nat) : ℚ) ≠ 0 := fun k => by positivity
  rw [abs_value_eq, abs_value_eq, div_eq_div_iff (hpow _) (hpow _)] at hvalue
  have hcross : v.coefficient.natAbs * 10 ^ d.scale = d.coefficient.natAbs * 10 ^ v.scale := by exact_mod_cast hvalue
  refine Nat.le_of_mul_le_mul_right (hcross.le.trans ?_) (Nat.pow_pos (n := d.scale) (show 0 < 10 by decide))
  exact Nat.mul_le_mul_left _ (Nat.pow_le_pow_right (by decide) hscale)

/-- A decimal of at most fifteen digits and twenty-two places is read as the value that it was written as, and the
fewest digits of this are its own. -/
theorem reread_of_few (h : d.coefficient ≠ 0) (hfew : d.coefficient.natAbs < 10 ^ 15) (hscale : d.scale ≤ 22) :
    ∃ m e, Normal m e ∧ Covers m e |d.value| ∧ (shortest m e).value = |d.value| ∧
      reread d.toBinary64 = finite (d.coefficient < 0) m e := by
  obtain ⟨m, e, hm, hcovers, -⟩ := roundsTo_of_few h hfew hscale
  have hgrid := abs_value_eq_grid d
  have hdigits : (shortest m e).value = |d.value| := by
    rw [hgrid] at hcovers ⊢
    exact shortest_value_eq hm (Int.natAbs_pos.2 h) hfew hcovers
  have hreading := (roundsTo_reading hm hfew hscale (hdigits.trans hgrid)).unique hm (shortest_covers hm)
  refine ⟨m, e, hm, hcovers, hdigits, ?_⟩
  rw [toBinary64_of_few h hfew hscale hm hcovers, reread_finite hm, hreading, withSign_finite]

/-- Such a decimal shows itself, and what it shows is written as the decimal was. -/
theorem shown_of_few (hfew : d.coefficient.natAbs < 10 ^ 15) (hscale : d.scale ≤ 22) :
    ∃ v, d.shown? = some v ∧ v.value = d.value ∧ v.toBinary64 = d.toBinary64 := by
  by_cases hzero : d.coefficient = 0
  · refine ⟨zero, shown?_of_zero hzero, by simp [value, hzero, zero], ?_⟩
    rw [toBinary64_of_zero hzero, toBinary64_of_zero rfl]
  · obtain ⟨m, e, hm, hcovers, hdigits, hread⟩ := reread_of_few hzero hfew hscale
    have hplaces := shortest_places hm (hdigits.trans (abs_value_eq_grid d))
    obtain ⟨v, hv, hshows, hsign⟩ := ofBinary64?_finite hm (d.coefficient < 0) (hdigits.trans_lt d.abs_value_lt)
    cases hshows with
    | rounded places near scale few => omega
    | exact places value scale =>
        have habs : |v.value| = |d.value| := value.trans hdigits
        have hvalue : v.value = d.value := by
          rw [d.value_eq_abs, ← habs]
          simpa using hsign
        have hnegative : v.coefficient < 0 ↔ d.coefficient < 0 := by
          rw [← value_neg_iff, ← value_neg_iff, hvalue]
        have hsome : v.coefficient ≠ 0 := coefficient_ne_zero (habs ▸ hm.pos_of_covers hcovers)
        have hfew' := (natAbs_le_of_scale_le habs (by omega)).trans_lt hfew
        refine ⟨v, by rw [shown?, hread, hv], hvalue, ?_⟩
        rw [toBinary64_of_few hsome hfew' (by omega) hm (habs ▸ hcovers), toBinary64_of_few hzero hfew hscale hm hcovers,
          decide_eq_decide.2 hnegative]

end Decimal

end UsageLedger
