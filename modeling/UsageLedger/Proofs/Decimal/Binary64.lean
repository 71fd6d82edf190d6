import Mathlib.Data.Nat.Cast.Field
import UsageLedger.Proofs.Binary64.Arithmetic
import UsageLedger.Proofs.Binary64.Text
import UsageLedger.Proofs.Decimal.Text

/-! Decimals and floating-point numbers. A floating-point number is read as the decimal with its fewest digits, or
as the nearest one if there are not enough places for these. A decimal becomes a floating-point number in several
steps: some roundings away from it, and the nearest one if it is whole, or has at most fifteen digits and twenty-two
places. -/

namespace UsageLedger

namespace Decimal

open Binary64

variable {m : Nat} {e : Int}

/-! ### Plain texts -/

theorem onto_onto (whole fraction : List Char) :
    onto (onto 0 whole) fraction = Text.ofDigits (whole ++ fraction) := by
  rw [onto, onto, Text.ofDigits, List.foldl_append]

theorem foldlM_shown {s : Scientific} {whole fraction : List Char} (h : s.Shows whole fraction)
    (hfits : Text.ofDigits (whole ++ fraction) < 2 ^ 96) (hplaces : -28 ≤ s.exponent) :
    ∃ point, (whole ++ if 0 ≤ s.exponent then [] else '.' :: fraction).foldlM Progress.step? Progress.start =
      some ⟨Text.ofDigits (whole ++ fraction), fraction.length, true, point, false⟩ := by
  have hlength := h.places
  split
  · obtain rfl : fraction = [] := List.length_eq_zero_iff.1 (by omega)
    rw [List.append_nil] at hfits ⊢
    exact ⟨false, foldlM_whole h.isWhole.nonempty h.isWhole.isDigit hfits⟩
  · rw [← onto_onto] at hfits ⊢
    exact ⟨true, foldlM_fraction h.isWhole.nonempty h.isWhole.isDigit h.isFraction hfits (by omega)⟩

theorem splitSign_shown {s : Scientific} {whole fraction : List Char} (h : s.Shows whole fraction)
    (rest : List Char) : Text.splitSign (whole ++ rest) = (false, whole ++ rest) := by
  refine Text.splitSign_of_head fun c hc => h.isWhole.isDigit c ?_
  rw [List.head?_append, Option.or_of_isSome (by simpa using h.isWhole.nonempty)] at hc
  exact List.mem_of_head? hc

/-- The digits of a number without its point fit a coefficient, if the number does. -/
theorem ofDigits_shown_lt {s : Scientific} {whole fraction : List Char} (h : s.Shows whole fraction)
    (hfew : s.digits < 2 ^ 96) (hfits : s.value < 2 ^ 96) : Text.ofDigits (whole ++ fraction) < 2 ^ 96 := by
  by_cases hwhole : 0 ≤ s.exponent
  · have hvalue := h.value_eq
    rw [h.places, show (-s.exponent).toNat = 0 by omega, Nat.cast_zero, neg_zero, zpow_zero, mul_one] at hvalue
    rw [← hvalue] at hfits
    exact_mod_cast hfits
  · rwa [h.digits, show s.exponent.toNat = 0 by omega, Nat.pow_zero, Nat.mul_one]

/-- Whether a decimal is the nearest one to a number: its digits, if there are places for all of them, or the nearest
multiple of the last place. -/
inductive Shows (s : Scientific) (v : Decimal) : Prop
  | exact (places : -28 ≤ s.exponent) (value : |v.value| = s.value) (scale : v.scale = (-s.exponent).toNat)
  | rounded (places : s.exponent < -28) (near : |(|v.value| - s.value)| ≤ 10 ^ (-28 : Int) / 2) (scale : v.scale = 28)
      (few : v.coefficient.natAbs < 10 ^ 17)

theorem abs_value_eq (d : Decimal) : |d.value| = (d.coefficient.natAbs : ℚ) / (10 ^ d.scale : Nat) := by
  rw [value, abs_div, abs_of_pos (pow_pos (by norm_num : (0 : ℚ) < 10) _)]
  push_cast [Nat.cast_natAbs]
  rfl

theorem abs_value_eq_grid (d : Decimal) : |d.value| = d.coefficient.natAbs * 10 ^ (-(d.scale : Int)) := by
  rw [abs_value_eq, zpow_neg, zpow_natCast, div_eq_mul_inv]
  push_cast
  rfl

/-- A text with a sign in front of digits is read as the decimal of these digits. -/
theorem exists_ofText? {body : List Char} {n k : Nat} {point settled : Bool} (negative : Bool)
    (hsign : Text.splitSign body = (false, body))
    (hread : body.foldlM Progress.step? Progress.start = some ⟨n, k, true, point, settled⟩)
    (hn : n < 2 ^ 96) (hk : k ≤ 28) : ∃ v : Decimal, ofText? (if negative then '-' :: body else body) = some v ∧
      v.coefficient.natAbs = n ∧ v.scale = k ∧ v.value = if negative then -|v.value| else |v.value| := by
  have hbound : (if negative then -(n : Int) else n).natAbs = n := by
    split <;> omega
  obtain ⟨v, hcoefficient, hscale⟩ : ∃ v : Decimal, v.coefficient = (if negative then -(n : Int) else n) ∧ v.scale = k :=
    ⟨⟨if negative then -(n : Int) else n, k, by rwa [hbound], hk⟩, rfl, rfl⟩
  refine ⟨v, ofText?_of_foldlM negative hsign hread hcoefficient hscale, hcoefficient ▸ hbound, hscale, ?_⟩
  rw [abs_value_eq, value, hcoefficient, hbound, hscale]
  cases negative with
  | true =>
      push_cast
      rw [if_pos rfl, if_pos rfl, neg_div]
  | false =>
      push_cast
      rfl

theorem exists_split_at {cs : List Char} {n : Nat} (h : n < cs.length) :
    ∃ kept c rest, cs = kept ++ c :: rest ∧ kept.length = n :=
  ⟨cs.take n, cs[n], cs.drop (n + 1), by rw [← List.drop_eq_getElem_cons h, List.take_append_drop],
    List.length_take_of_le h.le⟩

theorem ofDigits_kept_lt {kept rest : List Char} {c : Char} (hdigits : ∀ d ∈ c :: rest, d.isDigit = true)
    (hfew : Text.ofDigits (kept ++ c :: rest) < 10 ^ 17) : Text.ofDigits kept + 1 < 10 ^ 17 := by
  have hlow := (Text.ofDigits_append_bounds kept hdigits).1
  have hten : 10 ^ 1 ≤ 10 ^ (c :: rest).length := Nat.pow_le_pow_right (by decide) (by simp)
  have := Nat.mul_le_mul_left (Text.ofDigits kept) hten
  omega

/-- The first places of a number that has more, and the digit behind them, say what is nearest. -/
theorem near_of_kept (kept : List Char) {rest : List Char} {c : Char} (hc : c.isDigit = true)
    (hrest : ∀ d ∈ rest, d.isDigit = true) :
    |((if Text.digitValue c < 5 then Text.ofDigits kept else Text.ofDigits kept + 1 : Nat) : ℚ) -
      Text.ofDigits (kept ++ c :: rest) * 10 ^ (-((rest.length : Int) + 1))| ≤ 1 / 2 := by
  obtain ⟨hlow, hhigh⟩ := Text.ofDigits_append_bounds (kept ++ [c]) hrest
  rw [List.append_assoc, List.singleton_append, Text.ofDigits_concat] at hlow hhigh
  have hpow : (10 : ℚ) ^ (-((rest.length : Int) + 1)) = 1 / (10 * 10 ^ rest.length) := by
    rw [zpow_neg, zpow_add_one₀ (by norm_num), zpow_natCast, one_div, mul_comm]
  have hpos : (0 : ℚ) < 10 ^ rest.length := by positivity
  have hdigit := Text.digitValue_lt hc
  have hlow' : ((10 * Text.ofDigits kept + Text.digitValue c : Nat) : ℚ) * 10 ^ rest.length ≤
      Text.ofDigits (kept ++ c :: rest) := by exact_mod_cast hlow
  have hhigh' : (Text.ofDigits (kept ++ c :: rest) : ℚ) <
      ((10 * Text.ofDigits kept + Text.digitValue c + 1 : Nat) : ℚ) * 10 ^ rest.length := by exact_mod_cast hhigh
  rw [hpow, mul_one_div]
  have hbelow : ((10 * Text.ofDigits kept + Text.digitValue c : Nat) : ℚ) / 10 ≤
      Text.ofDigits (kept ++ c :: rest) / (10 * 10 ^ rest.length) := by
    rw [div_le_div_iff₀ (by norm_num) (by positivity)]
    linarith
  have habove : Text.ofDigits (kept ++ c :: rest) / (10 * 10 ^ rest.length) <
      ((10 * Text.ofDigits kept + Text.digitValue c + 1 : Nat) : ℚ) / 10 := by
    rw [div_lt_div_iff₀ (by positivity) (by norm_num)]
    linarith
  generalize (Text.ofDigits (kept ++ c :: rest) : ℚ) / (10 * 10 ^ rest.length) = y at *
  push_cast at hbelow habove
  rw [abs_le]
  split
  · rename_i hdown
    have : (Text.digitValue c : ℚ) + 1 ≤ 5 := by exact_mod_cast hdown
    constructor <;> linarith
  · rename_i hup
    have : (5 : ℚ) ≤ Text.digitValue c := by exact_mod_cast Nat.not_lt.1 hup
    have : (Text.digitValue c : ℚ) + 1 ≤ 10 := by exact_mod_cast hdigit
    push_cast
    constructor <;> linarith

section Read

variable {s : Scientific} {whole fraction : List Char}

/-- A plain text with places for all its digits is read as these digits. -/
theorem exists_shows_exact (h : s.Shows whole fraction) (negative : Bool)
    (hfits : Text.ofDigits (whole ++ fraction) < 2 ^ 96) (hplaces : -28 ≤ s.exponent) : ∃ v,
      ofText? (if negative then '-' :: (whole ++ if 0 ≤ s.exponent then [] else '.' :: fraction) else
        whole ++ if 0 ≤ s.exponent then [] else '.' :: fraction) = some v ∧ Shows s v ∧
      v.value = if negative then -|v.value| else |v.value| := by
  have hlength := h.places
  obtain ⟨point, hread⟩ := foldlM_shown h hfits hplaces
  obtain ⟨v, hv, hmagnitude, hscale, hvalue⟩ :=
    exists_ofText? negative (splitSign_shown h _) hread hfits (by omega)
  refine ⟨v, hv, .exact hplaces ?_ (hscale.trans hlength), hvalue⟩
  rw [abs_value_eq_grid, hmagnitude, hscale, h.value_eq]

/-- A plain text with more digits behind the point than there are places is read as the nearest decimal. -/
theorem exists_shows_rounded (h : s.Shows whole fraction) (negative : Bool) (hfew : s.digits < 10 ^ 17)
    (hplaces : s.exponent < -28) : ∃ v,
      ofText? (if negative then '-' :: (whole ++ '.' :: fraction) else whole ++ '.' :: fraction) = some v ∧
      Shows s v ∧ v.value = if negative then -|v.value| else |v.value| := by
  -- the places that there are, the digit behind them, and the rest
  obtain ⟨kept, c, rest, rfl, hkept⟩ := exists_split_at (show 28 < fraction.length by have := h.places; omega)
  have htail : ∀ d ∈ c :: rest, d.isDigit = true := fun d hd => h.isFraction d (List.mem_append_right _ hd)
  have hcoefficient : Text.ofDigits (whole ++ kept) + 1 < 10 ^ 17 := by
    apply ofDigits_kept_lt htail
    rw [List.append_assoc, h.digits, show s.exponent.toNat = 0 by omega]
    simpa using hfew
  have hread := foldlM_rounded h.isWhole.nonempty h.isWhole.isDigit h.isFraction hkept (by rw [onto_onto]; omega)
  have hnear := near_of_kept (whole ++ kept) (htail c List.mem_cons_self)
    fun d hd => htail d (List.mem_cons_of_mem c hd)
  rw [onto_onto] at hread
  generalize hn : (if Text.digitValue c < 5 then Text.ofDigits (whole ++ kept) else Text.ofDigits (whole ++ kept) + 1) =
    n at hread hnear
  have hn' : n < 10 ^ 17 := by
    split at hn <;> omega
  obtain ⟨v, hv, hmagnitude, hscale, hvalue⟩ :=
    exists_ofText? negative (splitSign_shown h _) hread (by omega) le_rfl
  refine ⟨v, hv, .rounded hplaces ?_ hscale (hmagnitude ▸ hn'), hvalue⟩
  have hsplit : (10 : ℚ) ^ (-((kept ++ c :: rest).length : Int)) =
      10 ^ (-((rest.length : Int) + 1)) * 10 ^ (-28 : Int) := by
    rw [List.length_append, hkept, List.length_cons, ← zpow_add₀ (by norm_num)]
    congr 1
    push_cast
    ring
  rw [abs_value_eq_grid, hmagnitude, hscale, ← h.value_eq, hsplit, ← mul_assoc, Nat.cast_ofNat, ← sub_mul,
    abs_mul, abs_of_pos (ten_zpow_pos _), ← List.append_assoc, ← one_div_mul_eq_div]
  exact mul_le_mul_of_nonneg_right hnear (ten_zpow_pos _).le

end Read

/-- The plain text of a floating-point value is read as a decimal that shows its fewest digits. -/
theorem ofBinary64?_finite (h : Normal m e) (negative : Bool) (hfits : (shortest m e).value < 2 ^ 96) :
    ∃ v, ofBinary64? (finite negative m e) = some v ∧ Shows (shortest m e) v ∧
      v.value = if negative then -|v.value| else |v.value| := by
  obtain ⟨whole, fraction, hshows, htext⟩ := Scientific.exists_shows (shortest_digits_pos h)
  have hdigits := shortest_digits_lt h
  rw [ofBinary64?, toPlainText, if_neg h.ne_zero]
  dsimp only
  rw [htext]
  by_cases hplaces : -28 ≤ (shortest m e).exponent
  · exact exists_shows_exact hshows negative (ofDigits_shown_lt hshows (hdigits.trans (by norm_num)) hfits) hplaces
  · rw [if_neg (show ¬0 ≤ (shortest m e).exponent by omega)]
    exact exists_shows_rounded hshows negative hdigits (by omega)

/-! ### Decimals as floating-point numbers -/

section FloatOf

variable {c p i scale : Nat}

/-- What stands on the two sides of the point, added up and moved to whole places, is near the coefficient. -/
theorem near_parts (hc : 0 < c) (hc' : c ≤ 10 ^ 60) (hp : 0 < p) (hp' : p ≤ 10 ^ 60) (hpart : 0 < c % p) (hi : i ≤ 1)
    (hwhole : 0 < c / p → Near i (ofNat (c / p)) (c / p : Nat)) (hfraction : Near i (ofNat (c % p)) (c % p : Nat))
    (hpower : Near i (ofNat p) p) :
    Near (3 + 3 * i) (((ofNat (c / p)).add ((ofNat (c % p)).div (ofNat p))).mul (ofNat p)) c := by
  have hp0 : (p : ℚ) ≠ 0 := by exact_mod_cast hp.ne'
  have hquotient := hfraction.div hpower
    (moderate_ratio hpart hp ((Nat.mod_lt c hp).le.trans hp') hp') (by omega)
  have hvalue : ((c / p : Nat) : ℚ) + (c % p : Nat) / p = c / p := by
    rw [eq_div_iff hp0, add_mul, div_mul_cancel₀ _ hp0]
    exact_mod_cast Nat.div_add_mod' c p
  have hsum : Near (2 + 2 * i) ((ofNat (c / p)).add ((ofNat (c % p)).div (ofNat p))) (c / p) := by
    rcases Nat.eq_zero_or_pos (c / p) with hnone | hsome
    · have hzero : ofNat (c / p) = finite false 0 (-1074) := by
        rw [hnone]
        rfl
      rw [hnone, Nat.cast_zero, zero_add] at hvalue
      rw [hzero, ← hvalue]
      exact (hquotient.zero_add le_rfl).mono (by omega)
    · have hadd := ((hwhole hsome).mono (by omega)).add hquotient
        (by rw [hvalue]; exact moderate_ratio hc hp hc' hp') (by omega)
      rw [hvalue] at hadd
      exact hadd.mono (by omega)
  have hproduct := hsum.mul hpower
    (by rw [div_mul_cancel₀ _ hp0]; exact moderate_natCast hc hc') (by omega)
  rw [div_mul_cancel₀ _ hp0] at hproduct
  exact hproduct.mono (by omega)

/-- A whole decimal is rounded once. -/
theorem roundsTo_floatOf_whole (hc : 0 < c) (hc' : c ≤ 10 ^ 60) (hwhole : c % 10 ^ scale = 0) :
    RoundsTo (floatOf c scale) (c / (10 ^ scale : Nat)) := by
  have hpow : 0 < 10 ^ scale := Nat.pow_pos (by decide)
  have hsome : 0 < c / 10 ^ scale := Nat.div_pos (Nat.le_of_dvd hc (Nat.dvd_of_mod_eq_zero hwhole)) hpow
  rw [floatOf, if_pos hwhole, ← Nat.cast_div_charZero (Nat.dvd_of_mod_eq_zero hwhole)]
  exact roundsTo_ofNat (moderate_natCast hsome ((Nat.div_le_self _ _).trans hc'))

theorem near_floatOf (hc : 0 < c) (hc' : c ≤ 10 ^ 60) (hscale : scale ≤ 60) :
    Near 18 (floatOf c scale) (c / (10 ^ scale : Nat)) := by
  by_cases hwhole : c % 10 ^ scale = 0
  · have hrounds := roundsTo_floatOf_whole hc hc' hwhole
    have hpos : (0 : ℚ) < c / (10 ^ scale : Nat) := by positivity
    exact (hrounds.near (.refl hpos)).mono (by omega)
  · have hpow : 0 < 10 ^ scale := Nat.pow_pos (by decide)
    have hpow' : 10 ^ scale ≤ 10 ^ 60 := Nat.pow_le_pow_right (by decide) hscale
    have hpart := Nat.pos_of_ne_zero hwhole
    have hparts := near_parts hc hc' hpow hpow' hpart le_rfl
      (fun hsome => near_ofNat (moderate_natCast hsome ((Nat.div_le_self _ _).trans hc')))
      (near_ofNat (moderate_natCast hpart ((Nat.mod_le _ _).trans hc'))) (near_ten_pow hscale)
    rw [floatOf, if_neg hwhole]
    exact hparts.roundAway.div (near_ten_pow hscale) (moderate_ratio hc hpow hc' hpow') (by omega)

/-- With few digits and places every step but the last is exact enough that there is only one rounding. -/
theorem roundsTo_floatOf (hc : 0 < c) (hfew : c < 10 ^ 15) (hscale : scale ≤ 22) :
    RoundsTo (floatOf c scale) (c / (10 ^ scale : Nat)) := by
  have hc' : c ≤ 10 ^ 60 := hfew.le.trans (by norm_num)
  by_cases hwhole : c % 10 ^ scale = 0
  · exact roundsTo_floatOf_whole hc hc' hwhole
  · have hpow : 0 < 10 ^ scale := Nat.pow_pos (by decide)
    have hpow' : 10 ^ scale ≤ 10 ^ 60 := Nat.pow_le_pow_right (by decide) (by omega)
    have hfits : c < 2 ^ 53 := hfew.trans (by norm_num)
    have hfew' : (c : ℚ) < 10 ^ 15 := by exact_mod_cast hfew
    have hpart := Nat.pos_of_ne_zero hwhole
    have hparts := near_parts hc hc' hpow hpow' hpart (Nat.zero_le 1)
      (fun hsome => near_ofNat_of_lt hsome ((Nat.div_le_self _ _).trans_lt hfits))
      (near_ofNat_of_lt hpart ((Nat.mod_le _ _).trans_lt hfits)) (near_ten_pow_exact hscale)
    have hexact := hparts.roundAway_exact (show rounding ^ (3 + 3 * 0) ≤ 1 + 4 / 2 ^ 53 by norm_num [rounding])
      (by linarith)
    rw [floatOf, if_neg hwhole]
    exact hexact.roundsTo_div (near_ten_pow_exact hscale) (moderate_ratio hc hpow hc' hpow')

end FloatOf

/-- A decimal other than zero is written near its value, with its sign. -/
theorem exists_toBinary64 {d : Decimal} (h : d.coefficient ≠ 0) : ∃ m e, Normal m e ∧
    Close 18 (magnitude m e) |d.value| ∧ d.toBinary64 = finite (d.coefficient < 0) m e := by
  obtain ⟨m, e, hm, hclose, hfloat⟩ := near_floatOf (Int.natAbs_pos.2 h)
    (d.coefficient_lt.le.trans (by norm_num)) (d.scale_le.trans (by norm_num))
  rw [← abs_value_eq] at hclose
  exact ⟨m, e, hm, hclose, by rw [toBinary64, hfloat, withSign_finite]⟩

theorem roundsTo_of_few {d : Decimal} (h : d.coefficient ≠ 0) (hfew : d.coefficient.natAbs < 10 ^ 15)
    (hscale : d.scale ≤ 22) : RoundsTo (floatOf d.coefficient.natAbs d.scale) |d.value| := by
  rw [abs_value_eq]
  exact roundsTo_floatOf (Int.natAbs_pos.2 h) hfew hscale

/-- A decimal with few digits and places is written as the value whose interval it lies in. -/
theorem toBinary64_of_few {d : Decimal} (h : d.coefficient ≠ 0) (hfew : d.coefficient.natAbs < 10 ^ 15)
    (hscale : d.scale ≤ 22) (hm : Normal m e) (hcovers : Covers m e |d.value|) :
    d.toBinary64 = finite (d.coefficient < 0) m e := by
  rw [toBinary64, (roundsTo_of_few h hfew hscale).unique hm hcovers, withSign_finite]

end Decimal

end UsageLedger
