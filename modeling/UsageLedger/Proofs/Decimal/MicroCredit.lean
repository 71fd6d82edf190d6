import UsageLedger.MicroCredit
import UsageLedger.Proofs.Decimal.Product

/-! Micro-credits and the amounts they stand for. A product with a million that has a decimal is exact, so an
amount is rounded once; what is out of the range of decimals is out of the range of 64 bits as well. An amount is
a whole number of micro-credits of 64 bits exactly when its value is, however many places it is written with. -/

namespace UsageLedger.MicroCredit

theorem value_toDecimal (n : Int64) : (toDecimal n).value = n.toInt / 10 ^ amountPlaces := rfl

theorem value_of_exact {amount : Decimal} {n : Int64} (h : exact amount = .ok n) :
    amount.value = n.toInt / 10 ^ amountPlaces := by
  unfold exact at h
  split at h
  · cases h
  · split at h
    · rename_i hsame
      obtain rfl := Except.ok.inj h
      exact (Decimal.same_iff_value_eq.1 hsame).symm
    · cases h

/-- An amount that is not counted is out of range, or it is none. -/
theorem exact_eq_error {amount : Decimal} {e : Error} (h : exact amount = .error e) :
    e = .storage (.outOfRange amount) ∨ e = .backend (.tooManyPlaces amount) := by
  unfold exact rounded at h
  split at h
  · rename_i e' hrounded
    split at hrounded
    · cases hrounded
    · exact .inl ((Except.error.inj h).symm.trans (Except.error.inj hrounded).symm)
  · split at h
    · cases h
    · exact .inr (Except.error.inj h).symm

theorem value_perCredit : perCredit.value = 10 ^ amountPlaces := by
  norm_num [Decimal.value, perCredit, amountPlaces]

/-- A product with a million loses nothing: a coefficient that is too large is made smaller at the places of the
million, where it ends in zeros, and what has fewer places than that is a whole number. -/
theorem value_mul?_perCredit {amount d : Decimal} (h : amount.mul? perCredit = some d) :
    d.value = amount.value * 10 ^ amountPlaces := by
  have hscale := amount.scale_le
  have hmillion : perCredit.coefficient = 10 ^ amountPlaces := by decide
  obtain ⟨d', hfit, hvalue⟩ := Decimal.mul?_eq_fit? h (show amount.scale + 0 ≤ 28 from hscale)
  rw [hmillion, show amount.scale + perCredit.scale = amount.scale from rfl] at hfit
  obtain ⟨m, n, hgrid, hm⟩ : ∃ (m : Int) (n : Nat),
      amount.coefficient * 10 ^ amountPlaces * 10 ^ n = m * 10 ^ amount.scale ∧ m.natAbs < 2 ^ 96 := by
    by_cases hplaces : amountPlaces ≤ amount.scale
    · refine ⟨amount.coefficient, amount.scale - amountPlaces, ?_, amount.coefficient_lt⟩
      rw [mul_assoc, ← pow_add, Nat.add_sub_cancel' hplaces]
    · have hwhole : amount.coefficient * 10 ^ amountPlaces =
          amount.coefficient * 10 ^ (amountPlaces - amount.scale) * 10 ^ amount.scale := by
        rw [mul_assoc, ← pow_add, Nat.sub_add_cancel (by omega)]
      refine ⟨_, 0, (mul_one _).trans hwhole, ?_⟩
      -- a whole number that is too large would not have fitted
      by_contra hlarge
      have hnone : Decimal.fit? (amount.coefficient * 10 ^ amountPlaces) amount.scale = none := by
        rw [Decimal.fit?_eq_none_iff, hwhole, Int.natAbs_mul, Int.natAbs_pow, ← mul_assoc]
        exact Nat.mul_le_mul_right _ (by omega)
      rw [hnone] at hfit
      cases hfit
  obtain ⟨d'', hfit', hexact⟩ := Decimal.fit?_on_grid hgrid hscale hm
  rw [hfit] at hfit'
  obtain rfl := Option.some.inj hfit'
  rw [← hvalue, hexact, Decimal.value, div_mul_eq_mul_div]
  push_cast
  rfl

/-- An amount is rounded to micro-credits once, if so many are in the range of 64 bits. -/
theorem rounded_eq {amount : Decimal} {m : ℤ} (h : IsRounded (amount.value * 10 ^ amountPlaces) m) :
    rounded amount =
      if -(2 ^ 63) ≤ m ∧ m < 2 ^ 63 then .ok (Int64.ofInt m) else .error (.storage (.outOfRange amount)) := by
  cases hd : amount.mul? perCredit with
  | none =>
      have hlarge : ¬(-(2 ^ 63) ≤ m ∧ m < 2 ^ 63) := by
        rw [Decimal.mul?_eq_none_iff, value_perCredit] at hd
        rintro ⟨hlow, hhigh⟩
        have hlow' : -(2 ^ 63) ≤ (m : ℚ) := by exact_mod_cast hlow
        have hhigh' : (m : ℚ) < 2 ^ 63 := by exact_mod_cast hhigh
        have hnear := h.1
        have hm : |(m : ℚ)| ≤ 2 ^ 63 := abs_le.2 ⟨hlow', hhigh'.le⟩
        have htriangle := abs_sub_abs_le_abs_sub (amount.value * 10 ^ amountPlaces) m
        norm_num only at hd hm
        linarith
      rw [rounded, hd, if_neg hlarge]
      rfl
  | some d =>
      have hwhole : (d.round 0).coefficient = m := by
        obtain ⟨-, hrounded⟩ := Decimal.round_isRoundedTo d 0
        rw [pow_zero, mul_one, Nat.zero_sub, pow_zero, mul_one, value_mul?_perCredit hd] at hrounded
        exact hrounded.unique h
      rw [rounded, hd, Option.bind_some, hwhole, ofInteger?]
      by_cases hrange : -(2 ^ 63) ≤ m ∧ m < 2 ^ 63
      · rw [if_pos hrange, if_pos hrange]
      · rw [if_neg hrange, if_neg hrange]

/-- An amount is counted if it rounds to itself; out of range it is not, whatever its places. -/
theorem exact_eq {amount : Decimal} {m : ℤ} (h : IsRounded (amount.value * 10 ^ amountPlaces) m) :
    exact amount =
      if -(2 ^ 63) ≤ m ∧ m < 2 ^ 63 then
        if amount.value = m / 10 ^ amountPlaces then .ok (Int64.ofInt m) else .error (.backend (.tooManyPlaces amount))
      else .error (.storage (.outOfRange amount)) := by
  by_cases hrange : -(2 ^ 63) ≤ m ∧ m < 2 ^ 63
  · have hsame : (toDecimal (Int64.ofInt m)).same amount = true ↔ amount.value = m / 10 ^ amountPlaces := by
      rw [Decimal.same_iff_value_eq, value_toDecimal, Int64.toInt_ofInt_of_le hrange.1 hrange.2, eq_comm]
    rw [exact, rounded_eq h, if_pos hrange, if_pos hrange]
    simp only [hsame]
  · rw [exact, rounded_eq h, if_neg hrange, if_neg hrange]

theorem rounded_of_value {amount : Decimal} {n : Int64} (h : amount.value = n.toInt / 10 ^ amountPlaces) :
    rounded amount = .ok n := by
  have hsteps : amount.value * 10 ^ amountPlaces = n.toInt := by
    rw [h, div_mul_cancel₀ _ (by positivity)]
  rw [rounded_eq (hsteps ▸ IsRounded.intCast n.toInt), if_pos ⟨n.le_toInt, n.toInt_lt⟩, Int64.ofInt_toInt]

theorem exact_of_value {amount : Decimal} {n : Int64} (h : amount.value = n.toInt / 10 ^ amountPlaces) :
    exact amount = .ok n := by
  have hsame : (toDecimal n).same amount = true :=
    Decimal.same_iff_value_eq.2 ((value_toDecimal n).trans h.symm)
  rw [exact, rounded_of_value h]
  exact if_pos hsame

/-- The amounts that are whole numbers of micro-credits are those with such a value. -/
theorem exact_eq_ok_iff {amount : Decimal} {n : Int64} :
    exact amount = .ok n ↔ amount.value = n.toInt / 10 ^ amountPlaces :=
  ⟨value_of_exact, exact_of_value⟩

end UsageLedger.MicroCredit
