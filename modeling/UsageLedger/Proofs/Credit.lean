import UsageLedger.Credit
import UsageLedger.Proofs.Decimal.Product

/-! Amounts as functions of the values billed. A monetary value is rounded once to the places of amounts. Whole raw
units times the rate may be rounded twice, at the last place that fits and then at those of amounts; that loses no
order and no sign, and nothing at all as long as the product of the coefficients is in range. -/

namespace UsageLedger.Credit

open Decimal

variable {rate amount amount' : Decimal} {e e' : Event}

theorem convert?_rawUnit (h : e.kind = .rawUnit) : convert? rate e = e.value.trunc.mul? rate := by
  rw [convert?, h]

/-- Credits follow the value within a kind, as long as the rate is not negative. -/
theorem convert?_mono {credits credits' : Decimal} (hrate : 0 ≤ rate.value) (hkind : e.kind = e'.kind)
    (hle : e.value.value ≤ e'.value.value) (h : convert? rate e = some credits)
    (h' : convert? rate e' = some credits') : credits.value ≤ credits'.value := by
  unfold convert? at h h'
  rw [← hkind] at h'
  cases hcase : e.kind with
  | monetary =>
      rw [hcase] at h h'
      obtain rfl := Option.some.inj h
      obtain rfl := Option.some.inj h'
      exact hle
  | rawUnit =>
      rw [hcase] at h h'
      refine mul?_mono rfl rfl hrate ?_ h h'
      rw [value_trunc, value_trunc]
      exact_mod_cast wholePart_mono hle

theorem amount?_eq_some (h : amount? rate e = some amount) :
    ∃ credits, convert? rate e = some credits ∧ IsRoundedTo amountPlaces credits.value amount := by
  obtain ⟨credits, hcredits, rfl⟩ := Option.map_eq_some_iff.1 h
  exact ⟨credits, hcredits, round_isRoundedTo credits amountPlaces⟩

theorem amount?_mono (hrate : 0 ≤ rate.value) (hkind : e.kind = e'.kind) (hle : e.value.value ≤ e'.value.value)
    (h : amount? rate e = some amount) (h' : amount? rate e' = some amount') : amount.value ≤ amount'.value := by
  obtain ⟨credits, hcredits, hrounded⟩ := amount?_eq_some h
  obtain ⟨credits', hcredits', hrounded'⟩ := amount?_eq_some h'
  exact hrounded.mono hrounded' (convert?_mono hrate hkind hle hcredits hcredits')

/-- An event that is worth nothing costs nothing. -/
theorem amount?_of_zero (rate : Decimal) {free : Event} (hfree : free.value = zero) :
    ∃ amount, amount? rate free = some amount ∧ amount.value = 0 := by
  have hcredits : convert? rate free = some zero := by
    unfold convert?
    rw [hfree]
    cases free.kind with
    | monetary => rfl
    | rawUnit => rfl
  refine ⟨zero.round amountPlaces, by rw [amount?, hcredits]; rfl, ?_⟩
  rw [round_eq_self (Nat.zero_le _), value_zero]

/-- An amount is on the same side of zero as the value. -/
theorem amount?_sign (hrate : 0 ≤ rate.value) (h : amount? rate e = some amount) :
    (0 ≤ e.value.value → 0 ≤ amount.value) ∧ (e.value.value ≤ 0 → amount.value ≤ 0) := by
  -- the same event at no value is billed nothing
  obtain ⟨free, hkind, hvalue⟩ : ∃ free : Event, free.kind = e.kind ∧ free.value = zero :=
    ⟨{ e with value := zero }, rfl, rfl⟩
  obtain ⟨nothing, hfree, hnothing⟩ := amount?_of_zero rate hvalue
  have hworth : free.value.value = 0 := by rw [hvalue, value_zero]
  refine ⟨fun hpos => ?_, fun hneg => ?_⟩
  · have hle := amount?_mono hrate hkind (hworth.trans_le hpos) hfree h
    rwa [hnothing] at hle
  · have hle := amount?_mono hrate hkind.symm (hneg.trans_eq hworth.symm) h hfree
    rwa [hnothing] at hle

/-- What raw units cost is the exact product rounded once, if the product of the coefficients is in range. -/
theorem amount?_rawUnit (hkind : e.kind = .rawUnit)
    (hsmall : (wholePart e.value.value * rate.coefficient).natAbs < 2 ^ 96) :
    ∃ amount, amount? rate e = some amount ∧
      IsRoundedTo amountPlaces (wholePart e.value.value * rate.value) amount := by
  have hscale : e.value.trunc.scale + rate.scale ≤ 28 := (Nat.zero_add rate.scale).trans_le rate.scale_le
  rw [← coefficient_trunc] at hsmall
  obtain ⟨credits, hcredits, hexact⟩ := mul?_of_small hscale hsmall
  rw [value_trunc] at hexact
  refine ⟨credits.round amountPlaces, ?_, hexact ▸ round_isRoundedTo credits amountPlaces⟩
  rw [amount?, convert?_rawUnit hkind, hcredits]
  rfl

/-- Amounts follow values. At a rate that is not negative, of two events of one kind the one of the greater value is
not billed less, and no event is billed on the other side of zero; no amount has more than six places. Money is
billed as its value rounded once, and raw units as the exact product of the whole ones with the rate rounded once,
if the product of the coefficients is in range. -/
theorem amounts_follow_values (rate : Decimal) (hrate : rate.isNegative = false) :
    (∀ e e' amount amount', e.kind = e'.kind → e.value.value ≤ e'.value.value → amount? rate e = some amount →
      amount? rate e' = some amount' → amount.value ≤ amount'.value) ∧
    (∀ e amount, amount? rate e = some amount → amount.scale ≤ amountPlaces ∧
      (0 ≤ e.value.value → 0 ≤ amount.value) ∧ (e.value.value ≤ 0 → amount.value ≤ 0)) ∧
    (∀ e, e.kind = .monetary → ∃ amount, amount? rate e = some amount ∧
      IsRoundedTo amountPlaces e.value.value amount) ∧
    ∀ e, e.kind = .rawUnit → (wholePart e.value.value * rate.coefficient).natAbs < 2 ^ 96 →
      ∃ amount, amount? rate e = some amount ∧
        IsRoundedTo amountPlaces (wholePart e.value.value * rate.value) amount := by
  have hpos : 0 ≤ rate.value := by
    rw [isNegative, decide_eq_false_iff_not, not_lt] at hrate
    exact div_nonneg (Int.cast_nonneg hrate) (by positivity)
  refine ⟨fun e e' amount amount' => amount?_mono hpos, fun e amount h => ⟨scale_le_of_amount? h, amount?_sign hpos h⟩,
    fun e hkind => ⟨_, amount?_monetary hkind, round_isRoundedTo e.value amountPlaces⟩, fun e => amount?_rawUnit⟩

/-- A rate with as many places as there are. -/
def fineRate : Decimal := ⟨1234567890123456789012345678, 28, by decide, by decide⟩

/-- An event of some raw units. -/
def tokens (units : Decimal) : Event := (Event.monetary Uuid.nil "u" units .starship Instant.epoch).withRawUnits

/-- The product of the larger number of units with the rate does not fit with all its places. -/
theorem tokens_billed_in_order : ∃ amount amount',
    amount? fineRate (tokens ⟨-105, 1, by decide, by decide⟩) = some amount ∧
    amount? fineRate (tokens ⟨12345678901, 0, by decide, by decide⟩) = some amount' ∧
    amount.coefficient = -1234568 ∧ amount'.coefficient = 1524157875294925 ∧ amount.value ≤ amount'.value := by
  have hless : amount? fineRate (tokens ⟨-105, 1, by decide, by decide⟩) =
      some ⟨-1234568, 6, by decide, by decide⟩ := by
    decide +kernel
  have hmore : amount? fineRate (tokens ⟨12345678901, 0, by decide, by decide⟩) =
      some ⟨1524157875294925, 6, by decide, by decide⟩ := by decide +kernel
  have hle : (tokens ⟨-105, 1, by decide, by decide⟩).value.value ≤
      (tokens ⟨12345678901, 0, by decide, by decide⟩).value.value := by
    norm_num [tokens, Decimal.value, Event.monetary, Event.withRawUnits]
  exact ⟨_, _, hless, hmore, rfl, rfl, (amounts_follow_values fineRate (by decide)).1 _ _ _ _ (by rfl) hle hless hmore⟩

end UsageLedger.Credit
