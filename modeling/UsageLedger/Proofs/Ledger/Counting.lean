import UsageLedger.Credit
import UsageLedger.Ledger.Keyed
import UsageLedger.Proofs.Decimal.MicroCredit

/-! Counting in micro-credits. Amounts are rounded once and only if so many micro-credits have 64 bits; they are
counted without rounding exactly when they are whole numbers of them. What events are billed at has no more places
than micro-credits have, so a ledger in a keyspace takes all of it that is in range. -/

namespace UsageLedger.MicroCredit

/-- An amount rounded once to micro-credits. -/
theorem exists_isRounded (amount : Decimal) : ∃ m, IsRounded (amount.value * 10 ^ amountPlaces) m := by
  have hrounded := isRounded_roundSigned (amount.coefficient * 10 ^ amountPlaces)
    (Nat.pow_pos (by decide) : 0 < 10 ^ amount.scale)
  push_cast at hrounded
  rw [← div_mul_eq_mul_div] at hrounded
  exact ⟨_, hrounded⟩

/-- With few places there is nothing to be rounded. -/
theorem exact_of_scale_le {amount : Decimal} (h : amount.scale ≤ amountPlaces) :
    (∃ n, exact amount = .ok n) ∨ exact amount = .error (.storage (.outOfRange amount)) := by
  have hsteps := amount.value_eq_steps h
  obtain ⟨m, hm⟩ : ∃ m : ℤ, amount.value = m / 10 ^ amountPlaces := ⟨_, hsteps⟩
  have hrounded : IsRounded (amount.value * 10 ^ amountPlaces) m := by
    rw [hm, div_mul_cancel₀ _ (by positivity)]
    exact .intCast m
  rw [exact_eq hrounded, if_pos hm]
  split
  · exact .inl ⟨_, rfl⟩
  · exact .inr rfl

variable {rate amount : Decimal} {e : Event}

theorem exact_amount?_ne_backend (h : Credit.amount? rate e = some amount) (failure : BackendFailure) :
    exact amount ≠ .error (.backend failure) := by
  rcases exact_of_scale_le (Credit.scale_le_of_amount? h) with ⟨n, hn⟩ | hout
  · simp [hn]
  · simp [hout]

/-- A posting is refused for the places of its amount only if the amount is not a whole number of micro-credits. -/
theorem exact_of_create {s : Statement} {delta d : Decimal} {k : Ledger.Keyed}
    (h : (k.create s delta).1 = .error (.backend (.tooManyPlaces d))) :
    exact delta = .error (.backend (.tooManyPlaces d)) := by
  unfold Ledger.Keyed.create at h
  split at h
  · cases h
  · split at h
    · rename_i hexact
      rw [hexact]
      exact congrArg Except.error (Except.error.inj h)
    · dsimp only at h
      split at h
      all_goals cases h

/-- Counting is exact. An amount is rounded to micro-credits once, a half to the even one, if so many are in the
range of 64 bits, and refused otherwise; without rounding it is counted exactly when it is a number of
micro-credits of 64 bits, and refused for its places only if it is in range. Numbers of micro-credits are their own
amounts. What an event is billed at is never refused for its places. -/
theorem counting_is_exact :
    (∀ a : Decimal, ∃ m : ℤ, IsRounded (a.value * 10 ^ amountPlaces) m ∧
      rounded a = (if -(2 ^ 63) ≤ m ∧ m < 2 ^ 63 then .ok (Int64.ofInt m) else .error (.storage (.outOfRange a))) ∧
      exact a =
        if -(2 ^ 63) ≤ m ∧ m < 2 ^ 63 then
          if a.value = m / 10 ^ amountPlaces then .ok (Int64.ofInt m) else .error (.backend (.tooManyPlaces a))
        else .error (.storage (.outOfRange a))) ∧
    (∀ (a : Decimal) (n : Int64), exact a = .ok n ↔ a.value = n.toInt / 10 ^ amountPlaces) ∧
    (∀ n : Int64, rounded (toDecimal n) = .ok n) ∧
    ∀ rate e amount, Credit.amount? rate e = some amount →
      (∀ failure, exact amount ≠ .error (.backend failure)) ∧
      ∀ x createdAt (k : Ledger.Keyed) d,
        (k.create (.ofEvent e x amount createdAt) amount).1 ≠ .error (.backend (.tooManyPlaces d)) := by
  refine ⟨fun a => ?_, fun _ _ => exact_eq_ok_iff, fun n => rounded_of_value (value_toDecimal n),
    fun rate e amount h => ⟨exact_amount?_ne_backend h, fun x createdAt k d hrefused => ?_⟩⟩
  · obtain ⟨m, hm⟩ := exists_isRounded a
    exact ⟨m, hm, rounded_eq hm, exact_eq hm⟩
  · exact exact_amount?_ne_backend h _ (exact_of_create hrefused)

/-- Three and a half units at a third of a credit: the three are billed as a whole credit. -/
theorem thirds_are_counted : ∃ amount,
    Credit.amount? ⟨3333333333333333333333333333, 28, by decide, by decide⟩
      (Event.monetary Uuid.nil "u" ⟨35, 1, by decide, by decide⟩ .starship Instant.epoch).withRawUnits = some amount ∧
    exact amount = .ok 1000000 ∧ ∀ failure, exact amount ≠ .error (.backend failure) := by
  have hamount : Credit.amount? ⟨3333333333333333333333333333, 28, by decide, by decide⟩
      (Event.monetary Uuid.nil "u" ⟨35, 1, by decide, by decide⟩ .starship Instant.epoch).withRawUnits =
        some ⟨1000000, 6, by decide, by decide⟩ := by decide +kernel
  exact ⟨_, hamount, by decide +kernel, (counting_is_exact.2.2.2 _ _ _ hamount).1⟩

end UsageLedger.MicroCredit
