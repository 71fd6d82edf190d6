import UsageLedger.MicroCredit
import UsageLedger.Proofs.Decimal.Sum
import UsageLedger.Proofs.Ledger.Posting

/-! What a posting does with its delta. The ledger in memory keeps balances as decimals, and asks of a new
balance only that it is not too large. A balance that no decimal has is then rounded without a word; the
statement keeps the whole amount. -/

namespace UsageLedger.Ledger

open InMemory

/-- A posting that is refused changes nothing, and one that succeeds is of a new event on an account that exists.
Such a posting is refused exactly when the balance after it is too large for a decimal, and then says so.
Otherwise it succeeds; the new balance is the old one and the delta exactly if any decimal is, and else it is
off by half a unit of its last place at most, and by one part in `2 ^ 93` at most. -/
theorem posting_exact_iff_decimal (m : InMemory) (s : Statement) (delta : Decimal) :
    (∀ e, (serve (.create s delta) m).1 = .error e → (serve (.create s delta) m).2 = m) ∧
    ((serve (.create s delta) m).1 = .ok () → m.find? s.event = none ∧ (m.account? s.user).isSome) ∧
    ∀ a, m.find? s.event = none → m.account? s.user = some a →
      if 2 ^ 97 - 1 ≤ 2 * |a.balance.value + delta.value| then
        serve (.create s delta) m = (.error (.backend (.overflow s.user delta)), m)
      else
        (serve (.create s delta) m).1 = .ok () ∧
        ∃ b, (serve (.create s delta) m).2.account? s.user = some ⟨s.user, b⟩ ∧
          (b.value = a.balance.value + delta.value ↔ ∃ d : Decimal, d.value = a.balance.value + delta.value) ∧
          2 * |b.value - (a.balance.value + delta.value)| ≤ 1 / 10 ^ b.scale ∧
          2 ^ 93 * |b.value - (a.balance.value + delta.value)| ≤ |a.balance.value + delta.value| := by
  refine ⟨fun e he => ?_, fun hok => ?_, ?_⟩
  · cases hcreate : m.create s delta with
    | error e' => rw [serve_create_error hcreate]
    | ok m' =>
        rw [serve_create_eq hcreate] at he
        cases he
  · cases hcreate : m.create s delta with
    | error e' =>
        rw [serve_create_error hcreate] at hok
        cases hok
    | ok m' =>
        obtain ⟨hnew, a, b, ha, -⟩ := create_eq_ok hcreate
        exact ⟨hnew, Option.isSome_iff_exists.2 ⟨a, ha⟩⟩
  · intro a hnew ha
    split
    · rename_i hlarge
      exact serve_create_error (create_of_add?_eq_none hnew ha (Decimal.add?_eq_none_iff.2 hlarge))
    · rename_i hsmall
      obtain ⟨b, hb⟩ := Option.ne_none_iff_exists'.1 (mt Decimal.add?_eq_none_iff.1 hsmall)
      obtain ⟨m', hm'⟩ := create_of_add? hnew ha hb
      obtain ⟨-, a', b', ha', hb', -, haccounts⟩ := create_eq_ok hm'
      obtain rfl : a = a' := Option.some.inj (ha.symm.trans ha')
      obtain rfl : b = b' := Option.some.inj (hb.symm.trans hb')
      rw [serve_create_eq hm']
      refine ⟨rfl, b, by rw [haccounts, if_pos rfl], ?_, Decimal.add?_near hb⟩
      rw [← Decimal.add?_exact_iff, hb]
      simp

/-- A ledger with one large account. -/
def hoard : InMemory := InMemory.empty.seed ⟨"u", ⟨100000000000000000000000, 0, by decide, Decimal.zero.scale_le⟩⟩

/-- A credit of one micro-credit. -/
def mite : Statement where
  event := ⟨1⟩
  user := "u"
  value := MicroCredit.toDecimal 1
  amount := MicroCredit.toDecimal 1
  scene := .space
  operator := 0
  customer := ""
  eventDate := Instant.epoch
  price := ""
  priceUnit := ""
  consumption := Decimal.zero
  duration := ""
  createdAt := Instant.epoch

/-- A credit of one micro-credit is posted to the large account, whose balance stays what it was. -/
theorem hoard_loses_mite : ∃ a b, hoard.account? "u" = some a ∧
    (serve (.create mite mite.amount) hoard).1 = .ok () ∧
    (serve (.create mite mite.amount) hoard).2.account? "u" = some b ∧
    b.balance.value = a.balance.value ∧ b.balance.value ≠ a.balance.value + mite.amount.value := by
  refine ⟨⟨"u", ⟨100000000000000000000000, 0, by decide, by decide⟩⟩,
    ⟨"u", ⟨10000000000000000000000000000, 5, by decide, by decide⟩⟩, by decide +kernel, rfl,
    by decide +kernel, ?_, ?_⟩
  · norm_num [Decimal.value]
  · have hmite : mite.amount.value = 1 / 10 ^ 6 := by
      change ((1 : Int) : Rat) / 10 ^ 6 = _
      norm_num
    rw [hmite]
    norm_num [Decimal.value]

/-- A delta of one ten-thousandth still fits the large balance, and is posted exactly. -/
theorem hoard_takes_hundredth : ∃ b,
    (serve (.create mite ⟨1, 4, by decide, by decide⟩) hoard).2.account? "u" = some ⟨"u", b⟩ ∧
    b.value = 100000000000000000000000 + 1 / 10 ^ 4 := by
  have hposting := (posting_exact_iff_decimal hoard mite ⟨1, 4, by decide, by decide⟩).2.2
    ⟨"u", ⟨100000000000000000000000, 0, by decide, by decide⟩⟩ (by decide +kernel) (by decide +kernel)
  rw [if_neg (by norm_num [Decimal.value])] at hposting
  obtain ⟨-, b, hb, hexact, -⟩ := hposting
  refine ⟨b, hb, ?_⟩
  rw [hexact.2 ⟨⟨1000000000000000000000000001, 4, by decide, by decide⟩, by norm_num [Decimal.value]⟩]
  norm_num [Decimal.value]

end UsageLedger.Ledger
