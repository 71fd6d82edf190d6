import UsageLedger.Event

/-! Credits: what an event costs. A monetary value is taken as it is, and of raw units the whole ones are
converted at a rate; either is billed to six places. -/

namespace UsageLedger.Credit

/-- The rate of a consumer that is not configured: a thousandth of a credit for a unit. -/
def defaultRate : Decimal := ⟨1, 3, by decide, by decide⟩

/-- The value of an event in credits; none when the product has no decimal. -/
def convert? (rate : Decimal) (e : Event) : Option Decimal :=
  match e.kind with
  | .monetary => some e.value
  | .rawUnit => e.value.trunc.mul? rate

/-- The amount that an event is billed at. -/
def amount? (rate : Decimal) (e : Event) : Option Decimal :=
  (convert? rate e).map fun credits => credits.round amountPlaces

/-- An amount is billed to at most six places. -/
theorem scale_le_of_amount? {rate : Decimal} {e : Event} {a : Decimal} (h : amount? rate e = some a) :
    a.scale ≤ amountPlaces := by
  obtain ⟨credits, _, rfl⟩ := Option.map_eq_some_iff.1 h
  exact Decimal.round_scale_le _ _

/-- Money is never converted, so it always has an amount. -/
theorem amount?_monetary {rate : Decimal} {e : Event} (h : e.kind = .monetary) :
    amount? rate e = some (e.value.round amountPlaces) := by
  simp [amount?, convert?, h]

end UsageLedger.Credit
