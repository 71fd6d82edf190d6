import UsageLedger.Power

/-! Pages of a listing, numbered from one. Sizes and numbers have 64 bits, and an offset beyond that range
stops at its end. -/

namespace UsageLedger.Ledger

/-- Which page of a listing is wanted. -/
structure Page where
  size : UInt64
  number : UInt64
  deriving DecidableEq, Repr

namespace Page

/-- How many items come before a page; page zero is taken for page one. -/
def offset (p : Page) : UInt64 :=
  UInt64.ofNat (min ((p.number.toNat - 1) * p.size.toNat) (2 ^ 64 - 1))

/-- The items of a page. -/
def slice {α : Type} (p : Page) (items : List α) : List α :=
  (items.drop p.offset.toNat).take p.size.toNat

theorem toNat_offset (p : Page) :
    p.offset.toNat = min ((p.number.toNat - 1) * p.size.toNat) (2 ^ 64 - 1) := by
  rw [offset, UInt64.toNat_ofNat_of_lt']
  exact Nat.lt_of_le_of_lt (Nat.min_le_right _ _) (by decide)

/-- Page zero is page one. -/
theorem offset_zero (size : UInt64) : offset ⟨size, 0⟩ = offset ⟨size, 1⟩ := by
  simp [offset]

end Page

end UsageLedger.Ledger
