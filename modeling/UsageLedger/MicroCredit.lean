import UsageLedger.Error
import UsageLedger.Power

/-! Micro-credits: amounts as whole numbers of millionths, in 64 bits, for a store that counts in
integers. -/

namespace UsageLedger.MicroCredit

/-- A million, the micro-credits of a credit. -/
def perCredit : Decimal := ⟨1000000, 0, by decide, Decimal.zero.scale_le⟩

/-- A whole number in the range of 64 bits with a sign. -/
def ofInteger? (n : Int) : Option Int64 :=
  if -(2 ^ 63) ≤ n ∧ n < 2 ^ 63 then some (Int64.ofInt n) else none

/-- The amount in micro-credits, rounded to a whole number with a half to the even one. -/
def rounded (amount : Decimal) : Except Error Int64 :=
  match (amount.mul? perCredit).bind fun scaled => ofInteger? (scaled.round 0).coefficient with
  | some n => .ok n
  | none => .error (.storage (.outOfRange amount))

/-- The amount of a number of micro-credits. -/
def toDecimal (n : Int64) : Decimal where
  coefficient := n.toInt
  scale := amountPlaces
  coefficient_lt := by
    have low := n.le_toInt
    have high := n.toInt_lt
    omega
  scale_le := by decide

/-- The amount in micro-credits, if it is a whole number of them. -/
def exact (amount : Decimal) : Except Error Int64 :=
  match rounded amount with
  | .error e => .error e
  | .ok n => if (toDecimal n).same amount then .ok n else .error (.backend (.tooManyPlaces amount))

end UsageLedger.MicroCredit
