import UsageLedger.Power

/-! Rounding quotients to whole numbers, a half to the even neighbour. -/

namespace UsageLedger

/-- The quotient of two naturals rounded to the nearest natural, a half to the even one. -/
def roundQuotient (num den : Nat) : Nat :=
  let q := num / den
  let r := num % den
  if 2 * r < den then q
  else if den < 2 * r then q + 1
  else if q % 2 = 0 then q else q + 1

/-- The quotient of an integer by a natural rounded to the nearest integer, a half to the even one. -/
def roundSigned (num : Int) (den : Nat) : Int :=
  if num < 0 then -(roundQuotient num.natAbs den : Int) else roundQuotient num.natAbs den

theorem roundQuotient_zero (den : Nat) : roundQuotient 0 den = 0 := by
  simp [roundQuotient]

/-- A whole quotient is left alone. -/
theorem roundQuotient_mul {den : Nat} (h : 0 < den) (q : Nat) : roundQuotient (q * den) den = q := by
  simp [roundQuotient, Nat.mul_div_cancel q h, Nat.mul_mod_left, h]

/-- The rounded quotient is within half a unit of the exact one. -/
theorem roundQuotient_near {den : Nat} (h : 0 < den) (num : Nat) :
    2 * num ≤ (2 * roundQuotient num den + 1) * den ∧
      2 * roundQuotient num den * den ≤ 2 * num + den := by
  have whole := Nat.div_add_mod num den
  have small := Nat.mod_lt num h
  rw [Nat.mul_comm] at whole
  simp only [roundQuotient]
  split
  · simp only [Nat.add_mul, Nat.mul_assoc]; omega
  · split
    · simp only [Nat.add_mul, Nat.mul_add, Nat.mul_assoc]; omega
    · split <;> simp only [Nat.add_mul, Nat.mul_add, Nat.mul_assoc] <;> omega

end UsageLedger
