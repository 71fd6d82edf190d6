import UsageLedger.Rounding

/-! Fixed-point decimals: a whole coefficient of at most 96 bits and a scale of at most 28 places. The
scale is kept, so `1.50` and `1.5` are different decimals of equal value; a zero has no sign. -/

namespace UsageLedger

/-- The decimal `coefficient / 10 ^ scale`. -/
@[ext] structure Decimal where
  coefficient : Int
  scale : Nat
  coefficient_lt : coefficient.natAbs < 2 ^ 96
  scale_le : scale ≤ 28
  deriving DecidableEq, Repr

namespace Decimal

/-- A coefficient and a scale as a decimal, if both are in range. -/
def mk? (coefficient : Int) (scale : Nat) : Option Decimal :=
  if h : coefficient.natAbs < 2 ^ 96 ∧ scale ≤ 28 then some ⟨coefficient, scale, h.1, h.2⟩ else none

/-- The zero without places. -/
def zero : Decimal := ⟨0, 0, by decide, by decide⟩

instance : Inhabited Decimal := ⟨zero⟩

/-- Whether the value is zero, whatever the scale. -/
def isZero (a : Decimal) : Bool := a.coefficient == 0

def compare (a b : Decimal) : Ordering :=
  Ord.compare (a.coefficient * 10 ^ b.scale) (b.coefficient * 10 ^ a.scale)

def same (a b : Decimal) : Bool := a.coefficient * 10 ^ b.scale == b.coefficient * 10 ^ a.scale

def isNonpositive (a : Decimal) : Bool := a.coefficient ≤ 0

def isNegative (a : Decimal) : Bool := a.coefficient < 0

/-- A coefficient at a scale with `cut` places dropped, rounded once, a half to the even neighbour. -/
def cut? (coefficient : Int) (scale cut : Nat) : Option Decimal :=
  if cut ≤ scale then mk? (roundSigned coefficient (10 ^ cut)) (scale - cut) else none

/-- The decimal nearest to `coefficient / 10 ^ scale` with the fewest places dropped; none if even the
whole number has too many bits. -/
def fit? (coefficient : Int) (scale : Nat) : Option Decimal :=
  (List.range (scale + 1)).findSome? (cut? coefficient scale)

/-- The sum, as long as it has a decimal. A zero leaves the other operand as it is. -/
def add? (a b : Decimal) : Option Decimal :=
  if a.isZero then some b
  else if b.isZero then some a
  else
    let scale := max a.scale b.scale
    fit? (a.coefficient * 10 ^ (scale - a.scale) + b.coefficient * 10 ^ (scale - b.scale)) scale

/-- The product, as long as it has a decimal. A zero factor gives the plain zero, and so do two factors
of at most 32 bits whose places together exceed 47. -/
def mul? (a b : Decimal) : Option Decimal :=
  if a.isZero || b.isZero then some zero
  else if a.coefficient.natAbs < 2 ^ 32 ∧ b.coefficient.natAbs < 2 ^ 32 ∧ 47 < a.scale + b.scale then
    some zero
  else fit? (a.coefficient * b.coefficient) (a.scale + b.scale)

theorem natAbs_tdiv_le (c : Int) (n : Nat) : (c.tdiv n).natAbs ≤ c.natAbs := by
  rw [Int.natAbs_tdiv]
  exact Nat.div_le_self _ _

/-- The whole part, the fraction dropped. -/
def trunc (a : Decimal) : Decimal where
  coefficient := a.coefficient.tdiv (10 ^ a.scale : Nat)
  scale := 0
  coefficient_lt := Nat.lt_of_le_of_lt (natAbs_tdiv_le _ _) a.coefficient_lt
  scale_le := Nat.zero_le _

theorem roundQuotient_le (num : Nat) {den : Nat} (h : 2 ≤ den) : roundQuotient num den ≤ num := by
  by_cases zero : num = 0
  · simp [zero, roundQuotient_zero]
  · have lt : num / den < num := Nat.div_lt_self (by omega) h
    simp only [roundQuotient]
    split
    · omega
    · split
      · omega
      · split <;> omega

theorem natAbs_roundSigned (c : Int) (den : Nat) : (roundSigned c den).natAbs = roundQuotient c.natAbs den := by
  unfold roundSigned
  split <;> simp

/-- The value rounded to a number of places, a half to the even neighbour; a decimal with no more
places than that is left as it is. -/
def round (a : Decimal) (places : Nat) : Decimal :=
  if h : a.scale ≤ places then a
  else
    { coefficient := roundSigned a.coefficient (10 ^ (a.scale - places))
      scale := places
      coefficient_lt := by
        rw [natAbs_roundSigned]
        have step : 10 ^ 1 ≤ 10 ^ (a.scale - places) := Nat.pow_le_pow_right (by decide) (by omega)
        exact Nat.lt_of_le_of_lt (roundQuotient_le _ (by omega)) a.coefficient_lt
      scale_le := by have := a.scale_le; omega }

theorem round_scale_le (a : Decimal) (places : Nat) : (a.round places).scale ≤ places := by
  unfold round
  split <;> simp_all

theorem round_eq_self {a : Decimal} {places : Nat} (h : a.scale ≤ places) : a.round places = a := by
  simp [round, h]

theorem mk?_eq_some {c : Int} {s : Nat} {d : Decimal} :
    mk? c s = some d ↔ d.coefficient = c ∧ d.scale = s := by
  unfold mk?
  split
  · rename_i h
    constructor
    · rintro ⟨rfl⟩
      exact ⟨rfl, rfl⟩
    · rintro ⟨rfl, rfl⟩
      rfl
  · rename_i h
    simp only [reduceCtorEq, false_iff, not_and]
    rintro rfl rfl
    exact h ⟨d.coefficient_lt, d.scale_le⟩

/-- Dropping places within a 96-bit coefficient; the whole of a small sum or product comes back as it is. -/
theorem fit?_of_lt {c : Int} {s : Nat} (hc : c.natAbs < 2 ^ 96) (hs : s ≤ 28) :
    fit? c s = some ⟨c, s, hc, hs⟩ := by
  have round_one : roundSigned c 1 = c := by
    have one : roundQuotient c.natAbs 1 = c.natAbs := by
      simpa using roundQuotient_mul Nat.one_pos c.natAbs
    unfold roundSigned
    rw [one]
    split <;> omega
  have whole : cut? c s 0 = mk? c s := by simp [cut?, round_one]
  have first : cut? c s 0 = some ⟨c, s, hc, hs⟩ := whole.trans (dif_pos ⟨hc, hs⟩)
  unfold fit?
  rw [List.range_succ_eq_map, List.findSome?_cons, first]

end Decimal

end UsageLedger
