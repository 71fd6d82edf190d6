import UsageLedger.Rounding
import UsageLedger.Text.Digits

/-! Binary floating point with 53 bits of precision, as exact numbers: a finite value is a sign, a
whole significand and a power of two. Reading rounds to the nearest value, a half to the even
neighbour, and writing takes the fewest decimal digits that read back, the nearest of them when there
are several. Nothing here rounds twice. -/

namespace UsageLedger

/-- A floating-point number. The finite value is `significand * 2 ^ exponent`, with a significand below
`2 ^ 53` that is as large as an exponent of at least `-1074` allows. -/
inductive Binary64
  | finite (negative : Bool) (significand : Nat) (exponent : Int)
  | infinite (negative : Bool)
  | nan
  deriving DecidableEq, Repr

namespace Binary64

/-- The ratio `num / den * 2 ^ (-e)` as a ratio of naturals. -/
def scaled (num den : Nat) (e : Int) : Nat × Nat :=
  if 0 ≤ e then (num, den * 2 ^ e.toNat) else (num * 2 ^ (-e).toNat, den)

/-- The exponent at which a positive ratio has a significand of 53 bits, or `-1074` if that is larger. -/
def exponentOf (num den : Nat) : Int :=
  let guess : Int := (Nat.log2 num : Int) - Nat.log2 den - 52
  let (n, d) := scaled num den guess
  let exact := if n / d < 2 ^ 52 then guess - 1 else guess
  max exact (-1074)

/-- The value nearest to a positive ratio; beyond the largest finite value it is infinite. -/
def ofRatio (negative : Bool) (num den : Nat) : Binary64 :=
  if num = 0 then finite negative 0 (-1074)
  else
    let e := exponentOf num den
    let (n, d) := scaled num den e
    let m := roundQuotient n d
    let (m, e) := if m = 2 ^ 53 then (2 ^ 52, e + 1) else (m, e)
    if 971 < e then infinite negative else finite negative m e

/-- The value nearest to `digits * 10 ^ exponent`. Exponents at which the answer is zero or infinite
whatever the digits are settled without computing the power. -/
def ofScientific (negative : Bool) (digits : Nat) (exponent : Int) : Binary64 :=
  if digits = 0 then finite negative 0 (-1074)
  else
    let magnitude : Int := exponent + (Text.digits digits).length
    if magnitude < -330 then finite negative 0 (-1074)
    else if 311 < magnitude then infinite negative
    else if 0 ≤ exponent then ofRatio negative (digits * 10 ^ exponent.toNat) 1
    else ofRatio negative digits (10 ^ (-exponent).toNat)

/-- Decimal digits with an exponent: `digits * 10 ^ exponent`. -/
structure Scientific where
  digits : Nat
  exponent : Int
  deriving DecidableEq, Repr

/-- The reals that round to a finite value: the ends are given in units of a quarter of the last
binary place, and belong to the interval when `closed`. -/
structure Interval where
  low : Nat
  high : Nat
  closed : Bool

/-- The interval of a significand. Below a power of two the lower neighbour is half as far away. -/
def interval (significand : Nat) (exponent : Int) : Interval where
  low := if significand = 2 ^ 52 ∧ -1074 < exponent then 4 * significand - 1 else 4 * significand - 2
  high := 4 * significand + 2
  closed := significand % 2 = 0

/-- Whether `d * 10 ^ p` lies in an interval of quarters of `2 ^ exponent`. -/
def Interval.contains (i : Interval) (exponent : Int) (d : Nat) (p : Int) : Bool :=
  let (n, k) := if 0 ≤ p then (d * 10 ^ p.toNat, 1) else (d, 10 ^ (-p).toNat)
  let (n, k) := scaled (4 * n) k exponent
  if i.closed then i.low * k ≤ n && n ≤ i.high * k else i.low * k < n && n < i.high * k

/-- The multiples of `10 ^ p` just below and just above a value, with twice the excess of the value
over the lower one compared to the step: less, equal or greater. -/
def neighbours (significand : Nat) (exponent p : Int) : Nat × Ordering :=
  let n := significand * 2 ^ exponent.toNat
  let d := 2 ^ (-exponent).toNat
  let (n, d) := if 0 ≤ p then (n, d * 10 ^ p.toNat) else (n * 10 ^ (-p).toNat, d)
  (n / d, compare (2 * (n % d)) d)

/-- The multiple of `10 ^ p` that reads back, the nearer one if two do, an even one if both are as near. -/
def onGrid? (significand : Nat) (exponent p : Int) : Option Nat :=
  let i := interval significand exponent
  let (below, side) := neighbours significand exponent p
  let lowFits := 0 < below && i.contains exponent below p
  let highFits := i.contains exponent (below + 1) p
  match lowFits, highFits with
  | false, false => none
  | true, false => some below
  | false, true => some (below + 1)
  | true, true =>
    match side with
    | .lt => some below
    | .gt => some (below + 1)
    | .eq => some (if below % 2 = 0 then below else below + 1)

/-- Digits without trailing zeros; their number bounds the steps. -/
def stripZeros (s : Scientific) : Scientific :=
  if s.digits ≠ 0 ∧ s.digits % 10 = 0 then stripZeros ⟨s.digits / 10, s.exponent + 1⟩ else s
termination_by s.digits
decreasing_by omega

/-- The exponent of the leading decimal digit of a positive ratio: the number of decimal places that the
ratio has to be moved to lie in `[1, 10)`. -/
def leadingPlace (num den : Nat) : Int :=
  if den ≤ num then ((Text.digits (num / den)).length : Int) - 1
  else
    let places := (Text.digits (den / num)).length
    if den ≤ num * 10 ^ (places - 1) then -((places : Int) - 1) else -(places : Int)

/-- The fewest digits that read back as a positive finite value. Seventeen always do. -/
def shortest (significand : Nat) (exponent : Int) : Scientific :=
  let top := leadingPlace (significand * 2 ^ exponent.toNat) (2 ^ (-exponent).toNat)
  let found := (List.range 17).findSome? fun (k : Nat) =>
    (onGrid? significand exponent (top - k)).map fun d => stripZeros ⟨d, top - k⟩
  found.getD ⟨0, 0⟩

/-- The decimal digits of a value and the place of its point, counted from the first digit. -/
def pointed (s : Scientific) : List Char × Int :=
  let ds := Text.digits s.digits
  (ds, s.exponent + ds.length)

/-- Digits with a point at a place, zeros filling the gap; `tail` stands for an absent fraction. -/
def positional (ds : List Char) (place : Int) (tail : List Char) : List Char :=
  if place ≤ 0 then ['0', '.'] ++ List.replicate (-place).toNat '0' ++ ds
  else if place < ds.length then ds.take place.toNat ++ '.' :: ds.drop place.toNat
  else ds ++ List.replicate (place.toNat - ds.length) '0' ++ tail

/-- Digits with an exponent: one digit before the point, and a plus sign on a positive exponent. -/
def exponential (ds : List Char) (place : Int) : List Char :=
  let fraction := if ds.length ≤ 1 then [] else '.' :: ds.drop 1
  let e := place - 1
  ds.take 1 ++ fraction ++ 'e' :: (if 0 ≤ e then '+' :: Text.signed e else Text.signed e)

def toText : Binary64 → List Char
  | finite negative m e =>
    let body :=
      if m = 0 then ['0', '.', '0']
      else
        let (ds, place) := pointed (shortest m e)
        if -4 ≤ place ∧ place ≤ 16 then positional ds place ['.', '0'] else exponential ds place
    if negative then '-' :: body else body
  | infinite negative => if negative then "-inf".toList else "inf".toList
  | nan => "NaN".toList

/-- The plain text of a number: no exponent ever, and no point in a whole number. -/
def toPlainText : Binary64 → List Char
  | finite negative m e =>
    let body :=
      if m = 0 then ['0']
      else
        let (ds, place) := pointed (shortest m e)
        positional ds place []
    if negative then '-' :: body else body
  | infinite negative => if negative then "-inf".toList else "inf".toList
  | nan => "NaN".toList

end Binary64

end UsageLedger
