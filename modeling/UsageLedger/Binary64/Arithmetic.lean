import UsageLedger.Binary64

/-! Floating-point arithmetic. An operation gives the value nearest to its exact result, so a computation in several
steps rounds several times. -/

namespace UsageLedger.Binary64

/-- The value nearest to `significand * 2 ^ exponent`. -/
def ofBinary (negative : Bool) (significand : Nat) (exponent : Int) : Binary64 :=
  ofRatio negative (significand * 2 ^ exponent.toNat) (2 ^ (-exponent).toNat)

/-- The value nearest to a natural number. -/
def ofNat (n : Nat) : Binary64 := ofRatio false n 1

def neg : Binary64 → Binary64
  | finite negative m e => finite (!negative) m e
  | infinite negative => infinite (!negative)
  | nan => nan

/-- A number with a minus sign put in front of it, or left as it is. -/
def withSign (x : Binary64) (negative : Bool) : Binary64 := if negative then x.neg else x

def add : Binary64 → Binary64 → Binary64
  | finite s m e, finite t n k =>
    let low := min e k
    let left : Int := m * 2 ^ (e - low).toNat
    let right : Int := n * 2 ^ (k - low).toNat
    let sum := (if s then -left else left) + (if t then -right else right)
    if sum = 0 then finite (s && t) 0 (-1074) else ofBinary (sum < 0) sum.natAbs low
  | finite _ _ _, infinite t => infinite t
  | infinite s, finite _ _ _ => infinite s
  | infinite s, infinite t => if s = t then infinite s else nan
  | nan, _ => nan
  | _, nan => nan

def mul : Binary64 → Binary64 → Binary64
  | finite s m e, finite t n k => ofBinary (s != t) (m * n) (e + k)
  | finite s m _, infinite t => if m = 0 then nan else infinite (s != t)
  | infinite s, finite t n _ => if n = 0 then nan else infinite (s != t)
  | infinite s, infinite t => infinite (s != t)
  | nan, _ => nan
  | _, nan => nan

def div : Binary64 → Binary64 → Binary64
  | finite s m e, finite t n k =>
    if n ≠ 0 then ofRatio (s != t) (m * 2 ^ (e - k).toNat) (n * 2 ^ (k - e).toNat)
    else if m ≠ 0 then infinite (s != t)
    else nan
  | finite s _ _, infinite t => finite (s != t) 0 (-1074)
  | infinite s, finite t _ _ => infinite (s != t)
  | infinite _, infinite _ => nan
  | nan, _ => nan
  | _, nan => nan

/-- The nearest whole number, a half away from zero. -/
def roundAway : Binary64 → Binary64
  | finite negative m e =>
    if 0 ≤ e then finite negative m e
    else ofRatio negative ((2 * m + 2 ^ (-e).toNat) / (2 * 2 ^ (-e).toNat)) 1
  | x => x

end UsageLedger.Binary64
