import UsageLedger.Binary64.Arithmetic
import UsageLedger.Decimal.Basic

/-! Decimals as text. A decimal is written with all its places, so the text shows the scale. A text that
is read may leave out either side of the point, hold underscores after its first digit and end in an
exponent; places beyond what a coefficient holds are rounded away, a half upwards in magnitude. -/

namespace UsageLedger.Decimal

/-- The digits of a magnitude with a point before the last `scale` of them. -/
def pointed (magnitude scale : Nat) : List Char :=
  if scale = 0 then Text.digits magnitude
  else
    let ds := Text.padded (scale + 1) magnitude
    ds.take (ds.length - scale) ++ '.' :: ds.drop (ds.length - scale)

def toText (a : Decimal) : List Char :=
  if a.coefficient < 0 then '-' :: pointed a.coefficient.natAbs a.scale
  else pointed a.coefficient.natAbs a.scale

/-- How far a text has been read: the coefficient and scale so far, whether a digit or the point has been
met, and whether the value is settled, so that further digits no longer count. -/
structure Progress where
  magnitude : Nat
  scale : Nat
  anyDigit : Bool
  point : Bool
  settled : Bool
  deriving DecidableEq, Repr

def Progress.start : Progress := ⟨0, 0, false, false, false⟩

/-- Settles the value on the first digit that no longer fits: from five on it rounds up, and a
coefficient that outgrows 96 bits by that loses its last place. -/
def Progress.settle? (p : Progress) (d : Nat) : Option Progress :=
  if d < 5 then some { p with settled := true }
  else if p.magnitude + 1 < 2 ^ 96 then
    some { p with magnitude := p.magnitude + 1, settled := true }
  else if p.scale = 0 then none
  else some { p with magnitude := (p.magnitude + 5) / 10, scale := p.scale - 1, settled := true }

def Progress.digit? (p : Progress) (d : Nat) : Option Progress :=
  if p.settled then some p
  else if p.point && 28 ≤ p.scale then p.settle? d
  else if 10 * p.magnitude + d < 2 ^ 96 then
    some { p with
      magnitude := 10 * p.magnitude + d
      scale := if p.point then p.scale + 1 else p.scale
      anyDigit := true }
  else if p.point then p.settle? d
  else none

def Progress.step? (p : Progress) (c : Char) : Option Progress :=
  if c.isDigit then p.digit? (Text.digitValue c)
  else if c = '.' then if p.point then none else some { p with point := true }
  else if c = '_' then if p.anyDigit then some p else none
  else none

/-- The decimal that has been read, once there was a digit. -/
def Progress.finish? (p : Progress) (negative : Bool) : Option Decimal :=
  if p.anyDigit then mk? (if negative then -(p.magnitude : Int) else p.magnitude) p.scale else none

/-- Reads a decimal without an exponent. -/
def ofPlain? (cs : List Char) : Option Decimal := do
  let (negative, body) := Text.splitSign cs
  let p ← body.foldlM Progress.step? Progress.start
  p.finish? negative

/-- Takes trailing zeros off the places. -/
def stripPlaces (coefficient : Int) : Nat → Int × Nat
  | 0 => (coefficient, 0)
  | scale + 1 =>
    if coefficient % 10 = 0 then stripPlaces (coefficient / 10) scale else (coefficient, scale + 1)

/-- The decimal with trailing zeros taken off its places. -/
def normalize? (a : Decimal) : Option Decimal :=
  if a.isZero then some zero
  else
    let (c, s) := stripPlaces a.coefficient a.scale
    mk? c s

/-- An exponent: up to 32 bits, with a plus sign at will. -/
def readExponent? (cs : List Char) : Option Nat := do
  let n ← Text.natural? (match cs with | '+' :: r => r | _ => cs)
  if n < 2 ^ 32 then some n else none

/-- Moves the point of a decimal. To the left, and to the right within its places, only the scale
changes; further to the right the coefficient grows, and zeros behind the point are dropped. -/
def shift? (a : Decimal) : List Char → Option Decimal
  | '-' :: cs => do
    let e ← readExponent? cs
    mk? a.coefficient (a.scale + e)
  | cs => do
    let e ← readExponent? cs
    if e ≤ a.scale then mk? a.coefficient (a.scale - e)
    else if 28 < e then none
    else
      let power ← mk? (10 ^ e) 0
      let moved ← a.mul? power
      moved.normalize?

/-- Reads a decimal with an exponent. -/
def ofExponential? (cs : List Char) : Option Decimal :=
  let isMark := fun c : Char => c == 'e' || c == 'E'
  match cs.dropWhile (fun c => !isMark c) with
  | [] => none
  | _ :: exponent => do
    let base ← ofPlain? (cs.takeWhile fun c => !isMark c)
    base.shift? exponent

def ofText? (cs : List Char) : Option Decimal :=
  match ofPlain? cs with
  | some a => some a
  | none => ofExponential? cs

/-- A magnitude with its places as a floating-point number. What stands on the two sides of the point is added up, and
the sum is cut off behind the last place; each step rounds. -/
def floatOf (magnitude scale : Nat) : Binary64 :=
  let power := 10 ^ scale
  let whole := Binary64.ofNat (magnitude / power)
  if magnitude % power = 0 then whole
  else
    let sum := whole.add ((Binary64.ofNat (magnitude % power)).div (.ofNat power))
    (sum.mul (.ofNat power)).roundAway.div (.ofNat power)

def toBinary64 (a : Decimal) : Binary64 := (floatOf a.coefficient.natAbs a.scale).withSign (a.coefficient < 0)

/-- The decimal that a floating-point number shows in its plain text. -/
def ofBinary64? (x : Binary64) : Option Decimal := ofText? x.toPlainText

end UsageLedger.Decimal
