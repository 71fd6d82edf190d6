import UsageLedger.Instant.Calendar

/-! Instants of Coordinated Universal Time to the nanosecond. A leap second is the second after a
minute's last one and is kept as such: its nanoseconds run on beyond a full second. -/

namespace UsageLedger

/-- An instant: the day since 1970, the second of the day, and the nanoseconds past that second. From
`10 ^ 9` nanoseconds on it lies in a leap second, which only follows the last second of a minute. -/
@[ext] structure Instant where
  day : Int
  second : Nat
  nano : Nat
  day_ge : -96465292 ≤ day
  day_le : day ≤ 95026236
  second_lt : second < 86400
  nano_lt : nano < 2000000000
  leap : 1000000000 ≤ nano → second % 60 = 59
  deriving DecidableEq, Repr

namespace Instant

/-- An instant from its parts, if they are in range: the years run from -262143 to 262142. -/
def mk? (day : Int) (second nano : Nat) : Option Instant :=
  if h : (-96465292 ≤ day ∧ day ≤ 95026236) ∧ second < 86400 ∧ nano < 2000000000 ∧
      (1000000000 ≤ nano → second % 60 = 59) then
    some ⟨day, second, nano, h.1.1, h.1.2, h.2.1, h.2.2.1, h.2.2.2⟩
  else none

/-- Midnight of the first of January 1970. -/
def epoch : Instant := ⟨0, 0, 0, by decide, by decide, by decide, by decide, by decide⟩

instance : Inhabited Instant := ⟨epoch⟩

/-- The order in time; a leap second comes after the second it follows and before the next minute. -/
def compare (a b : Instant) : Ordering :=
  (Ord.compare a.day b.day).then ((Ord.compare a.second b.second).then (Ord.compare a.nano b.nano))

def le (a b : Instant) : Bool := a.compare b != .gt

/-- Milliseconds since 1970, the rest of a millisecond dropped. A leap second shares its count with the
second that follows it. -/
def toMillis (a : Instant) : Int := (a.day * 86400 + a.second) * 1000 + a.nano / 1000000

end Instant

end UsageLedger
