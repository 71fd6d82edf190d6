import UsageLedger.Text.Digits

/-! Spans of time as text: in seconds from one second on and in milliseconds below, without trailing
zeros behind the point. -/

namespace UsageLedger.Text

/-- Digits without the zeros at their end. -/
def dropTrailingZeros (cs : List Char) : List Char := (cs.reverse.dropWhile (· == '0')).reverse

def span (ms : Nat) : List Char :=
  if ms = 0 then "0ns".toList
  else if ms < 1000 then digits ms ++ "ms".toList
  else
    let fraction := dropTrailingZeros (padded 3 (ms % 1000))
    digits (ms / 1000) ++ (if fraction = [] then [] else '.' :: fraction) ++ ['s']

end UsageLedger.Text
