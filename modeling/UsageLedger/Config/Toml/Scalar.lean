import UsageLedger.Config.Toml.Text
import UsageLedger.Instant.Calendar
import UsageLedger.Power

/-! Numbers, truth values, dates and times in a TOML file. A date or a time is kept as text. -/

namespace UsageLedger.Config.Toml

/-- Digits with single underscores between them. -/
def joinedDigits? (isDigit : Char → Bool) (cs : List Char) : Option (List Char) :=
  let ok := (cs.zip (cs.drop 1)).all fun (a, b) => isDigit a || isDigit b
  let ends := (cs.head?.map isDigit).getD false && (cs.getLast?.map isDigit).getD false
  if ok && ends && cs.all (fun c => isDigit c || c == '_') then some (cs.filter isDigit) else none

/-- A decimal whole number without leading zeros. -/
def readWhole? (cs : List Char) : Option Nat := do
  let ds ← joinedDigits? Char.isDigit cs
  if 1 < ds.length ∧ ds.head? = some '0' then none else some (Text.ofDigits ds)

/-- The value of a digit in a base of up to sixteen. -/
def digitIn? (base : Nat) (c : Char) : Option Nat := (Uuid.hexValue? c).filter (· < base)

/-- A whole number in another base. -/
def readBased? (base : Nat) (cs : List Char) : Option Nat := do
  let ds ← joinedDigits? (fun c => (digitIn? base c).isSome) cs
  ds.foldlM (fun n c => (digitIn? base c).map (base * n + ·)) 0

/-- An integer of 64 bits. -/
def readInteger? (cs : List Char) : Option Int := do
  let n : Int ←
    match cs with
    | '0' :: 'x' :: r => (readBased? 16 r).map Int.ofNat
    | '0' :: 'o' :: r => (readBased? 8 r).map Int.ofNat
    | '0' :: 'b' :: r => (readBased? 2 r).map Int.ofNat
    | '-' :: r => (readWhole? r).map fun n => -(n : Int)
    | '+' :: r => (readWhole? r).map Int.ofNat
    | r => (readWhole? r).map Int.ofNat
  if -(2 ^ 63) ≤ n ∧ n < 2 ^ 63 then some n else none

/-- A floating-point number: a fraction, an exponent or both. -/
def readFloat? (cs : List Char) : Option Binary64 := do
  let (negative, body) := Text.splitSign cs
  if body = "inf".toList then some (.infinite negative)
  else if body = "nan".toList then some .nan
  else
    let isMark := fun c : Char => c == 'e' || c == 'E'
    let base := body.takeWhile fun c => !isMark c
    let whole := base.takeWhile (· != '.')
    let n ← readWhole? whole
    let places ← match base.drop whole.length with
      | '.' :: r => joinedDigits? Char.isDigit r
      | _ => some []
    let exponent ← match body.drop base.length with
      | _ :: r =>
        let (down, r) := Text.splitSign r
        (joinedDigits? Char.isDigit r).map fun ds =>
          if down then -(Text.ofDigits ds : Int) else (Text.ofDigits ds : Int)
      | [] => some 0
    if base.length = whole.length ∧ body.length = base.length then none
    else
      let digits := n * 10 ^ places.length + Text.ofDigits places
      some (.ofScientific negative digits (exponent - places.length))

def readDate? (cs : List Char) : Option (List Char) := do
  let year ← Text.natural? (cs.take 4)
  let month ← Text.natural? ((cs.drop 5).take 2)
  let day ← Text.natural? ((cs.drop 8).take 2)
  let date : Date := ⟨year, month, day⟩
  if cs.length = 10 ∧ cs[4]? = some '-' ∧ cs[7]? = some '-' ∧ date.isValid then some cs else none

/-- A time of day, with the zeros at the end of its fraction dropped. -/
def readTime? (cs : List Char) : Option (List Char) := do
  let hour ← Text.natural? (cs.take 2)
  let minute ← Text.natural? ((cs.drop 3).take 2)
  let second ← Text.natural? ((cs.drop 6).take 2)
  let fraction ← match cs.drop 8 with
    | [] => some []
    | '.' :: r => (Text.natural? r).map fun _ => '.' :: Text.dropTrailingZeros (r.take 9)
    | _ => none
  if cs[2]? = some ':' ∧ cs[5]? = some ':' ∧ hour < 24 ∧ minute < 60 ∧ second ≤ 60 then
    some (cs.take 8 ++ (if fraction = ['.'] then [] else fraction))
  else none

/-- A time of day with an offset, if there is one. -/
def readClock? (cs : List Char) : Option (List Char) :=
  let isOffset := fun c : Char => c == 'Z' || c == 'z' || c == '+' || c == '-'
  let time := cs.takeWhile fun c => !isOffset c
  match cs.drop time.length with
  | [] => readTime? time
  | ['Z'] => (readTime? time).map (· ++ ['Z'])
  | ['z'] => (readTime? time).map (· ++ ['Z'])
  | sign :: r => do
    let hour ← Text.natural? (r.take 2)
    let minute ← Text.natural? ((r.drop 3).take 2)
    let time ← readTime? time
    if r.length = 5 ∧ r[2]? = some ':' ∧ hour < 24 ∧ minute < 60 then some (time ++ sign :: r) else none

/-- A date, a time of day, or both. -/
def readMoment? (cs : List Char) : Option (List Char) :=
  if cs[2]? = some ':' then readTime? cs
  else
    match cs.drop 10 with
    | [] => readDate? cs
    | c :: r => do
      let date ← readDate? (cs.take 10)
      let clock ← readClock? r
      if c = 'T' ∨ c = 't' ∨ c = ' ' then some (date ++ 'T' :: clock) else none

/-- Whether a character can be part of a number, a word or a moment. -/
def isAtomChar (c : Char) : Bool :=
  c.isAlphanum || c == '+' || c == '-' || c == '_' || c == '.' || c == ':'

/-- Reads a value that is neither in quotes nor in brackets. A space inside it only parts a date from a
time. -/
def readAtom? (cs : List Char) : Option (Setting × List Char) :=
  let first := cs.takeWhile isAtomChar
  let rest := cs.dropWhile isAtomChar
  let (atom, rest) :=
    match rest with
    | ' ' :: d :: r =>
      if (readDate? first).isSome ∧ d.isDigit then
        (first ++ ' ' :: (d :: r).takeWhile isAtomChar, (d :: r).dropWhile isAtomChar)
      else (first, rest)
    | _ => (first, rest)
  if atom = "true".toList then some (.boolean true, rest)
  else if atom = "false".toList then some (.boolean false, rest)
  else
    match readInteger? atom with
    | some n => some (.integer n, rest)
    | none =>
      match readFloat? atom with
      | some x => some (.float x, rest)
      | none => (readMoment? atom).map fun text => (.text (String.ofList text), rest)

end UsageLedger.Config.Toml
