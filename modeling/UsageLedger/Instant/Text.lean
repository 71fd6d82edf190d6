import UsageLedger.Instant.Basic
import UsageLedger.Text.Blank
import UsageLedger.Text.Digits

/-! Instants as text, in the form of RFC 3339. They are written in UTC with as few of 0, 3, 6 or 9
fractional digits as keep the value, and with a sign on a year outside 0 to 9999. A text that is read may
have white space around its numbers, short numbers, any of three separators before the time, and any
offset below a day. -/

namespace UsageLedger.Instant

def yearText (year : Int) : List Char :=
  if 0 ≤ year ∧ year ≤ 9999 then Text.padded 4 year.natAbs
  else (if year < 0 then '-' else '+') :: Text.padded 4 year.natAbs

def fractionText (nano : Nat) : List Char :=
  if nano = 0 then []
  else if nano % 1000000 = 0 then '.' :: Text.padded 3 (nano / 1000000)
  else if nano % 1000 = 0 then '.' :: Text.padded 6 (nano / 1000)
  else '.' :: Text.padded 9 nano

def toText (a : Instant) : List Char :=
  let d := Date.ofDays a.day
  let second := a.second % 60 + a.nano / 1000000000
  yearText d.year ++ '-' :: Text.padded 2 d.month ++ '-' :: Text.padded 2 d.day ++
    'T' :: Text.padded 2 (a.second / 3600) ++ ':' :: Text.padded 2 (a.second / 60 % 60) ++
    ':' :: Text.padded 2 second ++ fractionText (a.nano % 1000000000) ++ ['Z']

/-- Reads one to `most` digits after white space. -/
def readNumber? (most : Nat) (cs : List Char) : Option (Nat × List Char) :=
  let cs := Text.trimStart cs
  let ds := (cs.take most).takeWhile Char.isDigit
  if ds = [] then none else some (Text.ofDigits ds, cs.drop ds.length)

/-- Reads a year: up to four digits, or a sign and any number of them. -/
def readYear? (cs : List Char) : Option (Int × List Char) :=
  match Text.trimStart cs with
  | '-' :: r => readSigned? r (fun n => -(n : Int))
  | '+' :: r => readSigned? r (fun n => (n : Int))
  | r => (readNumber? 4 r).map fun (n, r) => ((n : Int), r)
where
  readSigned? (cs : List Char) (sign : Nat → Int) : Option (Int × List Char) :=
    let (ds, r) := Text.spanDigits cs
    if ds = [] then none else some (sign (Text.ofDigits ds), r)

/-- Reads a separator after white space. -/
def readMark? (mark : Char) (cs : List Char) : Option (List Char) :=
  match Text.trimStart cs with
  | c :: r => if c = mark then some r else none
  | [] => none

/-- Reads the character between a date and a time. -/
def readJoin? : List Char → Option (List Char)
  | c :: r => if c = 'T' ∨ c = 't' ∨ c = ' ' then some r else none
  | [] => none

/-- Reads a fraction of a second in nanoseconds, if there is one; digits after the ninth do not count. -/
def readFraction? : List Char → Option (Nat × List Char)
  | '.' :: cs =>
    let (ds, r) := Text.spanDigits cs
    if ds = [] then none
    else some (Text.ofDigits ((ds ++ List.replicate 9 '0').take 9), r)
  | cs => some (0, cs)

/-- Reads an offset from UTC in seconds. -/
def readOffset? (cs : List Char) : Option (Int × List Char) :=
  let cs := Text.trimStart cs
  if (cs.take 3).map Char.toUpper = ['U', 'T', 'C'] then some (0, cs.drop 3)
  else
    match cs with
    | 'Z' :: r => some (0, r)
    | 'z' :: r => some (0, r)
    | '+' :: r => readClock? r (fun n => (n : Int))
    | '-' :: r => readClock? r (fun n => -(n : Int))
    | '\u2212' :: r => readClock? r (fun n => -(n : Int))
    | _ => none
where
  readClock? (cs : List Char) (sign : Nat → Int) : Option (Int × List Char) := do
    let (hours, r) ← readPair? cs
    let (minutes, r) ← readPair? (r.dropWhile fun c => c == ':' || Text.isBlank c)
    if minutes < 60 ∧ hours < 24 then some (sign (hours * 3600 + minutes * 60), r) else none
  readPair? : List Char → Option (Nat × List Char)
    | a :: b :: r => (Text.natural? [a, b]).map fun n => (n, r)
    | _ => none

/-- The instant of a date, a time of day and an offset. Second 60 stands for a leap second. -/
def ofParts? (date : Date) (hour minute second nano : Nat) (offset : Int) : Option Instant :=
  if date.isValid && hour < 24 && minute < 60 && second ≤ 60 then
    let (second, nano) := if second = 60 then (59, nano + 1000000000) else (second, nano)
    let shifted := date.toDays * 86400 + (hour * 3600 + minute * 60 + second : Nat) - offset
    if -262143 ≤ date.year ∧ date.year ≤ 262142 then mk? (shifted / 86400) (shifted % 86400).toNat nano
    else none
  else none

def ofText? (cs : List Char) : Option Instant := do
  let (year, cs) ← readYear? cs
  let (month, cs) ← readNumber? 2 (← readMark? '-' cs)
  let (day, cs) ← readNumber? 2 (← readMark? '-' cs)
  let (hour, cs) ← readNumber? 2 (← readJoin? cs)
  let (minute, cs) ← readNumber? 2 (← readMark? ':' cs)
  let (second, cs) ← readNumber? 2 (← readMark? ':' cs)
  let (nano, cs) ← readFraction? cs
  let (offset, cs) ← readOffset? cs
  if Text.trimStart cs = [] then ofParts? ⟨year, month, day⟩ hour minute second nano offset else none

end UsageLedger.Instant
