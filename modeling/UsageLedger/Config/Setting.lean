import UsageLedger.Config.Basic
import UsageLedger.Power

/-! Settings: values as a file or the environment gives them, before a field says what it wants. A text
field takes any scalar by its text; a number of seconds takes whatever can be read as one; a rate takes
numbers and decimal text. -/

namespace UsageLedger

/-- A value that has been set. -/
inductive Setting
  | null
  | boolean (value : Bool)
  | integer (value : Int)
  | float (value : Binary64)
  | text (value : String)
  | compound
  deriving DecidableEq, Repr

namespace Setting

def asText? : Setting → Option String
  | boolean value => some (toString value)
  | integer value => some (String.ofList (Text.signed value))
  | float value => some (String.ofList value.toPlainText)
  | text value => some value
  | null => none
  | compound => none

def asOptionalText? : Setting → Option (Option String)
  | null => some none
  | s => s.asText?.map some

/-- The whole number nearest to a floating-point number, a half away from zero, within 64 bits. -/
def roundToNat64 : Binary64 → Nat
  | .finite true _ _ => 0
  | .finite false m e =>
    let n := if 0 ≤ e then m * 2 ^ e.toNat else (2 * m + 2 ^ (-e).toNat) / 2 ^ ((-e).toNat + 1)
    min n (2 ^ 64 - 1)
  | .infinite negative => if negative then 0 else 2 ^ 64 - 1
  | .nan => 0

/-- A natural number of 64 bits, with a plus sign at will. -/
def readNat64? (cs : List Char) : Option Nat := do
  let n ← Text.natural? (match cs with | '+' :: r => r | _ => cs)
  if n < 2 ^ 64 then some n else none

def asSeconds? : Setting → Option UInt64
  | boolean value => some (if value then 1 else 0)
  | integer value => if 0 ≤ value then some (UInt64.ofNat value.toNat) else none
  | float value => some (UInt64.ofNat (roundToNat64 value))
  | text value =>
    let lowered := value.toList.map Char.toLower
    if lowered = "true".toList ∨ lowered = "on".toList ∨ lowered = "yes".toList then some 1
    else if lowered = "false".toList ∨ lowered = "off".toList ∨ lowered = "no".toList then some 0
    else (readNat64? value.toList).map UInt64.ofNat
  | null => none
  | compound => none

def asDecimal? : Setting → Option Decimal
  | integer value => Decimal.mk? value 0
  | float value => Decimal.ofBinary64? value
  | text value => Decimal.ofText? value.toList
  | boolean _ => none
  | null => none
  | compound => none

end Setting

/-- Settings under their names, the latest first. -/
abbrev Settings := List (String × Setting)

namespace Settings

def get? (s : Settings) (name : String) : Option Setting := s.lookup name

/-- Whether a character can be part of a name in a path. -/
def isNameChar (c : Char) : Bool := c.isAlphanum || c == '_' || c == '-'

/-- Where a text stands as a path below a name: behind a complete step, or inside a name after a point or
inside a number in square brackets, with something of it read or not. -/
inductive PathStage
  | step
  | name (any : Bool)
  | index (any : Bool)
  | broken
  deriving DecidableEq, Repr

/-- Reads a character of a path. -/
def PathStage.read (p : PathStage) (c : Char) : PathStage :=
  let opened := if c = '.' then name false else if c = '[' then index false else broken
  match p with
  | step => opened
  | name any => if isNameChar c then name true else if any then opened else broken
  | index any => if c.isDigit then index true else if any && c == ']' then step else broken
  | broken => broken

/-- Whether a text is a path below a name. -/
def isPathTail (cs : List Char) : Bool :=
  match cs.foldl PathStage.read .step with
  | .step => !cs.isEmpty
  | .name any => any
  | _ => false

/-- Sets a value under a key. A key that is a path below a name makes that name hold a compound value. -/
def set (s : Settings) (key : String) (value : Setting) : Settings :=
  let cs := key.toList
  let name := cs.takeWhile isNameChar
  let tail := cs.dropWhile isNameChar
  if !name.isEmpty && isPathTail tail then (String.ofList name, .compound) :: s
  else (key, value) :: s

end Settings

namespace Config

/-- The value of a field: the reading of its setting, or the standard value where nothing is set. -/
def field {α : Type} (s : Settings) (name : String) (read : Setting → Option α) (standard : α) : Option α :=
  match s.get? name with
  | none => some standard
  | some value => read value

/-- The configuration that settings describe; none if one of them has the wrong type. -/
def ofSettings? (s : Settings) : Option Config := do
  let brokerUrl ← field s "nats_url" Setting.asText? standard.brokerUrl
  let eventSubject ← field s "fee_request_subject" Setting.asText? standard.eventSubject
  let alertSubject ← field s "notify_subject" Setting.asText? standard.alertSubject
  let letterSubject ← field s "dead_letter_subject" Setting.asText? standard.letterSubject
  let fetchTimeout ← field s "msg_fetch_timeout_secs" Setting.asSeconds? standard.fetchTimeout
  let idleInterval ← field s "idle_interval_secs" Setting.asSeconds? standard.idleInterval
  let reconnectDelay ← field s "reconnect_delay_secs" Setting.asSeconds? standard.reconnectDelay
  let rate ← field s "credit_per_unit" Setting.asDecimal? standard.rate
  let storeUrl ← field s "redis_url" Setting.asOptionalText? standard.storeUrl
  let keyspace ← field s "redis_prefix" Setting.asText? standard.keyspace
  return ⟨brokerUrl, eventSubject, alertSubject, letterSubject, fetchTimeout, idleInterval,
    reconnectDelay, rate, storeUrl, keyspace⟩

end Config

end UsageLedger
