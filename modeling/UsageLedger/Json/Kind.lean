import UsageLedger.Decimal.Text
import UsageLedger.Instant.Text
import UsageLedger.Json.Printer
import UsageLedger.Json.Token
import UsageLedger.Uuid

/-! The kinds of values that a record's fields hold, how each is read from a token and how it is written.
A decimal is read from a number or from text; it is written as text, or as a floating-point number where a
field asks for that. -/

namespace UsageLedger.Json

/-- A kind of value. -/
inductive Kind
  | text
  | optionalText
  | uuid
  | instant
  | decimal
  | double
  | int64
  | int32
  | nat64
  deriving DecidableEq, Repr

/-- The values of a kind. -/
@[reducible] def Kind.Value : Kind → Type
  | text => String
  | optionalText => Option String
  | uuid => Uuid
  | instant => Instant
  | decimal => Decimal
  | double => Decimal
  | int64 => Int64
  | int32 => Int32
  | nat64 => UInt64

/-- What is wanted where a kind is due. -/
def Kind.wanted : Kind → Wanted
  | text => .text
  | optionalText => .text
  | uuid => .uuid
  | instant => .instant
  | decimal => .decimal
  | double => .decimal
  | int64 => .int64
  | int32 => .int32
  | nat64 => .nat64

/-- What a token shows where a value is due, or the fault that it has there. -/
def Token.found : Token → Except Fault Found
  | opening .list => .ok .sequence
  | opening .object => .ok .map
  | null => .ok .null
  | boolean value => .ok (.boolean value)
  | number (.ok (.integer value)) => .ok (.integer value)
  | number (.ok (.float value)) => .ok (.float value)
  | number (.error fault) => .error fault
  | text (.ok value) => .ok (.text value)
  | text (.error fault) => .error fault
  | broken _ kept _ => .error kept
  | closing _ => .error .malformed
  | comma => .error .malformed
  | colon => .error .malformed

/-- The fault of a token of another type than the one wanted. -/
def refuse (wanted : Wanted) (found : Found) : Fault := .mismatch (.type found wanted)

/-- Reads an integer into a range. -/
def readInteger (wanted : Wanted) (low high : Int) : Found → Except Fault Int
  | .integer value =>
    if low ≤ value ∧ value ≤ high then .ok value else .error (.mismatch (.range value wanted))
  | found => .error (refuse wanted found)

/-- A value that may have content that cannot be read. -/
def ofContent {α : Type} : Option α → Except Fault α
  | some a => .ok a
  | none => .error .content

/-- Reads a decimal: whole numbers exactly, other numbers by their plain text. -/
def readDecimal : Found → Except Fault Decimal
  | .integer value => ofContent (Decimal.mk? value 0)
  | .float value => ofContent (Decimal.ofBinary64? value)
  | .text value => ofContent (Decimal.ofText? value.toList)
  | found => .error (refuse .decimal found)

def readText (wanted : Wanted) : Found → Except Fault String
  | .text value => .ok value
  | found => .error (refuse wanted found)

def Kind.ofFound (kind : Kind) (found : Found) : Except Fault kind.Value :=
  match kind with
  | text => readText .text found
  | optionalText =>
    match found with
    | .null => .ok none
    | found => (readText .text found).map some
  | uuid => (readText .uuid found).bind fun s => ofContent (Uuid.ofText? s.toList)
  | instant => (readText .instant found).bind fun s => ofContent (Instant.ofText? s.toList)
  | decimal => readDecimal found
  | double => readDecimal found
  | int64 => (readInteger .int64 (-9223372036854775808) 9223372036854775807 found).map Int64.ofInt
  | int32 => (readInteger .int32 (-2147483648) 2147483647 found).map Int32.ofInt
  | nat64 => (readInteger .nat64 0 18446744073709551615 found).map fun n => UInt64.ofNat n.toNat

def Kind.read (kind : Kind) (t : Token) : Except Fault kind.Value := t.found.bind kind.ofFound

def Kind.print : (kind : Kind) → kind.Value → List Char
  | text, s => printText s.toList
  | optionalText, none => "null".toList
  | optionalText, some s => printText s.toList
  | uuid, u => printText u.toText
  | instant, i => printText i.toText
  | decimal, d => printText d.toText
  | double, d => d.toBinary64.toText
  | int64, n => Text.signed n.toInt
  | int32, n => Text.signed n.toInt
  | nat64, n => Text.digits n.toNat

/-- Reads a text that is one value of a kind and nothing else. -/
def Kind.ofTokens (kind : Kind) : List Token → Except Fault kind.Value
  | [] => .error .ended
  | [t] => kind.read t
  | t :: _ => (kind.read t).bind fun _ => .error .malformed

def Kind.decode (kind : Kind) (bytes : Text.Bytes) : Except Fault kind.Value :=
  kind.ofTokens (tokens bytes)

end UsageLedger.Json
