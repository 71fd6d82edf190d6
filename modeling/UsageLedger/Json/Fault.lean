import UsageLedger.Binary64
import UsageLedger.Text.Quoted

/-! What can be wrong with a JSON text: it ends too early, it is not JSON at some place, or it is JSON of
another shape than the one wanted. Only the first fault met counts. -/

namespace UsageLedger.Json

/-- What a text holds in the place of the value wanted there. -/
inductive Found
  | null
  | boolean (value : Bool)
  | integer (value : Int)
  | float (value : Binary64)
  | text (value : String)
  | sequence
  | map
  deriving DecidableEq, Repr

/-- What is wanted in a place. -/
inductive Wanted
  | text
  | int64
  | int32
  | nat64
  | uuid
  | instant
  | decimal
  | record (name : String)
  deriving DecidableEq, Repr

/-- How the shape of a JSON text differs from the one wanted. -/
inductive Mismatch
  | missing (field : String)
  | repeated (field : String)
  | short (length : Nat) (record : String) (fields : Nat)
  | type (found : Found) (wanted : Wanted)
  | range (value : Int) (wanted : Wanted)
  deriving DecidableEq, Repr

/-- What is wrong with a JSON text; a value of the right type may have content that cannot be read. -/
inductive Fault
  | ended
  | malformed
  | mismatch (how : Mismatch)
  | content
  deriving DecidableEq, Repr

def Found.describe : Found → String
  | null => "null"
  | boolean value => "boolean \x60" ++ toString value ++ "\x60"
  | integer value => "integer \x60" ++ String.ofList (Text.signed value) ++ "\x60"
  | float value => "floating point \x60" ++ String.ofList value.toText ++ "\x60"
  | text value => "string " ++ String.ofList (Text.quoted value.toList)
  | sequence => "sequence"
  | map => "map"

def Wanted.describe : Wanted → String
  | text => "a string"
  | int64 => "i64"
  | int32 => "i32"
  | nat64 => "u64"
  | uuid => "a formatted UUID string"
  | instant => "an RFC 3339 formatted date and time string"
  | decimal => "a Decimal type representing a fixed-point number"
  | record name => "struct " ++ name

/-- The sentence on a difference of shape. -/
def Mismatch.describe : Mismatch → String
  | missing field => "missing field \x60" ++ field ++ "\x60"
  | repeated field => "duplicate field \x60" ++ field ++ "\x60"
  | short length record fields =>
    "invalid length " ++ toString length ++ ", expected struct " ++ record ++ " with " ++
      toString fields ++ " elements"
  | type found wanted => "invalid type: " ++ found.describe ++ ", expected " ++ wanted.describe
  | range value wanted =>
    "invalid value: integer \x60" ++ String.ofList (Text.signed value) ++ "\x60, expected " ++
      wanted.describe

end UsageLedger.Json
