import UsageLedger.Decimal.Text
import UsageLedger.Json.Fault
import UsageLedger.Text.Span
import UsageLedger.Text.Utf8
import UsageLedger.Uuid

/-! The errors of the ledger and its consumer. An error is a cause with what the cause is about; its
wording is one function of that. Where another component's own text would follow, the wording ends
before it. -/

namespace UsageLedger

/-- The calls on the keyed store whose failure is reported by name. -/
inductive StoreCall
  | postScript
  | statementLookup
  | indexScan
  | statementFetch
  | accountCreation
  | balanceRead
  | auditAppend
  deriving DecidableEq, Repr

/-- Why a ledger could not do what it was asked. -/
inductive BackendFailure
  | overflow (user : String) (delta : Decimal)
  | amountMismatch (amount delta : Decimal)
  | tooManyPlaces (amount : Decimal)
  | call (failed : StoreCall)
  | other (text : String)
  deriving DecidableEq, Repr

/-- Why a payload is refused. -/
inductive PayloadFailure
  | undecodableEvent (payload : Text.Bytes) (fault : Json.Fault)
  | undecodableExtra (event : Uuid) (fault : Json.Fault)
  | other (text : String)
  deriving DecidableEq, Repr

/-- Why stored data cannot be used. -/
inductive StorageFailure
  | outOfRange (amount : Decimal)
  | unexpectedOutcome (outcome : Int)
  | unreachable (reason : String)
  | other (text : String)
  deriving DecidableEq, Repr

/-- Why a configuration is refused. -/
inductive ConfigFailure
  | emptySubject
  | zeroFetchTimeout
  | negativeRate
  | unreadable (path : String)
  | wrongType
  | badStoreAddress
  | other (text : String)
  deriving DecidableEq, Repr

/-- An error. -/
inductive Error
  | duplicateEvent (id : Uuid)
  | accountNotFound (user : String)
  | backend (failure : BackendFailure)
  | payload (failure : PayloadFailure)
  | storage (failure : StorageFailure)
  | network (text : String)
  | config (failure : ConfigFailure)
  | undecodableStatement (fault : Json.Fault)
  | serialization (text : String)
  | internal (text : String)
  | slowPosting (event : Uuid) (boundMs : Nat)
  | timeout (text : String)
  deriving DecidableEq, Repr

def StoreCall.message : StoreCall → String
  | postScript => "post script failed: "
  | statementLookup => "statement lookup failed: "
  | indexScan => "statement index scan failed: "
  | statementFetch => "statement fetch failed: "
  | accountCreation => "account creation failed: "
  | balanceRead => "balance read failed: "
  | auditAppend => "audit append failed: "

/-- The number of decimal places in which amounts are billed. -/
def amountPlaces : Nat := 6

def BackendFailure.message : BackendFailure → String
  | overflow user delta =>
    "balance of " ++ user ++ " overflows applying " ++ String.ofList delta.toText
  | amountMismatch amount delta =>
    "statement amount " ++ String.ofList amount.toText ++ " does not match delta " ++
      String.ofList delta.toText
  | tooManyPlaces amount =>
    "amount " ++ String.ofList amount.toText ++ " has more than " ++ toString amountPlaces ++
      " decimal places"
  | call failed => failed.message
  | other text => text

def PayloadFailure.message : PayloadFailure → String
  | undecodableEvent payload _ =>
    "undecodable usage event " ++ String.ofList (Text.quoted (Text.decodeLenient payload)) ++ ": "
  | undecodableExtra event _ => "undecodable extra for event " ++ String.ofList event.toText ++ ": "
  | other text => text

def StorageFailure.message : StorageFailure → String
  | outOfRange amount => "amount " ++ String.ofList amount.toText ++ " out of range"
  | unexpectedOutcome outcome =>
    "unexpected post script result " ++ String.ofList (Text.signed outcome)
  | unreachable reason => "Failed to connect to Redis: " ++ reason
  | other text => text

def ConfigFailure.message : ConfigFailure → String
  | emptySubject => "fee_request_subject must not be empty"
  | zeroFetchTimeout => "msg_fetch_timeout_secs must be positive"
  | negativeRate => "credit_per_unit cannot be negative"
  | unreadable path => "failed to read configuration from " ++ path
  | wrongType => "invalid accounting configuration"
  | badStoreAddress => "Failed to create Redis client: Redis URL did not parse- InvalidClientConfig"
  | other text => text

def Error.message : Error → String
  | duplicateEvent id =>
    "Ledger error: Statement already exists for event " ++ String.ofList id.toText
  | accountNotFound user => "Ledger error: Account not found: " ++ user
  | backend failure => "Ledger error: Backend failure: " ++ failure.message
  | payload failure => "Invalid payload: " ++ failure.message
  | storage failure => "Storage error: " ++ failure.message
  | network text => "Network error: " ++ text
  | config failure => "Configuration error: " ++ failure.message
  | undecodableStatement _ => "Serialization error: "
  | serialization text => "Serialization error: " ++ text
  | internal text => "Internal error: " ++ text
  | slowPosting event boundMs =>
    "Operation timed out: posting event " ++ String.ofList event.toText ++ " exceeded " ++
      String.ofList (Text.span boundMs)
  | timeout text => "Operation timed out: " ++ text

/-- An error of the file system or of a connection is a storage failure. -/
def Error.ofSystem (text : String) : Error := .storage (.other text)

/-- An error that carries a context is an internal one, known by its outermost context. -/
def Error.ofContext (context : String) : Error := .internal context

end UsageLedger
