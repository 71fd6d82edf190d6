import UsageLedger.Credit
import UsageLedger.Json.Record

/-! The configuration of the service, with the values that hold where nothing else is said and the rules
that a configuration has to keep. -/

namespace UsageLedger

/-- A configuration. Times are in seconds. -/
@[ext] structure Config where
  brokerUrl : String
  eventSubject : String
  alertSubject : String
  letterSubject : String
  fetchTimeout : UInt64
  idleInterval : UInt64
  reconnectDelay : UInt64
  rate : Decimal
  storeUrl : Option String
  keyspace : String
  deriving DecidableEq, Repr

namespace Config

/-- The configuration where nothing is configured. -/
def standard : Config where
  brokerUrl := "nats://localhost:4222"
  eventSubject := "accounting.fee.request"
  alertSubject := "accounting.notify.nobalance"
  letterSubject := "accounting.fee.dlq"
  fetchTimeout := 5
  idleInterval := 10
  reconnectDelay := 10
  rate := Credit.defaultRate
  storeUrl := none
  keyspace := "tally:ledger"

instance : Inhabited Config := ⟨standard⟩

def schema : Json.Schema :=
  ⟨"AccountingConfig",
    [⟨"nats_url", .text, some standard.brokerUrl⟩,
      ⟨"fee_request_subject", .text, some standard.eventSubject⟩,
      ⟨"notify_subject", .text, some standard.alertSubject⟩,
      ⟨"dead_letter_subject", .text, some standard.letterSubject⟩,
      ⟨"msg_fetch_timeout_secs", .nat64, some standard.fetchTimeout⟩,
      ⟨"idle_interval_secs", .nat64, some standard.idleInterval⟩,
      ⟨"reconnect_delay_secs", .nat64, some standard.reconnectDelay⟩,
      ⟨"credit_per_unit", .decimal, some standard.rate⟩,
      ⟨"redis_url", .optionalText, some standard.storeUrl⟩,
      ⟨"redis_prefix", .text, some standard.keyspace⟩]⟩

/-- The fields of a configuration in the order of the format. -/
def toRow (c : Config) : Json.Row schema.fields :=
  (c.brokerUrl, c.eventSubject, c.alertSubject, c.letterSubject, c.fetchTimeout, c.idleInterval,
    c.reconnectDelay, c.rate, c.storeUrl, c.keyspace, ())

def ofRow : Json.Row schema.fields → Config
  | (brokerUrl, eventSubject, alertSubject, letterSubject, fetchTimeout, idleInterval, reconnectDelay,
      rate, storeUrl, keyspace, ()) =>
    ⟨brokerUrl, eventSubject, alertSubject, letterSubject, fetchTimeout, idleInterval, reconnectDelay,
      rate, storeUrl, keyspace⟩

def decode (bytes : Text.Bytes) : Except Json.Fault Config := (schema.decode bytes).map ofRow

/-- The first rule that a configuration breaks: events need a subject, a fetch needs time, and a rate is
not negative. -/
def violation? (c : Config) : Option ConfigFailure :=
  if c.eventSubject = "" then some .emptySubject
  else if c.fetchTimeout = 0 then some .zeroFetchTimeout
  else if c.rate.isNegative then some .negativeRate
  else none

/-- The configuration itself, if it keeps all rules. -/
def validate (c : Config) : Except ConfigFailure Config :=
  match c.violation? with
  | some failure => .error failure
  | none => .ok c

/-- The time that a fetch may take, in milliseconds. -/
def fetchTimeoutMs (c : Config) : Nat := c.fetchTimeout.toNat * 1000

def idleIntervalMs (c : Config) : Nat := c.idleInterval.toNat * 1000

/-- The pause after a refused connection, in milliseconds. -/
def reconnectDelayMs (c : Config) : Nat := c.reconnectDelay.toNat * 1000

@[simp] theorem ofRow_toRow (c : Config) : ofRow c.toRow = c := rfl

/-- A configuration is valid exactly when it keeps the three rules. -/
theorem validate_eq_ok_iff {c : Config} :
    c.validate = .ok c ↔ c.eventSubject ≠ "" ∧ c.fetchTimeout ≠ 0 ∧ c.rate.isNegative = false := by
  unfold validate violation?
  split <;> rename_i h <;> revert h <;> grind

end Config

end UsageLedger
