import UsageLedger.Config.Basic
import UsageLedger.Limits

/-! What a supervisor is to do: which subscription it reads, in what steps, and where its side channels
lead. Times are in milliseconds. -/

namespace UsageLedger.Delivery

/-- A durable subscription. -/
structure Subscription where
  stream : String
  consumer : String
  subject : String
  deriving DecidableEq, Repr

/-- The subscription to a subject on the stream of usage events. -/
def Subscription.toSubject (subject : String) : Subscription :=
  ⟨"accountingEventStream", "accountingServerDurableConsumer", subject⟩

/-- How messages are fetched: how many at a time, how long a fetch may wait, and how many failures end
the loop. -/
structure Fetching where
  batchSize : Nat
  maxWait : Nat
  failureThreshold : Nat
  deriving DecidableEq, Repr

/-- Fetching with a given wait within the fixed limits. -/
def Fetching.waiting (maxWait : Nat) : Fetching := ⟨Limits.batchSize, maxWait, Limits.fetchFailures⟩

/-- The plan of a supervisor. -/
structure Plan where
  subscription : Subscription
  fetching : Fetching
  alertSubject : String
  letterSubject : String
  idle : Nat
  reconnect : Nat
  deriving DecidableEq, Repr

/-- The plan that a configuration describes. -/
def Plan.ofConfig (c : Config) : Plan where
  subscription := .toSubject c.eventSubject
  fetching := .waiting c.fetchTimeoutMs
  alertSubject := c.alertSubject
  letterSubject := c.letterSubject
  idle := c.idleIntervalMs
  reconnect := c.reconnectDelayMs

end UsageLedger.Delivery
