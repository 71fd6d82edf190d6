/-! The counters of a consumer. A counter has a name and a description under which a registry shows it;
a registry takes every counter at most once and lists them by name. -/

namespace UsageLedger

/-- What is counted. -/
inductive Metric
  | statementsPosted
  | duplicateEvents
  | failedAttempts
  | deadLettered
  | leftForRedelivery
  | fetchFailures
  | alertsSent
  | alertsDropped
  | connectionGenerations
  deriving DecidableEq, Repr

namespace Metric

def all : List Metric :=
  [statementsPosted, duplicateEvents, failedAttempts, deadLettered, leftForRedelivery, fetchFailures,
    alertsSent, alertsDropped, connectionGenerations]

def field : Metric → String
  | statementsPosted => "statements_posted"
  | duplicateEvents => "duplicate_events"
  | failedAttempts => "failed_attempts"
  | deadLettered => "dead_lettered"
  | leftForRedelivery => "left_for_redelivery"
  | fetchFailures => "fetch_failures"
  | alertsSent => "alerts_sent"
  | alertsDropped => "alerts_dropped"
  | connectionGenerations => "connection_generations"

/-- The counter with a short name. -/
def ofField? (name : String) : Option Metric := all.find? (·.field == name)

def name (m : Metric) : String := "tally_" ++ m.field ++ "_total"

/-- What a registry says about a counter. -/
def help : Metric → String
  | statementsPosted => "Ledger statements posted"
  | duplicateEvents => "Redelivered events skipped by the idempotency check"
  | failedAttempts => "Processing attempts that ended in an error"
  | deadLettered => "Messages handed to the dead-letter sink"
  | leftForRedelivery => "Messages left un-acknowledged after a dead-letter handoff timeout"
  | fetchFailures => "Batch fetches that failed or returned nothing"
  | alertsSent => "Low-balance alerts handed off"
  | alertsDropped => "Low-balance alerts dropped on handoff timeout"
  | connectionGenerations => "Broker connections established by the supervisor"

end Metric

/-- The counts of all counters. -/
@[ext] structure Metrics where
  statementsPosted : Nat
  duplicateEvents : Nat
  failedAttempts : Nat
  deadLettered : Nat
  leftForRedelivery : Nat
  fetchFailures : Nat
  alertsSent : Nat
  alertsDropped : Nat
  connectionGenerations : Nat
  deriving DecidableEq, Repr

namespace Metrics

def zero : Metrics := ⟨0, 0, 0, 0, 0, 0, 0, 0, 0⟩

def get (c : Metrics) : Metric → Nat
  | .statementsPosted => c.statementsPosted
  | .duplicateEvents => c.duplicateEvents
  | .failedAttempts => c.failedAttempts
  | .deadLettered => c.deadLettered
  | .leftForRedelivery => c.leftForRedelivery
  | .fetchFailures => c.fetchFailures
  | .alertsSent => c.alertsSent
  | .alertsDropped => c.alertsDropped
  | .connectionGenerations => c.connectionGenerations

def count (c : Metrics) : Metric → Metrics
  | .statementsPosted => { c with statementsPosted := c.statementsPosted + 1 }
  | .duplicateEvents => { c with duplicateEvents := c.duplicateEvents + 1 }
  | .failedAttempts => { c with failedAttempts := c.failedAttempts + 1 }
  | .deadLettered => { c with deadLettered := c.deadLettered + 1 }
  | .leftForRedelivery => { c with leftForRedelivery := c.leftForRedelivery + 1 }
  | .fetchFailures => { c with fetchFailures := c.fetchFailures + 1 }
  | .alertsSent => { c with alertsSent := c.alertsSent + 1 }
  | .alertsDropped => { c with alertsDropped := c.alertsDropped + 1 }
  | .connectionGenerations => { c with connectionGenerations := c.connectionGenerations + 1 }

/-- Counting changes one counter by one. -/
theorem get_count (c : Metrics) (m k : Metric) :
    (c.count m).get k = c.get k + if k = m then 1 else 0 := by
  cases m <;> cases k <;> rfl

/-- The counters that have counted something, by their short names. -/
def counted (c : Metrics) : List (String × Nat) :=
  (Metric.all.map fun m => (m.field, c.get m)).filter fun entry => 0 < entry.2

end Metrics

/-- A registry of counters. -/
structure Registry where
  registered : List Metric
  deriving DecidableEq, Repr

namespace Registry

def empty : Registry := ⟨[]⟩

/-- Registers all counters of a consumer; a registry that has any of them is left as it is. -/
def register? (r : Registry) : Option Registry :=
  if Metric.all.any r.registered.contains then none else some ⟨r.registered ++ Metric.all⟩

/-- What a registry says when a counter is registered twice. -/
def duplicateMessage : String := "Duplicate metrics collector registration attempted"

/-- The name, description and count of every registered counter, by name. -/
def gather (r : Registry) (c : Metrics) : List (String × String × Nat) :=
  (r.registered.map fun m => (m.name, m.help, c.get m)).mergeSort fun a b => a.1 ≤ b.1

end Registry

end UsageLedger
