import UsageLedger.Delivery.FetchLoop

/-! Provisioning: a stream is created, or brought up to date if that is refused, and a durable consumer is
created on it. A round provisions and runs a fetch loop until that gives up; a connection is used for a
fixed number of rounds. -/

namespace UsageLedger.Delivery

/-- The totals of the rounds on a connection. -/
structure ProvisionReport where
  rounds : Nat
  failures : Nat
  fetchReports : List FetchReport
  deriving DecidableEq, Repr

namespace ProvisionReport

def zero : ProvisionReport := ⟨0, 0, []⟩

def failed (r : ProvisionReport) : ProvisionReport :=
  { r with rounds := r.rounds + 1, failures := r.failures + 1 }

def fetched (r : ProvisionReport) (f : FetchReport) : ProvisionReport :=
  { r with rounds := r.rounds + 1, fetchReports := r.fetchReports ++ [f] }

end ProvisionReport

namespace Run

variable {σ α : Type}

/-- Calls the broker. Work that comes after the wait is not done if the call fails. -/
def callBroker (s : Setup σ) (seam : Seam) (what : Happening) (work : Run σ α) :
    Run σ (Except Error α) := do
  note what
  let fault ← nextFault seam
  let failed := fault.failure.map Error.network
  if fault.workFirst then
    let result ← work
    wait s fault.delay
    return failed.elim (.ok result) .error
  else
    wait s fault.delay
    match failed with
    | some e => return .error e
    | none => return .ok (← work)

/-- Takes the source that the next consumer reads, an empty one if none is left. -/
def nextSource : Run σ Source := do
  let w ← get
  set { w with sources := w.sources.tail }
  return w.sources.headD []

/-- Provisions a subscription; its consumer's source. -/
def provision (s : Setup σ) (sub : Subscription) : Run σ (Except Error Source) := do
  let ready ← match ← callBroker s .createStream (.creatingStream sub) (pure ()) with
    | .ok _ => pure (.ok ())
    | .error _ => callBroker s .updateStream (.updatingStream sub) (pure ())
  match ready with
  | .error e => return .error e
  | .ok _ => callBroker s .createConsumer (.creatingConsumer sub) nextSource

/-- Runs a number of rounds. -/
def rounds (s : Setup σ) (sub : Subscription) (f : Fetching) :
    Nat → ProvisionReport → Run σ ProvisionReport
  | 0, r => pure r
  | left + 1, r => do
    match ← provision s sub with
    | .error _ => rounds s sub f left r.failed
    | .ok source =>
      let report ← fetchAll s f source
      rounds s sub f left (r.fetched report)

/-- Uses a connection for as many rounds as it gets. -/
def provisionAll (s : Setup σ) (sub : Subscription) (f : Fetching) : Run σ ProvisionReport :=
  rounds s sub f Limits.provisionRounds ProvisionReport.zero

end Run

end UsageLedger.Delivery
