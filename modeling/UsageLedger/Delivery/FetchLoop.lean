import UsageLedger.Delivery.World

/-! The fetch loop: batch after batch is fetched and settled, message by message, until too many fetches
have failed. An empty batch is a failure and a fetch that merely waited in vain is not; a success does not
make up for failures before it. -/

namespace UsageLedger.Delivery

/-- The totals of a fetch loop. -/
structure FetchReport where
  fetches : Nat
  failures : Nat
  acknowledged : Nat
  deadLettered : Nat
  leftForRedelivery : Nat
  deriving DecidableEq, Repr

namespace FetchReport

def zero : FetchReport := ⟨0, 0, 0, 0, 0⟩

def fetched (r : FetchReport) : FetchReport := { r with fetches := r.fetches + 1 }

def failed (r : FetchReport) : FetchReport := { r with failures := r.failures + 1 }

def settled (r : FetchReport) : Disposition → FetchReport
  | .acknowledged => { r with acknowledged := r.acknowledged + 1 }
  | .deadLettered => { r with deadLettered := r.deadLettered + 1 }
  | .leftForRedelivery => { r with leftForRedelivery := r.leftForRedelivery + 1 }

end FetchReport

/-- The messages of a batch, numbered on from those delivered before. -/
def numbered (delivered : Nat) (batch : List (Text.Bytes × Fault)) : List Message :=
  batch.mapIdx fun i (payload, acknowledging) => ⟨delivered + i + 1, payload, acknowledging⟩

namespace Run

variable {σ : Type}

/-- Settles the messages of a batch in their order. -/
def settleAll (settle : Message → Run σ Disposition) :
    List Message → FetchReport → Run σ FetchReport
  | [], r => pure r
  | m :: rest, r => do
    let disposition ← settle m
    settleAll settle rest (r.settled disposition)

/-- Fetches from a source at its end, where every fetch fails, as often as failures are left. -/
def exhaust (f : Fetching) : Nat → FetchReport → Run σ FetchReport
  | 0, r => pure r
  | left + 1, r => do
    note (.fetching f.batchSize f.maxWait)
    count .fetchFailures
    exhaust f left r.fetched.failed

/-- Fetches and settles until the failures have reached their threshold. `delivered` messages have come
from the source before. -/
def fetchLoop (s : Setup σ) (f : Fetching) (settle : Message → Run σ Disposition) :
    Source → Nat → FetchReport → Run σ FetchReport
  | [], _, r => exhaust f (f.failureThreshold - r.failures) r
  | (delay, fetched) :: rest, delivered, r => do
    if f.failureThreshold ≤ r.failures then return r
    note (.fetching f.batchSize f.maxWait)
    wait s delay
    match fetched with
    | .elapsed => fetchLoop s f settle rest delivered r.fetched
    | .failed _ =>
      count .fetchFailures
      fetchLoop s f settle rest delivered r.fetched.failed
    | .batch [] =>
      count .fetchFailures
      fetchLoop s f settle rest delivered r.fetched.failed
    | .batch (m :: more) =>
      let batch := m :: more
      let r ← settleAll settle (numbered delivered batch) r.fetched
      fetchLoop s f settle rest (delivered + batch.length) r

/-- Runs a fetch loop over a source. -/
def fetchAll (s : Setup σ) (f : Fetching) (source : Source) : Run σ FetchReport :=
  fetchLoop s f (settle s) source 0 FetchReport.zero

end Run

end UsageLedger.Delivery
