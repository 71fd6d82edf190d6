import UsageLedger.Delivery.Provision

/-! The supervisor: it connects, uses the connection for its rounds while both side channels are
published, lets these finish for a while, closes and pauses. A connection that is refused is tried again
after a pause. An overflow ends the rounds of a connection and nothing else. -/

namespace UsageLedger.Delivery

namespace World

variable {σ : Type}

/-- When the publisher of a queue that takes no more items is done, if that is by a time. -/
def doneBy? {α : Type} (q : Queue α) (clock limit : Nat) : Option Nat :=
  match q with
  | ⟨none, .publisher _ (some freeAt)⟩ => if max clock freeAt ≤ limit then some (max clock freeAt) else none
  | _ => none

/-- Until when the publisher of alerts is waited for, a limit apart. -/
def alertsDone (w : World σ) (limit : Nat) : Nat :=
  (doneBy? (w.publish limit).alerts w.clock limit).getD limit

/-- Until when the publisher of dead letters is waited for, a limit apart. -/
def lettersDone (w : World σ) (limit : Nat) : Nat :=
  (doneBy? (w.publish limit).letters w.clock limit).getD limit

end World

namespace Run

variable {σ α : Type}

/-- Connects; the sources on the connection, if it is not refused. -/
def connect : Run σ (Option (List Source)) := do
  note .connecting
  let w ← get
  set { w with connections := w.connections.tail }
  match w.connections with
  | .accepted sources :: _ => return some sources
  | _ => return none

/-- Runs something with a substitute for its result if it ends in an overflow. -/
def orElseOverflow (x : Run σ α) (substitute : α) : Run σ α :=
  ExceptT.mk do
    match ← x.run with
    | .error .overflow => return .ok substitute
    | result => return result

/-- Lets the side channels finish what they hold, alerts first, each for the idle interval at most; what
is not being published by then is lost. -/
def finishSideChannels (s : Setup σ) (idle : Nat) : Run σ Unit := do
  let w ← get
  waitUntil s (w.alertsDone (w.clock + idle))
  modify fun w => { w with alerts := Queue.closed }
  let w ← get
  waitUntil s (w.lettersDone (w.clock + idle))
  modify fun w => { w with letters := Queue.closed }

/-- Uses a connection, side channels included. -/
def generation (s : Setup σ) (p : Plan) (sources : List Source) : Run σ ProvisionReport := do
  modify fun w => { w with
    sources := sources
    alerts := Queue.drainedTo p.alertSubject w.clock
    letters := Queue.drainedTo p.letterSubject w.clock }
  let report ← orElseOverflow (provisionAll s p.subscription p.fetching) ProvisionReport.zero
  finishSideChannels s p.idle
  return report

/-- Connects once and uses the connection; there is no report if it is refused. -/
def once (s : Setup σ) (p : Plan) : Run σ (Option ProvisionReport) := do
  match ← connect with
  | none =>
    wait s (some p.reconnect)
    return none
  | some sources =>
    count .connectionGenerations
    let report ← generation s p sources
    note .closing
    note .released
    wait s (some (2 * p.idle))
    return some report

/-- Connects again and again, up to a number of times. -/
def again (s : Setup σ) (p : Plan) : Nat → Run σ Unit
  | 0 => pure ()
  | left + 1 => do
    let _ ← once s p
    again s p left

end Run

end UsageLedger.Delivery
