import UsageLedger.Delivery.Attempt
import UsageLedger.Delivery.Fault
import UsageLedger.Delivery.Plan

/-! The world that a consumer runs in: a clock that moves only while somebody waits, a ledger, the two
side channels with their publishers, and the scripts of the faults. Everything that crosses a seam is kept
in a history. While the consumer waits the publishers go on with their work. Times are in milliseconds. -/

namespace UsageLedger.Delivery

/-- What is published. -/
inductive Notice
  | alert (a : Alert)
  | letter (payload : Text.Bytes)
  deriving DecidableEq, Repr

/-- What happens at the seams of a consumer. Ledger calls, calls on the broker, acknowledgements and
publications are entered when they begin, offers when their outcome is known. -/
inductive Happening
  | called (call : Ledger.Call)
  | offered (notice : Notice) (rejection : Option Rejection)
  | acknowledged (message : Nat)
  | published (subject : String) (notice : Notice)
  | connecting
  | creatingStream (s : Subscription)
  | updatingStream (s : Subscription)
  | creatingConsumer (s : Subscription)
  | fetching (batchSize maxWait : Nat)
  | closing
  | released
  deriving DecidableEq, Repr

/-- What happened and when, the newest first. -/
abbrev History := List (Nat × Happening)

/-- What a fetch brings. -/
inductive Fetched
  | batch (messages : List (Text.Bytes × Fault))
  | elapsed
  | failed (text : String)
  deriving DecidableEq, Repr

def Fetched.message : Fetched → String
  | batch _ => ""
  | elapsed => "fetch wait elapsed"
  | failed text => "fetch failed: " ++ text

/-- What a source brings, fetch after fetch, each after a delay; beyond its end every fetch fails. -/
abbrev Source := List (Option Nat × Fetched)

/-- What an attempt to connect comes to: a refusal, or a connection on which each consumer that is created
reads the next of its sources. -/
inductive Connection
  | refused (text : String)
  | accepted (sources : List Source)
  deriving DecidableEq, Repr

/-- The state of the world. -/
structure World (σ : Type) where
  clock : Nat
  deadline : Nat
  ledger : σ
  metrics : Metrics
  alerts : Queue Alert
  letters : Queue Text.Bytes
  faults : Faults
  sources : List Source
  connections : List Connection
  history : History

/-- What does not change while a consumer runs: how its ledger answers, its rate, the bound on the ledger
calls of an attempt, the bound on a handoff, and the time at which the world ends, if it does. -/
structure Setup (σ : Type) where
  serve : Ledger.Service σ
  rate : Decimal
  attemptTimeout : Nat
  handoff : Nat
  horizon : Option Nat

/-- Why a run ends early: a product has no decimal, or it goes on beyond the end of the world. -/
inductive Halt
  | overflow
  | horizon
  deriving DecidableEq, Repr

/-- What runs in a world. -/
abbrev Run (σ α : Type) := ExceptT Halt (StateM (World σ)) α

namespace World

variable {σ α : Type}

def start (ledger : σ) (alerts : Queue Alert) (letters : Queue Text.Bytes) (faults : Faults)
    (sources : List Source) (connections : List Connection) : World σ :=
  ⟨0, 0, ledger, Metrics.zero, alerts, letters, faults, sources, connections, []⟩

/-- Enters something into the history. -/
def note (w : World σ) (time : Nat) (what : Happening) : World σ :=
  { w with history := (time, what) :: w.history }

/-- Lets the publisher of alerts take the waiting one, if it ever does. -/
def takeAlert (w : World σ) : World σ :=
  match w.alerts with
  | ⟨some a, .publisher subject (some freeAt)⟩ =>
    let time := max w.clock freeAt
    let (fault, faults) := w.faults.next (.publish subject)
    { w with
      alerts := ⟨none, .publisher subject (fault.delay.map (time + ·))⟩
      faults := faults
      history := (time, .published subject (.alert a)) :: w.history }
  | _ => w

/-- Lets the publisher of dead letters take the waiting one, if it ever does. -/
def takeLetter (w : World σ) : World σ :=
  match w.letters with
  | ⟨some payload, .publisher subject (some freeAt)⟩ =>
    let time := max w.clock freeAt
    let (fault, faults) := w.faults.next (.publish subject)
    { w with
      letters := ⟨none, .publisher subject (fault.delay.map (time + ·))⟩
      faults := faults
      history := (time, .published subject (.letter payload)) :: w.history }
  | _ => w

/-- Whether something is due by a time. -/
def isDue (due : Option Nat) (time : Nat) : Bool := due.any (· ≤ time)

/-- Lets the publishers work up to a time, the one whose turn comes first before the other. -/
def publish (w : World σ) (time : Nat) : World σ :=
  let alert := w.alerts.takenAt? w.clock
  let letter := w.letters.takenAt? w.clock
  let both := isDue alert time && isDue letter time
  if both && letter.getD 0 < alert.getD 0 then w.takeLetter.takeAlert
  else if both then w.takeAlert.takeLetter
  else if isDue alert time then w.takeAlert
  else if isDue letter time then w.takeLetter
  else w

/-- Moves the clock while the publishers work. -/
def moveTo (w : World σ) (time : Nat) : World σ :=
  { w.publish time with clock := time }

def instant (w : World σ) : Instant :=
  let seconds := w.clock / 1000
  (Instant.mk? (seconds / 86400 : Nat) (seconds % 86400) (w.clock % 1000 * 1000000)).getD Instant.epoch

end World

namespace Run

variable {σ α : Type}

/-- Enters something into the history at the present time. -/
def note (what : Happening) : Run σ Unit := modify fun w => w.note w.clock what

def count (m : Metric) : Run σ Unit := modify fun w => { w with metrics := w.metrics.count m }

/-- Waits until a time, or to the end of the world if that comes first. -/
def waitUntil (s : Setup σ) (time : Nat) : Run σ Unit := do
  match s.horizon with
  | some last =>
    if last < time then
      modify (·.moveTo last)
      throw .horizon
    else modify (·.moveTo time)
  | none => modify (·.moveTo time)

/-- Waits for a delay; nothing is waited for no time, and a wait without end is one to the end of the
world. -/
def wait (s : Setup σ) : Option Nat → Run σ Unit
  | some 0 => pure ()
  | some delay => do waitUntil s ((← get).clock + delay)
  | none => do
    match s.horizon with
    | some last => modify (·.moveTo last)
    | none => pure ()
    throw .horizon

/-- Waits for a delay within the time bound; whether the bound held. -/
def waitWithin (s : Setup σ) (delay : Option Nat) : Run σ Bool := do
  let w ← get
  if delay.any (w.clock + · ≤ w.deadline) then
    wait s delay
    return true
  else
    if w.clock < w.deadline then waitUntil s w.deadline
    return false

def nextFault (seam : Seam) : Run σ Fault := do
  let w ← get
  let (fault, faults) := w.faults.next seam
  set { w with faults := faults }
  return fault

/-- Lets the ledger answer a call. -/
def serve (s : Setup σ) (call : Ledger.Call) : Run σ (Except Error call.Reply) := do
  let w ← get
  let (answer, ledger) := s.serve call w.ledger
  set { w with ledger := ledger }
  return answer

/-- Calls the ledger within the time bound. Work that comes after the wait is not done once the bound is
over, and a failing call then does none at all. -/
def callLedger (s : Setup σ) (call : Ledger.Call) : Run σ (Option (Except Error call.Reply)) := do
  note (.called call)
  let fault ← nextFault (.ofCall call)
  let failed := fault.failure.map fun text => Error.storage (.other text)
  if fault.workFirst then
    let answer ← serve s call
    if ← waitWithin s fault.delay then
      return some (failed.elim answer .error)
    else return none
  else if ← waitWithin s fault.delay then
    match failed with
    | some e => return some (.error e)
    | none => return some (← serve s call)
  else return none

def offerAlert (s : Setup σ) (a : Alert) : Run σ (Except Rejection Unit) := do
  let w ← get
  let (outcome, time) := (w.alerts.room w.clock).handoff w.clock s.handoff
  match time with
  | some time => waitUntil s time
  | none => pure ()
  match outcome with
  | .ok _ =>
    modify fun w => { w with alerts := w.alerts.put a }
    note (.offered (.alert a) none)
  | .error rejection => note (.offered (.alert a) (some rejection))
  return outcome

def offerLetter (s : Setup σ) (payload : Text.Bytes) : Run σ (Except Rejection Unit) := do
  let w ← get
  let (outcome, time) := (w.letters.room w.clock).handoff w.clock s.handoff
  match time with
  | some time => waitUntil s time
  | none => pure ()
  match outcome with
  | .ok _ =>
    modify fun w => { w with letters := w.letters.put payload }
    note (.offered (.letter payload) none)
  | .error rejection => note (.offered (.letter payload) (some rejection))
  return outcome

end Run

/-- A message as a source delivers it: its number, its payload, and how its acknowledgement goes. -/
structure Message where
  number : Nat
  payload : Text.Bytes
  acknowledging : Fault
  deriving DecidableEq, Repr

namespace Run

variable {σ α : Type}

def acknowledge (s : Setup σ) (m : Message) : Run σ (Except Error Unit) := do
  note (.acknowledged m.number)
  wait s m.acknowledging.delay
  match m.acknowledging.failure with
  | some text => return .error (.network text)
  | none => return .ok ()

/-- Answers the requests of a program that has a message in hand. -/
def answer (s : Setup σ) (m : Message) : (r : Request) → Run σ r.Answer
  | .time => do return (← get).instant
  | .bound ms => modify fun w => { w with deadline := w.clock + ms }
  | .ledger call => callLedger s call
  | .alert a => offerAlert s a
  | .letter payload => offerLetter s payload
  | .acknowledge => acknowledge s m
  | .count metric => count metric

/-- Runs a program that has a message in hand. -/
def program (s : Setup σ) (m : Message) (p : Program α) : Run σ α :=
  p.run (answer s m) (throw .overflow)

def attempt (s : Setup σ) (m : Message) : Run σ (Except Error Outcome) :=
  program s m (Delivery.attempt s.rate s.attemptTimeout m.payload)

def settle (s : Setup σ) (m : Message) : Run σ Disposition :=
  program s m (Delivery.settle s.rate s.attemptTimeout m.payload)

end Run

end UsageLedger.Delivery
