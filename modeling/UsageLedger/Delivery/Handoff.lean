import UsageLedger.Metrics

/-! The handoff to a side channel: a queue of one place that a producer waits for only so long. A producer
that is not served in time keeps its item, and one whose receiver is gone is told at once. Times are in
milliseconds. -/

namespace UsageLedger.Delivery

/-- Why a handoff did not take place. -/
inductive Rejection
  | timedOut
  | closed
  deriving DecidableEq, Repr

def Rejection.message : Rejection → String
  | timedOut => "sink did not accept within the handoff bound"
  | closed => "sink is closed"

/-- Who takes items out of a queue: nobody any more, nobody yet, or a publisher, which takes the next item
as soon as it is done with the one before; one that is never done has no time at which it is free. -/
inductive Receiver
  | gone
  | idle
  | publisher (subject : String) (freeAt : Option Nat)
  deriving DecidableEq, Repr

/-- A queue of one place. -/
structure Queue (α : Type) where
  slot : Option α
  receiver : Receiver
  deriving DecidableEq, Repr

/-- When there is room in a queue. -/
inductive Room
  | now
  | later (time : Nat)
  | never
  | closed
  | closing (time : Nat)
  deriving DecidableEq, Repr

/-- What becomes of an item that is offered at `start` and may wait for `bound`, and until when its
producer waits, if it does. -/
def Room.handoff (start bound : Nat) : Room → Except Rejection Unit × Option Nat
  | now => (.ok (), none)
  | closed => (.error .closed, none)
  | later time =>
    if bound = 0 then (.error .timedOut, none)
    else if time < start + bound then (.ok (), some time)
    else (.error .timedOut, some (start + bound))
  | closing time =>
    if bound = 0 then (.error .timedOut, none)
    else if time < start + bound then (.error .closed, some time)
    else (.error .timedOut, some (start + bound))
  | never => (.error .timedOut, if bound = 0 then none else some (start + bound))

namespace Queue

variable {α : Type}

/-- A queue that nobody takes from yet. -/
def undrained : Queue α := ⟨none, .idle⟩

/-- A queue that a publisher takes from. -/
def drainedTo (subject : String) (time : Nat) : Queue α := ⟨none, .publisher subject (some time)⟩

/-- The queue once its receiver is gone, and with it what was waiting. -/
def closed : Queue α := ⟨none, .gone⟩

def put (q : Queue α) (item : α) : Queue α := { q with slot := some item }

def clear (q : Queue α) : Queue α := { q with slot := none }

/-- When a publisher takes the waiting item, if one waits and the publisher is ever free. -/
def takenAt? (q : Queue α) (time : Nat) : Option Nat :=
  match q with
  | ⟨some _, .publisher _ (some freeAt)⟩ => some (max time freeAt)
  | _ => none

/-- When there is room, as seen at a given time. -/
def room (q : Queue α) (time : Nat) : Room :=
  match q.receiver, q.slot with
  | .gone, _ => .closed
  | _, none => .now
  | _, some _ =>
    match q.takenAt? time with
    | some taken => .later taken
    | none => .never

end Queue

/-- What a receiver does while an item is offered: nothing, take one item after a time, or go. -/
inductive Meanwhile
  | nothing
  | takes (delay : Nat)
  | goes (delay : Nat)
  deriving DecidableEq, Repr

/-- What came of an offer: its outcome, how long it took, and what the receiver took meanwhile. -/
structure Offered (α : Type) where
  outcome : Except Rejection Unit
  after : Nat
  received : Option α

def Queue.offerDuring {α : Type} (q : Queue α) (bound : Nat) (item : α) (meanwhile : Meanwhile) :
    Offered α × Queue α :=
  let room :=
    match q.receiver, q.slot, meanwhile with
    | .gone, _, _ => Room.closed
    | _, none, _ => .now
    | _, some _, .nothing => .never
    | _, some _, .takes delay => .later delay
    | _, some _, .goes delay => .closing delay
  let (outcome, wait) := room.handoff 0 bound
  let accepted := match outcome with | .ok _ => [item] | .error _ => []
  let waiting := q.slot.toList ++ accepted
  match q.receiver, meanwhile with
  | .gone, _ => (⟨outcome, wait.getD 0, none⟩, Queue.closed)
  | r, .nothing => (⟨outcome, wait.getD 0, none⟩, ⟨waiting.head?, r⟩)
  | r, .takes _ => (⟨outcome, wait.getD 0, waiting.head?⟩, ⟨waiting.tail.head?, r⟩)
  | _, .goes _ => (⟨outcome, wait.getD 0, none⟩, Queue.closed)

end UsageLedger.Delivery
