import UsageLedger.Credit
import UsageLedger.Delivery.Program
import UsageLedger.Limits

/-! Attempts at a message, and how a message is settled. One attempt reads the event, records it for
audit, looks for its statement, opens the account, posts, and raises an alert when nothing is left on the
account. An event that has its statement already is a success without effect, so a message may be
delivered again and again. A message is attempted a few times; one that keeps failing goes to the dead
letters, and if they do not take it, it stays with the broker. -/

namespace UsageLedger.Delivery

/-- Why a posting came to nothing: a call was not answered in time, or an error. -/
inductive Setback
  | late
  | failed (e : Error)
  deriving DecidableEq, Repr

/-- Programs that may be set back. -/
abbrev Posting := ExceptT Setback Program

/-- Calls the ledger. -/
def Posting.call (c : Ledger.Call) : Posting c.Reply :=
  ExceptT.mk <| .ask (.ledger c) fun
    | none => .done (.error .late)
    | some (.error e) => .done (.error (.failed e))
    | some (.ok reply) => .done (.ok reply)

/-- What a result or an error means for a posting. -/
def Posting.lift {α : Type} : Except Error α → Posting α
  | .ok a => pure a
  | .error e => throw (.failed e)

/-- The amount of an event; a product that no decimal holds ends the program. -/
def Posting.amount (rate : Decimal) (e : Event) : Posting Decimal :=
  match Credit.amount? rate e with
  | some amount => pure amount
  | none => ExceptT.mk .overflow

/-- Posts an event; there is no statement if the event has one already. -/
def post (rate : Decimal) (e : Event) : Posting (Option Statement) := do
  Posting.call (.record e)
  match ← Posting.call (.find e.id) with
  | some _ => return none
  | none =>
    Posting.call (.ensure e.user)
    let extra ← Posting.lift e.details
    let amount ← Posting.amount rate e
    let createdAt ← (Program.request .time : Program Instant)
    let statement := Statement.ofEvent e extra amount createdAt
    Posting.call (.create statement amount)
    return some statement

/-- What a successful attempt came to. -/
inductive Outcome
  | posted (statement : Statement) (balance : Option Decimal)
  | duplicate
  deriving DecidableEq, Repr

/-- The balance of a user, if the ledger gives it in time. -/
def currentBalance (bound : Nat) (user : String) : Program (Option Decimal) := do
  let _ ← Program.request (.bound bound)
  match ← Program.request (.ledger (.balance user)) with
  | some (.ok balance) => return some balance
  | _ => return none

/-- Hands over the alert on an event that left nothing on the account. -/
def raiseAlert (e : Event) : Program Unit := do
  let createdAt ← (Program.request .time : Program Instant)
  match ← Program.request (.alert (Alert.lackOfBalance e createdAt)) with
  | .ok _ => Program.request (.count .alertsSent)
  | .error _ => Program.request (.count .alertsDropped)

def attempt (rate : Decimal) (bound : Nat) (payload : Text.Bytes) : Program (Except Error Outcome) :=
  match Event.decode payload with
  | .error e => return .error e
  | .ok e => do
    let _ ← Program.request (.bound bound)
    match ← (post rate e).run with
    | .error .late => return .error (.slowPosting e.id bound)
    | .error (.failed error) => return .error error
    | .ok none =>
      let _ ← Program.request (.count .duplicateEvents)
      return .ok .duplicate
    | .ok (some statement) =>
      let _ ← Program.request (.count .statementsPosted)
      let balance ← currentBalance bound e.user
      match balance with
      | some b => if b.isNonpositive then raiseAlert e
      | none => pure ()
      return .ok (.posted statement balance)

/-- What became of a message. -/
inductive Disposition
  | acknowledged
  | deadLettered
  | leftForRedelivery
  deriving DecidableEq, Repr

/-- Attempts a payload up to a number of times, until one attempt succeeds; whether one did. -/
def attempts (rate : Decimal) (bound : Nat) (payload : Text.Bytes) : Nat → Program Bool
  | 0 => return false
  | n + 1 => do
    match ← attempt rate bound payload with
    | .ok _ => return true
    | .error _ =>
      let _ ← Program.request (.count .failedAttempts)
      attempts rate bound payload n

/-- Settles a message. An acknowledgement that fails changes nothing. -/
def settle (rate : Decimal) (bound : Nat) (payload : Text.Bytes) : Program Disposition := do
  if ← attempts rate bound payload Limits.attempts then
    let _ ← Program.request .acknowledge
    return .acknowledged
  else
    match ← Program.request (.letter payload) with
    | .ok _ =>
      let _ ← Program.request (.count .deadLettered)
      let _ ← Program.request .acknowledge
      return .deadLettered
    | .error _ =>
      let _ ← Program.request (.count .leftForRedelivery)
      return .leftForRedelivery

end UsageLedger.Delivery
