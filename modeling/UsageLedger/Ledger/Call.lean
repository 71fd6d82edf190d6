import UsageLedger.Statement

/-! What a consumer asks of a ledger. A call is answered with its own kind of reply or with an error, and
may change the ledger. -/

namespace UsageLedger.Ledger

/-- A call on a ledger: to record an event for audit, to find the statement of an event, to make sure that
an account exists, to post a statement with its effect on the balance, to read a balance. -/
inductive Call
  | record (event : Event)
  | find (id : Uuid)
  | ensure (user : String)
  | create (statement : Statement) (delta : Decimal)
  | balance (user : String)
  deriving DecidableEq, Repr

/-- What a call that succeeds is answered with. -/
def Call.Reply : Call → Type
  | record _ => Unit
  | find _ => Option Statement
  | ensure _ => Unit
  | create _ _ => Unit
  | balance _ => Decimal

/-- How ledgers of type `σ` answer calls. -/
abbrev Service (σ : Type) := (call : Call) → σ → Except Error call.Reply × σ

end UsageLedger.Ledger
