import UsageLedger.Alert
import UsageLedger.Delivery.Handoff
import UsageLedger.Ledger.Call

/-! Programs of a consumer: what it asks of the world around it, one request after the other, each with
what it does on every answer. A program says nothing of time or of faults; whoever runs it decides how
each request is answered. -/

namespace UsageLedger.Delivery

/-- A request: to be told the time, to start a time bound, to call the ledger within the bound, to hand
over an alert or a dead letter, to acknowledge the message in hand, to count something. -/
inductive Request
  | time
  | bound (ms : Nat)
  | ledger (call : Ledger.Call)
  | alert (a : Alert)
  | letter (payload : Text.Bytes)
  | acknowledge
  | count (m : Metric)
  deriving DecidableEq, Repr

/-- What a request is answered with; a call on the ledger that is not answered within the bound has no
answer. -/
def Request.Answer : Request → Type
  | time => Instant
  | bound _ => Unit
  | ledger call => Option (Except Error call.Reply)
  | alert _ => Except Rejection Unit
  | letter _ => Except Rejection Unit
  | acknowledge => Except Error Unit
  | count _ => Unit

/-- A program: done with a result, ended by a product that no decimal holds, or waiting for an answer. -/
inductive Program (α : Type) : Type
  | done (result : α)
  | overflow
  | ask (request : Request) (next : request.Answer → Program α)

namespace Program

variable {α β γ : Type}

/-- A program followed by another on its result. -/
def bind : Program α → (α → Program β) → Program β
  | done a, f => f a
  | overflow, _ => overflow
  | ask r next, f => ask r fun answer => (next answer).bind f

instance : Monad Program where
  pure := done
  bind := bind

/-- One request as a program. -/
def request (r : Request) : Program r.Answer := ask r done

/-- Runs a program where requests are answered by `answer` and an overflow ends in `overflowed`. -/
def run {m : Type → Type} [Monad m] (answer : (r : Request) → m r.Answer) (overflowed : m α) :
    Program α → m α
  | done a => pure a
  | overflow => overflowed
  | ask r next => answer r >>= fun a => (next a).run answer overflowed

@[simp] theorem bind_done (a : α) (f : α → Program β) : (done a).bind f = f a := rfl

@[simp] theorem bind_overflow (f : α → Program β) : (overflow : Program α).bind f = overflow := rfl

@[simp] theorem bind_ask (r : Request) (next : r.Answer → Program α) (f : α → Program β) :
    (ask r next).bind f = ask r fun answer => (next answer).bind f := rfl

theorem bind_done_right (p : Program α) : p.bind done = p := by
  induction p with
  | done => rfl
  | overflow => rfl
  | ask r next ih => simp [ih]

theorem bind_assoc (p : Program α) (f : α → Program β) (g : β → Program γ) :
    (p.bind f).bind g = p.bind fun a => (f a).bind g := by
  induction p with
  | done => rfl
  | overflow => rfl
  | ask r next ih => simp [ih]

instance : LawfulMonad Program :=
  LawfulMonad.mk' Program bind_done_right (fun _ _ => rfl) bind_assoc

end Program

end UsageLedger.Delivery
