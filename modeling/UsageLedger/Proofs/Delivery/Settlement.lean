import UsageLedger.Delivery.Attempt
import UsageLedger.Proofs.Delivery.Contract

/-! Settlements: the handling of a message with a record of what its attempts came to. The record is kept
beside the handling and changes nothing in it: the same requests are made in the same order, and the
disposition is the same. -/

namespace UsageLedger.Delivery

variable {α : Type}

/-- What came of a message: its disposition, and the results of its attempts, the first one first. -/
structure Settlement where
  disposition : Disposition
  results : List (Except Error Outcome)

/-- Attempts a payload up to a number of times, until one attempt succeeds; the results of the attempts. -/
def attemptResults (rate : Decimal) (bound : Nat) (payload : Text.Bytes) :
    Nat → Program (List (Except Error Outcome))
  | 0 => return []
  | n + 1 => do
    match ← attempt rate bound payload with
    | .ok outcome => return [.ok outcome]
    | .error e =>
      let _ ← Program.request (.count .failedAttempts)
      return .error e :: (← attemptResults rate bound payload n)

def succeeded (results : List (Except Error Outcome)) : Bool := results.any Except.isOk

/-- What is done with a message after its attempts. -/
def conclude (payload : Text.Bytes) (results : List (Except Error Outcome)) : Program Settlement :=
  if succeeded results then do
    let _ ← Program.request .acknowledge
    return ⟨.acknowledged, results⟩
  else do
    match ← Program.request (.letter payload) with
    | .ok _ =>
      let _ ← Program.request (.count .deadLettered)
      let _ ← Program.request .acknowledge
      return ⟨.deadLettered, results⟩
    | .error _ =>
      let _ ← Program.request (.count .leftForRedelivery)
      return ⟨.leftForRedelivery, results⟩

/-- Settles a message, and says what its attempts came to. -/
def settlement (rate : Decimal) (bound : Nat) (payload : Text.Bytes) : Program Settlement := do
  conclude payload (← attemptResults rate bound payload Limits.attempts)

theorem attempts_eq (rate : Decimal) (bound : Nat) (payload : Text.Bytes) (n : Nat) :
    attempts rate bound payload n = succeeded <$> attemptResults rate bound payload n := by
  induction n with
  | zero => rfl
  | succ n ih =>
      rw [attempts, attemptResults, map_bind]
      apply bind_congr
      rintro (e | outcome)
      · simp only [map_bind, ih, bind_pure_comp, Functor.map_map]
        rfl
      · rfl

/-- Settling with a record is settling. -/
theorem settle_eq (rate : Decimal) (bound : Nat) (payload : Text.Bytes) :
    settle rate bound payload = Settlement.disposition <$> settlement rate bound payload := by
  rw [settle, settlement, attempts_eq, map_bind, bind_map_left]
  apply bind_congr
  intro results
  rw [conclude]
  split
  · rfl
  · rw [map_bind]
    apply bind_congr
    rintro (rejection | accepted) <;> rfl

/-! ### The requests of a posting -/

/-- What a posting does with the answer to a ledger call: it goes on with a reply, and is set back by
anything else. -/
def Posting.proceed {β : Type} (f : β → Program (Except Setback α)) :
    Option (Except Error β) → Program (Except Setback α)
  | none => .done (.error .late)
  | some (.error e) => .done (.error (.failed e))
  | some (.ok reply) => f reply

theorem run_call_bind (c : Ledger.Call) (f : c.Reply → Posting α) :
    (Posting.call c >>= f).run = .ask (.ledger c) (Posting.proceed fun reply => (f reply).run) := by
  change Program.ask _ _ = _
  congr 1
  funext answer
  rcases answer with _ | (e | reply) <;> rfl

/-- What a posting does once its account is open. -/
def postStatement (rate : Decimal) (e : Event) : Program (Except Setback (Option Statement)) :=
  match e.details with
  | .error error => .done (.error (.failed error))
  | .ok extra =>
    match Credit.amount? rate e with
    | none => .overflow
    | some amount =>
      .ask .time fun createdAt =>
        .ask (.ledger (.create (Statement.ofEvent e extra amount createdAt) amount))
          (Posting.proceed fun _ => .done (.ok (some (Statement.ofEvent e extra amount createdAt))))

/-- A posting, request by request. -/
theorem run_post (rate : Decimal) (e : Event) :
    (post rate e).run =
      .ask (.ledger (.record e)) (Posting.proceed fun _ =>
        .ask (.ledger (.find e.id)) (Posting.proceed fun found =>
          match found with
          | some _ => .done (.ok none)
          | none => .ask (.ledger (.ensure e.user)) (Posting.proceed fun _ => postStatement rate e))) := by
  refine (run_call_bind _ _).trans ?_
  congr 2
  funext _
  refine (run_call_bind _ _).trans ?_
  congr 2
  funext found
  cases found with
  | some s => rfl
  | none =>
      refine (run_call_bind _ _).trans ?_
      congr 2
      funext _
      rw [postStatement]
      cases e.details with
      | error error => rfl
      | ok extra =>
          cases hamount : Credit.amount? rate e with
          | none =>
              simp only [Posting.lift, Posting.amount, hamount]
              rfl
          | some amount =>
              simp only [Posting.lift, Posting.amount, hamount, pure_bind]
              change Program.ask _ _ = _
              congr 1
              funext createdAt
              exact run_call_bind _ _

def alertIfExhausted (e : Event) : Option Decimal → Program Unit
  | some balance => if balance.isNonpositive then raiseAlert e else return ()
  | none => return ()

/-- What an attempt does after its posting. -/
def attemptPosted (bound : Nat) (e : Event) :
    Except Setback (Option Statement) → Program (Except Error Outcome)
  | .error .late => return .error (.slowPosting e.id bound)
  | .error (.failed error) => return .error error
  | .ok none => do
    let _ ← Program.request (.count .duplicateEvents)
    return .ok .duplicate
  | .ok (some statement) => do
    let _ ← Program.request (.count .statementsPosted)
    let balance ← currentBalance bound e.user
    let _ ← alertIfExhausted e balance
    return .ok (.posted statement balance)

theorem attempt_of_error {payload : Text.Bytes} {error : Error} (h : Event.decode payload = .error error)
    (rate : Decimal) (bound : Nat) : attempt rate bound payload = .done (.error error) := by
  rw [attempt, h]
  rfl

theorem attempt_of_ok {payload : Text.Bytes} {e : Event} (h : Event.decode payload = .ok e)
    (rate : Decimal) (bound : Nat) :
    attempt rate bound payload = .ask (.bound bound) fun _ => (post rate e).run >>= attemptPosted bound e := by
  rw [attempt, h]
  change Program.ask _ _ = _
  congr 1
  funext _
  apply bind_congr
  rintro ((_ | error) | (_ | statement))
  · rfl
  · rfl
  · rfl
  · apply bind_congr
    intro _
    apply bind_congr
    rintro (_ | balance)
    · rfl
    · rw [alertIfExhausted]
      dsimp only
      split <;> rfl

end UsageLedger.Delivery
