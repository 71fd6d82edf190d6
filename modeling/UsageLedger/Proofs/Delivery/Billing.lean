import UsageLedger.Proofs.Delivery.Settlement

/-! What a settlement asks for, however it is answered: which calls on the ledger, which requests come
after a posting, and how many requests there are in all. Every posting that is asked for is the bill of
the payload in hand. -/

namespace UsageLedger.Delivery

open Program

variable {rate : Decimal} {bound : Nat} {payload : Text.Bytes} {e : Event}

/-- A bill of a payload: the statement of the event that it carries, at the amount of the event. -/
def IsBill (rate : Decimal) (payload : Text.Bytes) (s : Statement) : Prop :=
  ∃ e x amount, Event.decode payload = .ok e ∧ e.details = .ok x ∧ Credit.amount? rate e = some amount ∧
    s = Statement.ofEvent e x amount s.createdAt

theorem IsBill.scale_le {s : Statement} (h : IsBill rate payload s) : s.amount.scale ≤ amountPlaces := by
  obtain ⟨e, x, amount, -, -, hamount, hs⟩ := h
  rw [hs]
  exact Credit.scale_le_of_amount? hamount

/-- The bytes of a message that bills a user one credit. -/
def creditPayload : Text.Bytes :=
  Text.encode
    "\x7b\"uuid\":\"00000000-0000-0000-0000-000000000001\",\"user_id\":\"u\",\"value\":1,\"created_at\":\"2020-01-01T00:00:00Z\"\x7d".toList

/-- Whether a call, if it posts, posts a bill of a payload at its amount. -/
def Bills (rate : Decimal) (payload : Text.Bytes) (call : Ledger.Call) : Prop :=
  ∀ s delta, call = .create s delta → IsBill rate payload s ∧ delta = s.amount

/-- Whether the event of a payload has details and yet no amount. -/
def Overflows (rate : Decimal) (payload : Text.Bytes) : Prop :=
  ∃ e x, Event.decode payload = .ok e ∧ e.details = .ok x ∧ Credit.amount? rate e = none

/-- What an attempt may ask for: calls on the ledger that post nothing but bills, and anything that is
neither a dead letter nor an acknowledgement. -/
def AttemptAsks (rate : Decimal) (payload : Text.Bytes) : Request → Prop
  | .ledger call => Bills rate payload call
  | .letter _ => False
  | .acknowledge => False
  | _ => True

/-- What a settlement may ask for: what attempts may, the payload as a dead letter, acknowledgements. -/
def SettlementAsks (rate : Decimal) (payload : Text.Bytes) : Request → Prop
  | .ledger call => Bills rate payload call
  | .letter letter => letter = payload
  | _ => True

theorem AttemptAsks.settlementAsks {r : Request} (h : AttemptAsks rate payload r) :
    SettlementAsks rate payload r := by
  cases r with
  | letter => exact h.elim
  | ledger call => exact h
  | _ => trivial

theorem Meets.proceed {γ α β : Type} {around : Surroundings γ} {c : Contract γ (Except Setback α)} {g : γ}
    {f : β → Program (Except Setback α)} {answer : Option (Except Error β)}
    (hlate : c.ends (.error .late) g) (hfailed : ∀ e, c.ends (.error (.failed e)) g)
    (hreply : ∀ reply, answer = some (.ok reply) → (f reply).Meets around c g) :
    (Posting.proceed f answer).Meets around c g := by
  rcases answer with _ | (e | reply)
  · exact hlate
  · exact hfailed e
  · exact hreply reply rfl

/-- A posting asks only for what an attempt may, and it overflows only where the event has no amount. -/
theorem post_meets (hdecode : Event.decode payload = .ok e) :
    (post rate e).run.Meets anyhow
      (.plain (AttemptAsks rate payload) (fun _ => True) (Overflows rate payload)) () := by
  have hplain : ∀ {call : Ledger.Call}, (∀ s delta, call ≠ .create s delta) → Bills rate payload call :=
    fun hcall s delta heq => (hcall s delta heq).elim
  rw [run_post]
  refine ⟨hplain (by simp), fun _ _ _ => Meets.proceed trivial (fun _ => trivial) fun _ _ => ?_⟩
  refine ⟨hplain (by simp), fun _ _ _ => Meets.proceed trivial (fun _ => trivial) fun found _ => ?_⟩
  cases found with
  | some s => trivial
  | none =>
      refine ⟨hplain (by simp), fun _ _ _ => Meets.proceed trivial (fun _ => trivial) fun _ _ => ?_⟩
      rw [postStatement]
      split
      · trivial
      · rename_i x hdetails
        split
        · rename_i hamount
          exact ⟨e, x, hdecode, hdetails, hamount⟩
        · rename_i amount hamount
          refine ⟨trivial, fun createdAt _ _ => ⟨?_, fun _ _ _ => ?_⟩⟩
          · intro s delta heq
            obtain ⟨rfl, rfl⟩ := Ledger.Call.create.inj heq
            exact ⟨⟨e, x, amount, hdecode, hdetails, hamount, rfl⟩, rfl⟩
          · exact Meets.proceed trivial (fun _ => trivial) fun _ _ => trivial

/-- What an attempt asks for after its posting: to count, to read the balance, to raise an alert. -/
def Request.IsAside : Request → Prop
  | .ledger (.balance _) => True
  | .ledger _ => False
  | .letter _ => False
  | .acknowledge => False
  | _ => True

/-- What an attempt comes to, by what its posting came to. -/
def Concludes (bound : Nat) (e : Event) :
    Except Setback (Option Statement) → Except Error Outcome → Prop
  | .error .late, result => result = .error (.slowPosting e.id bound)
  | .error (.failed error), result => result = .error error
  | .ok none, result => result = .ok .duplicate
  | .ok (some s), result => ∃ balance, result = .ok (.posted s balance)

theorem raiseAlert_meets (e : Event) :
    (raiseAlert e).Meets anyhow (.plain Request.IsAside (fun _ => True) False) () := by
  rw [raiseAlert]
  apply Meets.request trivial
  intro createdAt _ _
  apply Meets.request trivial
  intro outcome _ _
  cases outcome with
  | ok accepted => exact ⟨trivial, fun _ _ _ => trivial⟩
  | error rejection => exact ⟨trivial, fun _ _ _ => trivial⟩

theorem alertIfExhausted_meets (e : Event) (balance : Option Decimal) :
    (alertIfExhausted e balance).Meets anyhow (.plain Request.IsAside (fun _ => True) False) () := by
  unfold alertIfExhausted
  split
  · split
    · exact raiseAlert_meets e
    · trivial
  · trivial

theorem currentBalance_meets (bound : Nat) (user : String) :
    (currentBalance bound user).Meets anyhow (.plain Request.IsAside (fun _ => True) False) () := by
  rw [currentBalance]
  apply Meets.request trivial
  intro _ _ _
  apply Meets.request trivial
  intro answer _ _
  rcases answer with _ | (error | balance) <;> trivial

/-- What comes after a posting neither overflows nor touches what was posted. -/
theorem attemptPosted_meets (bound : Nat) (e : Event) (posted : Except Setback (Option Statement)) :
    (attemptPosted bound e posted).Meets anyhow
      (.plain Request.IsAside (Concludes bound e posted) False) () := by
  rcases posted with (_ | error) | (_ | s)
  · rfl
  · rfl
  · exact Meets.request trivial fun _ _ _ => rfl
  · apply Meets.request trivial
    intro _ _ _
    apply Meets.bind (currentBalance_meets bound e.user)
    intro balance _ _
    exact Meets.bind (alertIfExhausted_meets e balance) fun _ _ _ => ⟨balance, rfl⟩

theorem Request.IsAside.attemptAsks {r : Request} (h : r.IsAside) : AttemptAsks rate payload r := by
  cases r with
  | ledger call =>
      cases call with
      | balance user => exact fun s delta heq => by cases heq
      | _ => exact h.elim
  | letter => exact h
  | acknowledge => exact h
  | _ => trivial

/-! ### Whole attempts -/

theorem attempt_meets (rate : Decimal) (bound : Nat) (payload : Text.Bytes) :
    (attempt rate bound payload).Meets anyhow
      (.plain (AttemptAsks rate payload) (fun _ => True) (Overflows rate payload)) () := by
  cases hdecode : Event.decode payload with
  | error error =>
      rw [attempt_of_error hdecode]
      trivial
  | ok e =>
      rw [attempt_of_ok hdecode]
      refine ⟨trivial, fun _ _ _ => Meets.bind (post_meets hdecode) fun posted _ _ => ?_⟩
      exact (attemptPosted_meets bound e posted).mono (fun _ _ h => h.attemptAsks) (fun _ _ _ => trivial)
        fun _ h => h.elim

theorem attemptResults_meets (rate : Decimal) (bound : Nat) (payload : Text.Bytes) (n : Nat) :
    (attemptResults rate bound payload n).Meets anyhow
      (.plain (AttemptAsks rate payload) (fun _ => True) (Overflows rate payload)) () := by
  induction n with
  | zero => trivial
  | succ n ih =>
      apply Meets.bind (attempt_meets rate bound payload)
      intro result _ _
      cases result with
      | ok outcome => trivial
      | error error => exact Meets.request trivial fun _ _ _ => Meets.bind ih fun _ _ _ => trivial

/-- What comes after the attempts does not overflow. -/
theorem conclude_meets (rate : Decimal) (payload : Text.Bytes) (results : List (Except Error Outcome)) :
    (conclude payload results).Meets anyhow
      (.plain (SettlementAsks rate payload) (fun _ => True) False) () := by
  unfold conclude
  split
  · exact Meets.request trivial fun _ _ _ => trivial
  · apply Meets.request rfl
    intro outcome _ _
    cases outcome with
    | ok accepted => exact Meets.request trivial fun _ _ _ => Meets.request trivial fun _ _ _ => trivial
    | error rejection => exact Meets.request trivial fun _ _ _ => trivial

/-- A settlement posts nothing but bills of its payload, gives nothing else to the dead letters, and
overflows only where the event has no amount. -/
theorem settlement_meets (rate : Decimal) (bound : Nat) (payload : Text.Bytes) :
    (settlement rate bound payload).Meets anyhow
      (.plain (SettlementAsks rate payload) (fun _ => True) (Overflows rate payload)) () := by
  refine Meets.bind ((attemptResults_meets rate bound payload Limits.attempts).mono
    (fun _ _ h => h.settlementAsks) (fun _ _ h => h) fun _ h => h) fun results _ _ => ?_
  exact (conclude_meets rate payload results).mono (fun _ _ h => h) (fun _ _ h => h) fun _ h => h.elim

/-! ### The number of requests -/

theorem AsksAtMost.request {α : Type} {r : Request} {f : r.Answer → Program α} {n : Nat}
    (hf : ∀ a, (f a).AsksAtMost n) : (request r >>= f).AsksAtMost (n + 1) := hf

theorem AsksAtMost.proceed {α β : Type} {f : β → Program (Except Setback α)} {n : Nat}
    (hf : ∀ reply, (f reply).AsksAtMost n) (answer : Option (Except Error β)) :
    (Posting.proceed f answer).AsksAtMost n := by
  rcases answer with _ | (e | reply)
  · cases n <;> trivial
  · cases n <;> trivial
  · exact hf reply

theorem post_asksAtMost (rate : Decimal) (e : Event) : (post rate e).run.AsksAtMost 5 := by
  rw [run_post]
  apply AsksAtMost.proceed
  intro _
  apply AsksAtMost.proceed
  intro found
  cases found with
  | some s => trivial
  | none =>
      apply AsksAtMost.proceed
      intro _
      rw [postStatement]
      split
      · trivial
      · split
        · trivial
        · exact fun createdAt => AsksAtMost.proceed fun _ => trivial

theorem attemptPosted_asksAtMost (bound : Nat) (e : Event) (posted : Except Setback (Option Statement)) :
    (attemptPosted bound e posted).AsksAtMost 6 := by
  rcases posted with (_ | error) | (_ | s)
  · trivial
  · trivial
  · exact AsksAtMost.request fun _ => trivial
  · have hbalance : (currentBalance bound e.user).AsksAtMost 2 := by
      apply AsksAtMost.request
      intro _
      apply AsksAtMost.request
      intro answer
      rcases answer with _ | (error | balance) <;> trivial
    have halert : ∀ balance, (alertIfExhausted e balance).AsksAtMost 3 := by
      intro balance
      unfold alertIfExhausted
      split
      · split
        · apply AsksAtMost.request
          intro createdAt
          apply AsksAtMost.request
          intro outcome
          cases outcome with
          | ok accepted => exact fun _ => trivial
          | error rejection => exact fun _ => trivial
        · trivial
      · trivial
    have hlast : ∀ balance, (alertIfExhausted e balance >>= fun _ =>
        (pure (.ok (.posted s balance)) : Program (Except Error Outcome))).AsksAtMost (3 + 0) :=
      fun balance => (halert balance).bind fun _ => trivial
    exact AsksAtMost.request fun _ => hbalance.bind hlast

theorem attempt_asksAtMost (rate : Decimal) (bound : Nat) (payload : Text.Bytes) :
    (attempt rate bound payload).AsksAtMost 12 := by
  cases hdecode : Event.decode payload with
  | error error =>
      rw [attempt_of_error hdecode]
      trivial
  | ok e =>
      rw [attempt_of_ok hdecode]
      exact fun _ => (post_asksAtMost rate e).bind (attemptPosted_asksAtMost bound e)

theorem attemptResults_asksAtMost (rate : Decimal) (bound : Nat) (payload : Text.Bytes) (n : Nat) :
    (attemptResults rate bound payload n).AsksAtMost (13 * n) := by
  induction n with
  | zero => trivial
  | succ n ih =>
      rw [show 13 * (n + 1) = 12 + (13 * n + 1) by omega]
      apply (attempt_asksAtMost rate bound payload).bind
      intro result
      cases result with
      | ok outcome => trivial
      | error error =>
          apply AsksAtMost.request
          intro _
          have hrest : ∀ results, (pure (.error error :: results) :
              Program (List (Except Error Outcome))).AsksAtMost 0 := fun _ => trivial
          exact ih.bind hrest

/-- A settlement comes to its end after so many requests, however they are answered. -/
theorem settlement_asksAtMost (rate : Decimal) (bound : Nat) (payload : Text.Bytes) :
    (settlement rate bound payload).AsksAtMost (13 * Limits.attempts + 3) := by
  apply (attemptResults_asksAtMost rate bound payload Limits.attempts).bind
  intro results
  unfold conclude
  split
  · exact AsksAtMost.request fun _ => trivial
  · apply AsksAtMost.request
    intro outcome
    cases outcome with
    | ok accepted => exact AsksAtMost.request fun _ => AsksAtMost.request fun _ => trivial
    | error rejection => exact AsksAtMost.request fun _ => trivial

end UsageLedger.Delivery
