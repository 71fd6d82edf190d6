import Mathlib.Logic.Function.Iterate
import UsageLedger.Delivery.FetchLoop
import UsageLedger.Ledger.InMemory
import UsageLedger.Proofs.Delivery.Settlement
import UsageLedger.Proofs.Delivery.Surroundings

/-! Sessions: messages settled one after another in a world, with a state after every single request. The
settling of a list of messages in one go comes to the same, so what holds of every state of a session
holds of all that a consumer does, and also of where it stops when the world ends or a product
overflows. -/

namespace UsageLedger.Delivery

variable {σ α : Type}

def Setup.inMemory (rate : Decimal) (attemptTimeout handoff : Nat) (horizon : Option Nat) :
    Setup Ledger.InMemory := ⟨Ledger.InMemory.serve, rate, attemptTimeout, handoff, horizon⟩

/-- What a consumer has in hand: nothing; a message, with what had been done before it was taken and with
what is left of its settlement; or nothing for good. -/
inductive Hand
  | free
  | busy (m : Message) (before : List Happening) (rest : Program Settlement)
  | halted (halt : Halt)

def Hand.isAcknowledging : Hand → Bool
  | busy _ _ (.ask .acknowledge _) => true
  | _ => false

theorem Hand.exists_of_isAcknowledging {hand : Hand} (h : hand.isAcknowledging = true) :
    ∃ m before next, hand = .busy m before (.ask .acknowledge next) := by
  unfold isAcknowledging at h
  split at h
  · exact ⟨_, _, _, rfl⟩
  · cases h

/-- The state of a session: the world, what is in hand, the messages that were delivered so far, the one
in hand included, and those that wait. -/
structure Session (σ : Type) where
  world : World σ
  hand : Hand
  delivered : List Message
  waiting : List Message

namespace Session

def begin (w : World σ) (messages : List Message) : Session σ := ⟨w, .free, [], messages⟩

/-- One step: the next message is taken, or a request is answered, or a message is put down. -/
def step (s : Setup σ) : Session σ → Session σ
  | ⟨w, .free, delivered, []⟩ => ⟨w, .free, delivered, []⟩
  | ⟨w, .free, delivered, m :: more⟩ =>
    ⟨w, .busy m w.standing.deeds (settlement s.rate s.attemptTimeout m.payload), delivered ++ [m], more⟩
  | ⟨w, .busy _ _ (.done _), delivered, waiting⟩ => ⟨w, .free, delivered, waiting⟩
  | ⟨w, .busy _ _ .overflow, delivered, waiting⟩ => ⟨w, .halted .overflow, delivered, waiting⟩
  | ⟨w, .busy m before (.ask r next), delivered, waiting⟩ =>
    match Run.exec (Run.answer s m r) w with
    | (.ok a, w') => ⟨w', .busy m before (next a), delivered, waiting⟩
    | (.error halt, w') => ⟨w', .halted halt, delivered, waiting⟩
  | ⟨w, .halted halt, delivered, waiting⟩ => ⟨w, .halted halt, delivered, waiting⟩

def after (s : Setup σ) (x : Session σ) (n : Nat) : Session σ := (step s)^[n] x

variable {s : Setup σ} {x : Session σ} {w : World σ} {m : Message} {before : List Happening}
  {delivered waiting : List Message}

theorem after_succ (n : Nat) : x.after s (n + 1) = (x.after s n).step s :=
  Function.iterate_succ_apply' (step s) n x

theorem after_step (n : Nat) : (x.step s).after s n = x.after s (n + 1) :=
  (Function.iterate_succ_apply (step s) n x).symm

theorem after_after (n k : Nat) : (x.after s n).after s k = x.after s (n + k) := by
  rw [Nat.add_comm]
  exact (Function.iterate_add_apply (step s) k n x).symm

/-! ### Steps -/

theorem step_take {more : List Message} :
    step s ⟨w, .free, delivered, m :: more⟩ =
      ⟨w, .busy m w.standing.deeds (settlement s.rate s.attemptTimeout m.payload), delivered ++ [m], more⟩ :=
  rfl

theorem step_done {result : Settlement} :
    step s ⟨w, .busy m before (.done result), delivered, waiting⟩ = ⟨w, .free, delivered, waiting⟩ := rfl

theorem step_answer {r : Request} {next : r.Answer → Program Settlement} {a : r.Answer} {w' : World σ}
    (h : Run.exec (Run.answer s m r) w = (.ok a, w')) :
    step s ⟨w, .busy m before (.ask r next), delivered, waiting⟩ =
      ⟨w', .busy m before (next a), delivered, waiting⟩ := by
  rw [step, h]

theorem step_halt {r : Request} {next : r.Answer → Program Settlement} {halt : Halt} {w' : World σ}
    (h : Run.exec (Run.answer s m r) w = (.error halt, w')) :
    step s ⟨w, .busy m before (.ask r next), delivered, waiting⟩ =
      ⟨w', .halted halt, delivered, waiting⟩ := by
  rw [step, h]

/-- The request that a session is about to make, with the message in hand. -/
def asking? (x : Session σ) : Option (Message × Request) :=
  match x.hand with
  | .busy m _ (.ask r _) => some (m, r)
  | _ => none

theorem exists_of_asking? {r : Request} (h : x.asking? = some (m, r)) :
    ∃ before next, x.hand = .busy m before (.ask r next) := by
  unfold asking? at h
  split at h
  · rename_i hhand
    obtain ⟨rfl, rfl⟩ := Prod.mk.inj (Option.some.inj h)
    exact ⟨_, _, hhand⟩
  · cases h

/-- A step leaves the standing as it is or answers the request that is about to be made. -/
theorem step_standing (s : Setup σ) (x : Session σ) :
    (x.step s).world.standing = x.world.standing ∨ ∃ m r a, x.asking? = some (m, r) ∧
      Responds s.serve m.number r x.world.standing a (x.step s).world.standing := by
  rcases x with ⟨w, hand, delivered, waiting⟩
  match hand, waiting with
  | .free, [] => exact .inl rfl
  | .free, m :: more => exact .inl rfl
  | .busy m before (.done result), waiting => exact .inl rfl
  | .busy m before .overflow, waiting => exact .inl rfl
  | .halted halt, waiting => exact .inl rfl
  | .busy m before (.ask r next), waiting =>
      rcases hexec : Run.exec (Run.answer s m r) w with ⟨halt | a, w'⟩
      · rw [step_halt hexec]
        rcases ((Run.answer_ends m r).error hexec).2.1 with hsame | ⟨a, hresponds⟩
        · exact .inl hsame
        · exact .inr ⟨m, r, a, rfl, hresponds⟩
      · rw [step_answer hexec]
        exact .inr ⟨m, r, a, rfl, (Run.answer_ends m r).ok hexec⟩

/-! ### Sessions and runs -/

theorem after_of_exec_ok {p : Program Settlement} {result : Settlement} {w w' : World σ}
    (h : Run.exec (Run.program s m p) w = (.ok result, w')) (delivered waiting : List Message) :
    ∃ n, after s ⟨w, .busy m before p, delivered, waiting⟩ n =
      ⟨w', .busy m before (.done result), delivered, waiting⟩ := by
  induction p generalizing w with
  | done a =>
      obtain ⟨hresult, rfl⟩ := Prod.mk.inj h
      obtain rfl := Except.ok.inj hresult
      exact ⟨0, rfl⟩
  | overflow => cases (Prod.mk.inj h).1
  | ask r next ih =>
      change Run.exec (Run.answer s m r >>= fun a => Run.program s m (next a)) w = _ at h
      rw [Run.exec_bind] at h
      rcases hanswer : Run.exec (Run.answer s m r) w with ⟨halt | a, w₁⟩
      · rw [hanswer] at h
        cases (Prod.mk.inj h).1
      · rw [hanswer] at h
        obtain ⟨n, hn⟩ := ih a h
        exact ⟨n + 1, by rw [← after_step, step_answer hanswer, hn]⟩

theorem after_of_exec_error {p : Program Settlement} {halt : Halt} {w w' : World σ}
    (h : Run.exec (Run.program s m p) w = (.error halt, w')) (delivered waiting : List Message) :
    ∃ n, after s ⟨w, .busy m before p, delivered, waiting⟩ n = ⟨w', .halted halt, delivered, waiting⟩ := by
  induction p generalizing w with
  | done a => cases (Prod.mk.inj h).1
  | overflow =>
      obtain ⟨hhalt, rfl⟩ := Prod.mk.inj h
      obtain rfl := Except.error.inj hhalt
      exact ⟨1, rfl⟩
  | ask r next ih =>
      change Run.exec (Run.answer s m r >>= fun a => Run.program s m (next a)) w = _ at h
      rw [Run.exec_bind] at h
      rcases hanswer : Run.exec (Run.answer s m r) w with ⟨halt' | a, w₁⟩
      · rw [hanswer] at h
        obtain ⟨hhalt, rfl⟩ := Prod.mk.inj h
        obtain rfl := Except.error.inj hhalt
        exact ⟨1, step_halt hanswer⟩
      · rw [hanswer] at h
        obtain ⟨n, hn⟩ := ih a h
        exact ⟨n + 1, by rw [← after_step, step_answer hanswer, hn]⟩

/-- Settling a message is running its settlement. -/
theorem exec_settle (s : Setup σ) (m : Message) (w : World σ) :
    Run.exec (Run.settle s m) w =
      ((Run.exec (Run.program s m (settlement s.rate s.attemptTimeout m.payload)) w).1.map
          Settlement.disposition,
        (Run.exec (Run.program s m (settlement s.rate s.attemptTimeout m.payload)) w).2) := by
  rw [Run.settle, settle_eq]
  generalize settlement s.rate s.attemptTimeout m.payload = p
  induction p generalizing w with
  | done a => rfl
  | overflow => rfl
  | ask r next ih =>
      change Run.exec (Run.answer s m r >>= fun a => Run.program s m (Settlement.disposition <$> next a)) w =
        ((Run.exec (Run.answer s m r >>= fun a => Run.program s m (next a)) w).1.map _,
          (Run.exec (Run.answer s m r >>= fun a => Run.program s m (next a)) w).2)
      rw [Run.exec_bind, Run.exec_bind]
      rcases Run.exec (Run.answer s m r) w with ⟨halt | a, w'⟩
      · rfl
      · exact ih a w'

/-- Settling a list of messages in one go ends in a world that their session comes to. -/
theorem after_of_settleAll (s : Setup σ) (messages delivered : List Message) (w : World σ) (r : FetchReport) :
    ∃ n, (after s ⟨w, .free, delivered, messages⟩ n).world =
      (Run.exec (Run.settleAll (Run.settle s) messages r) w).2 := by
  induction messages generalizing delivered w r with
  | nil => exact ⟨0, rfl⟩
  | cons m more ih =>
      rw [Run.settleAll, Run.exec_bind, exec_settle]
      rcases hsettled : Run.exec (Run.program s m (settlement s.rate s.attemptTimeout m.payload)) w
        with ⟨halt | result, w'⟩
      · obtain ⟨n, hn⟩ := after_of_exec_error hsettled (delivered ++ [m]) more
        exact ⟨n + 1, by rw [← after_step, step_take, hn]; rfl⟩
      · obtain ⟨n, hn⟩ := after_of_exec_ok hsettled (delivered ++ [m]) more
        obtain ⟨k, hk⟩ := ih (delivered ++ [m]) w' (r.settled result.disposition)
        refine ⟨n + (k + 1) + 1, ?_⟩
        rw [← after_step, step_take, ← after_after, hn, ← after_step, step_done]
        exact hk

/-! ### Invariants -/

/-- An invariant of sessions: something that is known of the messages delivered so far and of the standing,
with a contract that what is left of a settlement meets. -/
structure Invariant (σ : Type) where
  kept : List Message → Standing σ → Prop
  contract : Message → List Happening → Contract (Standing σ) Settlement

/-- Whether an invariant holds of a session. -/
structure Carries (s : Setup σ) (inv : Invariant σ) (x : Session σ) : Prop where
  kept : inv.kept x.delivered x.world.standing
  meets : ∀ m before rest, x.hand = .busy m before rest →
    m ∈ x.delivered ∧ rest.Meets (Responds s.serve m.number) (inv.contract m before) x.world.standing

/-- Whether an invariant is sustained as long as all standings are as `visited` says: a settlement meets
its contract from the beginning, and answers to what the contract allows keep what is kept. -/
structure Sustains (s : Setup σ) (visited : Standing σ → Prop) (inv : Invariant σ) : Prop where
  deliver : ∀ delivered m g, inv.kept delivered g → inv.kept (delivered ++ [m]) g
  take : ∀ delivered m g, inv.kept delivered g →
    (settlement s.rate s.attemptTimeout m.payload).Meets (Responds s.serve m.number)
      (inv.contract m g.deeds) g
  answer : ∀ delivered m before r g a g', m ∈ delivered → inv.kept delivered g →
    (inv.contract m before).asks r g → Responds s.serve m.number r g a g' → visited g' →
      inv.kept delivered g'

variable {inv : Invariant σ} {visited : Standing σ → Prop}

theorem Carries.step (hsustains : Sustains s visited inv) (h : Carries s inv x)
    (hvisited : visited (x.step s).world.standing) : Carries s inv (x.step s) := by
  rcases x with ⟨w, hand, delivered, waiting⟩
  obtain ⟨hkept, hmeets⟩ := h
  match hand, waiting with
  | .free, [] => exact ⟨hkept, hmeets⟩
  | .free, m :: more =>
      refine ⟨hsustains.deliver delivered m _ hkept, fun m' before rest heq => ?_⟩
      obtain ⟨rfl, rfl, rfl⟩ := Hand.busy.inj heq
      exact ⟨by simp [step_take], hsustains.take delivered m _ hkept⟩
  | .busy m before (.done result), waiting => exact ⟨hkept, fun _ _ _ heq => by cases heq⟩
  | .busy m before .overflow, waiting => exact ⟨hkept, fun _ _ _ heq => by cases heq⟩
  | .halted halt, waiting => exact ⟨hkept, fun _ _ _ heq => by cases heq⟩
  | .busy m before (.ask r next), waiting =>
      obtain ⟨hm, hasks, hnext⟩ := hmeets m before _ rfl
      rcases hexec : Run.exec (Run.answer s m r) w with ⟨halt | a, w'⟩
      · rw [step_halt hexec] at hvisited ⊢
        refine ⟨?_, fun _ _ _ heq => by cases heq⟩
        rcases ((Run.answer_ends m r).error hexec).2.1 with hsame | ⟨a, hresponds⟩
        · exact hsame ▸ hkept
        · exact hsustains.answer delivered m before r _ a _ hm hkept hasks hresponds hvisited
      · have hresponds := (Run.answer_ends m r).ok hexec
        rw [step_answer hexec] at hvisited ⊢
        refine ⟨hsustains.answer delivered m before r _ a _ hm hkept hasks hresponds hvisited, ?_⟩
        intro m' before' rest heq
        obtain ⟨rfl, rfl, rfl⟩ := Hand.busy.inj heq
        exact ⟨hm, hnext a _ hresponds⟩

/-- A sustained invariant holds after any number of steps. -/
theorem Carries.after (hsustains : Sustains s visited inv) (h : Carries s inv x) (n : Nat)
    (hvisited : ∀ k ≤ n, visited (x.after s k).world.standing) : Carries s inv (x.after s n) := by
  induction n with
  | zero => exact h
  | succ n ih =>
      have hlast := hvisited (n + 1) (Nat.le_refl _)
      rw [after_succ] at hlast ⊢
      exact (ih fun k hk => hvisited k (by omega)).step hsustains hlast

theorem carries_begin (messages : List Message) (h : inv.kept [] w.standing) :
    Carries s inv (begin w messages) := ⟨h, fun _ _ _ heq => by cases heq⟩

end Session

end UsageLedger.Delivery
