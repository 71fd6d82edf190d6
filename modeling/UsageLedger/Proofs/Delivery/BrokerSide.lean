import UsageLedger.Proofs.Delivery.Billing
import UsageLedger.Proofs.Delivery.Desk

/-! The broker's side of a world: the calls that a consumer has made on the broker, what is left of the scripts
that these calls follow, the connections to come and how many there were. Handling a message leaves all of it as
it is, whatever the ledger and the publishers do meanwhile, so that it changes with the calls on the broker
alone. -/

namespace UsageLedger.Delivery

open Program

variable {σ α β : Type}

/-- Whether something is a call on the broker or on a connection to it. -/
def Happening.isBrokerCall : Happening → Bool
  | connecting => true
  | creatingStream _ => true
  | updatingStream _ => true
  | creatingConsumer _ => true
  | fetching _ _ => true
  | closing => true
  | released => true
  | _ => false

/-- Whether calls across a seam are calls on the broker. -/
def Seam.isBrokers : Seam → Bool
  | createStream => true
  | updateStream => true
  | createConsumer => true
  | _ => false

/-- The calls that were made on the broker, the first first, what is left of the scripts of the broker's seams, the
connections to come, and how many were established. -/
@[ext] structure BrokerSide where
  calls : List Happening
  script : Seam → List Fault
  connections : List Connection
  generations : Nat

namespace BrokerSide

/-- The broker's side after some more calls that follow no script. -/
def called (b : BrokerSide) (calls : List Happening) : BrokerSide := { b with calls := b.calls ++ calls }

/-- How the next call across a seam goes. -/
def fault (b : BrokerSide) (seam : Seam) : Fault := (b.script seam).headD Fault.none

/-- The broker's side once the next call across a seam has its fault. -/
def answered (b : BrokerSide) (seam : Seam) : BrokerSide :=
  { b with script := fun other => if other = seam then (b.script other).tail else b.script other }

theorem fault_called (b : BrokerSide) (calls : List Happening) (seam : Seam) :
    (b.called calls).fault seam = b.fault seam := rfl

theorem called_nil (b : BrokerSide) : b.called [] = b := by simp [called]

theorem called_called (b : BrokerSide) (calls more : List Happening) :
    (b.called calls).called more = b.called (calls ++ more) := by simp [called]

end BrokerSide

/-- The calls on the broker in a history whose first entry is the oldest. -/
def brokerCalls (entries : List (Nat × Happening)) : List Happening :=
  (entries.map (·.2)).filter Happening.isBrokerCall

theorem brokerCalls_append (entries more : List (Nat × Happening)) :
    brokerCalls (entries ++ more) = brokerCalls entries ++ brokerCalls more := by
  rw [brokerCalls, List.map_append, List.filter_append]
  rfl

theorem brokerCalls_reverse_cons (time : Nat) (what : Happening) (history : History) :
    brokerCalls ((time, what) :: history).reverse =
      brokerCalls history.reverse ++ if what.isBrokerCall then [what] else [] := by
  rw [List.reverse_cons, brokerCalls_append]
  cases hcall : what.isBrokerCall <;> simp [brokerCalls, hcall]

namespace World

variable {w : World σ} {what : Happening}

def brokerSide (w : World σ) : BrokerSide where
  calls := brokerCalls w.history.reverse
  script seam := if seam.isBrokers then w.faults.script seam else []
  connections := w.connections
  generations := w.metrics.get .connectionGenerations

theorem brokerSide_note (w : World σ) (time : Nat) (hcall : what.isBrokerCall = false) :
    (w.note time what).brokerSide = w.brokerSide := by
  refine BrokerSide.ext ?_ rfl rfl rfl
  refine (brokerCalls_reverse_cons time what w.history).trans ?_
  rw [hcall]
  exact List.append_nil _

theorem brokerSide_call (w : World σ) (time : Nat) (hcall : what.isBrokerCall = true) :
    (w.note time what).brokerSide = w.brokerSide.called [what] := by
  refine BrokerSide.ext ?_ rfl rfl rfl
  refine (brokerCalls_reverse_cons time what w.history).trans ?_
  rw [hcall]
  rfl

/-- A call across a seam that is not the broker's takes nothing from the broker's scripts. -/
theorem brokerSide_afterCall (w : World σ) {seam : Seam} (h : seam.isBrokers = false) :
    ({ w with faults := w.faults.afterCall seam } : World σ).brokerSide = w.brokerSide := by
  refine BrokerSide.ext rfl ?_ rfl rfl
  funext other
  change (if other.isBrokers then (w.faults.afterCall seam).script other else []) = _
  rw [Faults.script_afterCall]
  by_cases hsame : other = seam
  · rw [hsame, h]
    simp [brokerSide, h]
  · rw [if_neg hsame]
    rfl

theorem brokerSide_take (w : World σ) (c : Channel) : (w.take c).brokerSide = w.brokerSide := by
  have hrest : (w.take c).connections = w.connections ∧ (w.take c).metrics = w.metrics := by
    cases c with
    | alerts =>
        change w.takeAlert.connections = _ ∧ w.takeAlert.metrics = _
        unfold takeAlert
        split <;> exact ⟨rfl, rfl⟩
    | letters =>
        change w.takeLetter.connections = _ ∧ w.takeLetter.metrics = _
        unfold takeLetter
        split <;> exact ⟨rfl, rfl⟩
  rcases w.take_cases c with hsame | ⟨notice, subject, freeAt, htaken⟩
  · rw [hsame]
  · have hfaults := w.brokerSide_afterCall (rfl : (Seam.publish subject).isBrokers = false)
    refine BrokerSide.ext ?_ ?_ hrest.1 (congrArg (·.get .connectionGenerations) hrest.2)
    · change brokerCalls (w.take c).history.reverse = _
      rw [htaken.history, brokerCalls_reverse_cons]
      exact List.append_nil _
    · change (fun seam => if seam.isBrokers then (w.take c).faults.script seam else []) = _
      rw [htaken.faults]
      exact congrArg BrokerSide.script hfaults

theorem brokerSide_moveTo (w : World σ) (time : Nat) : (w.moveTo time).brokerSide = w.brokerSide := by
  obtain ⟨order, horder, -⟩ := w.publish_eq time
  change (w.publish time).brokerSide = _
  rw [horder]
  clear horder
  induction order generalizing w with
  | nil => rfl
  | cons c rest ih => exact (ih (w.take c)).trans (w.brokerSide_take c)

end World

/-- Whether a request is no count of connections. -/
def Request.Spares : Request → Prop
  | count .connectionGenerations => False
  | _ => True

namespace Run

variable {s : Setup σ} {w w' : World σ}

/-- Whether something that runs in a world leaves the broker's side of it as it is, wherever it ends. -/
def Aside (x : Run σ α) (w : World σ) : Prop := (exec x w).2.brokerSide = w.brokerSide

theorem Aside.bind {x : Run σ α} {f : α → Run σ β} (hx : Aside x w)
    (hf : ∀ a w', exec x w = (.ok a, w') → Aside (f a) w') : Aside (x >>= f) w := by
  rw [Aside, exec_bind]
  rcases hexec : exec x w with ⟨halt | a, w'⟩
  · rw [Aside, hexec] at hx
    exact hx
  · rw [Aside, hexec] at hx
    exact (hf a w' hexec).trans hx

theorem Aside.ends {x : Run σ α} (h : Aside x w) :
    Ends x w (fun _ w' => w'.brokerSide = w.brokerSide) fun _ _ => True := by
  refine ends_of_ok fun a w' hexec => ?_
  rw [Aside, hexec] at h
  exact h

theorem aside_pure (a : α) : Aside (pure a) w := rfl

theorem aside_get_bind {f : World σ → Run σ α} (h : Aside (f w) w) : Aside (get >>= f) w := h

theorem aside_modify {f : World σ → World σ} (h : (f w).brokerSide = w.brokerSide) : Aside (modify f) w := h

theorem aside_note {what : Happening} (hcall : what.isBrokerCall = false) : Aside (note what) w :=
  aside_modify (w.brokerSide_note w.clock hcall)

theorem aside_nextFault {seam : Seam} (h : seam.isBrokers = false) : Aside (nextFault seam) w :=
  World.brokerSide_afterCall w h

theorem aside_serve (call : Ledger.Call) : Aside (serve s call) w := rfl

/-! ### Waiting -/

theorem aside_waitUntil (time : Nat) : Aside (waitUntil s time) w := by
  unfold waitUntil
  cases s.horizon with
  | none => exact aside_modify (w.brokerSide_moveTo time)
  | some last =>
      dsimp only
      split
      · exact w.brokerSide_moveTo last
      · exact aside_modify (w.brokerSide_moveTo time)

theorem aside_wait (delay : Option Nat) : Aside (wait s delay) w := by
  unfold wait
  split
  · exact aside_pure ()
  · exact aside_get_bind (aside_waitUntil _)
  · cases s.horizon with
    | none => exact rfl
    | some last => exact w.brokerSide_moveTo last

theorem aside_waitWithin (delay : Option Nat) : Aside (waitWithin s delay) w := by
  change Aside (if delay.any (w.clock + · ≤ w.deadline) then _ else _) w
  split
  · exact (aside_wait delay).bind fun _ _ _ => aside_pure true
  · by_cases hearly : w.clock < w.deadline
    · rw [if_pos hearly]
      exact (aside_waitUntil _).bind fun _ _ _ => aside_pure false
    · rw [if_neg hearly]
      exact aside_pure false

/-! ### Requests -/

theorem aside_callLedger (call : Ledger.Call) : Aside (callLedger s call) w := by
  have hseam : (Seam.ofCall call).isBrokers = false := by cases call <;> rfl
  unfold callLedger
  refine (aside_note rfl).bind fun _ w₁ _ => (aside_nextFault hseam).bind fun fault w₂ _ => ?_
  dsimp only
  split
  · refine (aside_serve call).bind fun answer w₃ _ => (aside_waitWithin fault.delay).bind fun inTime w₄ _ => ?_
    cases inTime with
    | false => exact aside_pure _
    | true => exact aside_pure _
  · refine (aside_waitWithin fault.delay).bind fun inTime w₃ _ => ?_
    cases inTime with
    | false => exact aside_pure _
    | true =>
        cases fault.failure with
        | some text => exact aside_pure _
        | none => exact (aside_serve call).bind fun _ _ _ => aside_pure _

theorem aside_waitForRoom {time : Option Nat} {next : Unit → Run σ α} (hnext : ∀ w', Aside (next ()) w') :
    Aside (match time with
      | some time => do next (← waitUntil s time)
      | none => next ()) w := by
  cases time with
  | none => exact hnext w
  | some time => exact (aside_waitUntil time).bind fun _ w' _ => hnext w'

theorem aside_offerAlert (a : Alert) : Aside (offerAlert s a) w := by
  unfold offerAlert
  refine aside_get_bind ?_
  rcases (w.alerts.room w.clock).handoff w.clock s.handoff with ⟨outcome, time⟩
  refine aside_waitForRoom fun w' => ?_
  cases outcome with
  | ok accepted =>
      exact (aside_modify rfl).bind fun _ _ _ => (aside_note rfl).bind fun _ _ _ => aside_pure _
  | error rejection => exact (aside_note rfl).bind fun _ _ _ => aside_pure _

theorem aside_offerLetter (payload : Text.Bytes) : Aside (offerLetter s payload) w := by
  unfold offerLetter
  refine aside_get_bind ?_
  rcases (w.letters.room w.clock).handoff w.clock s.handoff with ⟨outcome, time⟩
  refine aside_waitForRoom fun w' => ?_
  cases outcome with
  | ok accepted =>
      exact (aside_modify rfl).bind fun _ _ _ => (aside_note rfl).bind fun _ _ _ => aside_pure _
  | error rejection => exact (aside_note rfl).bind fun _ _ _ => aside_pure _

theorem aside_count {metric : Metric} (h : metric ≠ .connectionGenerations) : Aside (count metric) w := by
  refine aside_modify (BrokerSide.ext rfl rfl rfl ?_)
  refine (w.metrics.get_count metric .connectionGenerations).trans ?_
  rw [if_neg h.symm]
  rfl

/-- Requests of a program that has a message in hand are no calls on the broker. -/
theorem aside_answer (m : Message) {r : Request} (h : r.Spares) : Aside (answer s m r) w := by
  cases r with
  | time => exact aside_get_bind (aside_pure _)
  | bound ms => exact aside_modify rfl
  | ledger call => exact aside_callLedger call
  | alert a => exact aside_offerAlert a
  | letter payload => exact aside_offerLetter payload
  | acknowledge =>
      refine (aside_note rfl).bind fun _ w₁ _ => (aside_wait _).bind fun _ w₂ _ => ?_
      split <;> exact aside_pure _
  | count metric =>
      refine aside_count fun hmetric => ?_
      subst hmetric
      exact h

end Run

/-! ### Settlements -/

/-- The contract of programs that do not count connections. -/
def sparing : Contract Unit α := .plain Request.Spares (fun _ => True) True

theorem post_spares (rate : Decimal) (e : Event) : (post rate e).run.Meets anyhow sparing () := by
  rw [run_post]
  refine ⟨trivial, fun _ _ _ => Meets.proceed trivial (fun _ => trivial) fun _ _ => ?_⟩
  refine ⟨trivial, fun _ _ _ => Meets.proceed trivial (fun _ => trivial) fun found _ => ?_⟩
  cases found with
  | some s => trivial
  | none =>
      refine ⟨trivial, fun _ _ _ => Meets.proceed trivial (fun _ => trivial) fun _ _ => ?_⟩
      rw [postStatement]
      split
      · trivial
      · split
        · trivial
        · refine ⟨trivial, fun _ _ _ => ⟨trivial, fun _ _ _ => ?_⟩⟩
          exact Meets.proceed trivial (fun _ => trivial) fun _ _ => trivial

theorem alertIfExhausted_spares (e : Event) (balance : Option Decimal) :
    (alertIfExhausted e balance).Meets anyhow sparing () := by
  have hraise : (raiseAlert e).Meets anyhow sparing () := by
    rw [raiseAlert]
    refine Meets.request trivial fun createdAt _ _ => Meets.request trivial fun outcome _ _ => ?_
    cases outcome with
    | ok accepted => exact ⟨trivial, fun _ _ _ => trivial⟩
    | error rejection => exact ⟨trivial, fun _ _ _ => trivial⟩
  unfold alertIfExhausted
  split
  · split
    · exact hraise
    · trivial
  · trivial

theorem currentBalance_spares (bound : Nat) (user : String) : (currentBalance bound user).Meets anyhow sparing () := by
  rw [currentBalance]
  refine Meets.request trivial fun _ _ _ => Meets.request trivial fun answer _ _ => ?_
  rcases answer with _ | (error | balance) <;> trivial

theorem attempt_spares (rate : Decimal) (bound : Nat) (payload : Text.Bytes) :
    (attempt rate bound payload).Meets anyhow sparing () := by
  cases hdecode : Event.decode payload with
  | error error =>
      rw [attempt_of_error hdecode]
      trivial
  | ok e =>
      rw [attempt_of_ok hdecode]
      refine ⟨trivial, fun _ _ _ => Meets.bind (post_spares rate e) ?_⟩
      rintro ((_ | error) | (_ | s)) _ _
      · trivial
      · trivial
      · exact Meets.request trivial fun _ _ _ => trivial
      · refine Meets.request trivial fun _ _ _ => Meets.bind (currentBalance_spares bound e.user) fun balance _ _ => ?_
        exact Meets.bind (alertIfExhausted_spares e balance) fun _ _ _ => trivial

theorem attemptResults_spares (rate : Decimal) (bound : Nat) (payload : Text.Bytes) (n : Nat) :
    (attemptResults rate bound payload n).Meets anyhow sparing () := by
  induction n with
  | zero => trivial
  | succ n ih =>
      refine Meets.bind (attempt_spares rate bound payload) fun result _ _ => ?_
      cases result with
      | ok outcome => trivial
      | error error => exact Meets.request trivial fun _ _ _ => Meets.bind ih fun _ _ _ => trivial

theorem settle_spares (rate : Decimal) (bound : Nat) (payload : Text.Bytes) :
    (settle rate bound payload).Meets anyhow sparing () := by
  rw [settle_eq]
  refine Meets.map (Meets.bind (attemptResults_spares rate bound payload Limits.attempts) fun results _ _ => ?_)
  unfold conclude
  split
  · exact Meets.request trivial fun _ _ _ => trivial
  · refine Meets.request trivial fun outcome _ _ => ?_
    cases outcome with
    | ok accepted => exact Meets.request trivial fun _ _ _ => Meets.request trivial fun _ _ _ => trivial
    | error rejection => exact Meets.request trivial fun _ _ _ => trivial

namespace Run

variable {s : Setup σ} {w : World σ}

theorem aside_program {m : Message} {p : Program α} (hp : p.Meets anyhow sparing ()) : Aside (program s m p) w := by
  induction p generalizing w with
  | done a => exact aside_pure a
  | overflow => rfl
  | ask r next ih => exact (aside_answer m hp.1).bind fun a w' _ => ih a (hp.2 a () trivial)

/-- Whatever becomes of a message, its handling is no concern of the broker. -/
theorem aside_settle (m : Message) : Aside (settle s m) w := aside_program (settle_spares _ _ _)

/-! ### Calls on the broker -/

theorem nextFault_brokerSide {seam : Seam} (hseam : seam.isBrokers = true) :
    Ends (nextFault seam) w
      (fun fault w' => fault = w.brokerSide.fault seam ∧ w'.brokerSide = w.brokerSide.answered seam)
      fun _ _ => True := by
  refine .of_exec rfl ⟨?_, BrokerSide.ext rfl ?_ rfl rfl⟩
  · simp [BrokerSide.fault, World.brokerSide, hseam]
  · funext other
    change (if other.isBrokers then (w.faults.afterCall seam).script other else []) = if _ then _ else _
    rw [Faults.script_afterCall]
    by_cases hsame : other = seam <;> simp [hsame, World.brokerSide, hseam]

/-- A call on the broker goes as its script says: it fails if the script has a failure for it. -/
theorem callBroker_brokerSide {seam : Seam} {what : Happening} {work : Run σ α} (hseam : seam.isBrokers = true)
    (hcall : what.isBrokerCall = true) (hwork : ∀ w₁, Aside work w₁) :
    Ends (callBroker s seam what work) w
      (fun result w' => result.isOk = (w.brokerSide.fault seam).failure.isNone ∧
        w'.brokerSide = (w.brokerSide.called [what]).answered seam) fun _ _ => True := by
  unfold callBroker
  refine Ends.bind (ends_modify (w.brokerSide_call w.clock hcall) :
    Ends (note what) w (fun _ w₁ => w₁.brokerSide = w.brokerSide.called [what]) _) fun _ w₁ h₁ => ?_
  refine (nextFault_brokerSide hseam).bind ?_
  rintro fault w₂ ⟨rfl, h₂⟩
  rw [h₁] at h₂ ⊢
  rw [BrokerSide.fault_called]
  dsimp only
  split
  · refine (hwork w₂).ends.bind fun result w₃ h₃ => (aside_wait _).ends.bind fun _ w₄ h₄ => ends_pure ⟨?_, ?_⟩
    · cases (w.brokerSide.fault seam).failure <;> rfl
    · rw [h₄, h₃, h₂]
  · refine (aside_wait _).ends.bind fun _ w₃ h₃ => ?_
    cases (w.brokerSide.fault seam).failure with
    | some text => exact ends_pure ⟨rfl, h₃.trans h₂⟩
    | none => exact (hwork w₃).ends.bind fun _ w₄ h₄ => ends_pure ⟨rfl, h₄.trans (h₃.trans h₂)⟩

end Run

end UsageLedger.Delivery
