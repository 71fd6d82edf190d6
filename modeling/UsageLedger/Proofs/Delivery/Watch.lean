import UsageLedger.Proofs.Delivery.Lifecycle
import UsageLedger.Proofs.Delivery.Traces

/-! The watch of a world: its clock, the deadline of calls on its ledger, and when which call was issued. Ledger,
queues and faults are left out of account: a call may take any time up to the deadline and a handoff any time up to
its bound. In a world without an end nothing but an acknowledgement can take longer, or for ever. -/

namespace UsageLedger.Delivery

open Ledger Program

variable {σ α : Type} {s : Setup σ} {w w' : World σ} {m : Message} {call : Call} {time : Nat}

/-! ### The watch of a world -/

def Happening.ledgerCall? : Happening → Option Call
  | called call => some call
  | _ => none

/-- The calls on the ledger in a history with the times at which they were issued, the first one first. -/
def History.ledgerCalls (h : History) : List (Nat × Call) :=
  h.reverse.filterMap fun entry => entry.2.ledgerCall?.map (entry.1, ·)

/-- What is watched of a world: its clock, the deadline of calls on the ledger, and the calls so far. -/
structure Watch where
  clock : Nat
  deadline : Nat
  calls : List (Nat × Call)

namespace Watch

def moved (g : Watch) (time : Nat) : Watch := { g with clock := time }

def issued (g : Watch) (call : Call) : Watch := { g with calls := g.calls ++ [(g.clock, call)] }

/-- Whether the calls that came after some earlier ones were all issued up to a limit. -/
def CalledBy (earlier : List (Nat × Call)) (limit : Nat) (g : Watch) : Prop :=
  ∃ more, g.calls = earlier ++ more ∧ ∀ entry ∈ more, entry.1 ≤ limit

/-- Whether the bound on calls that ends at a limit is running: the limit is not over yet, and the calls that came
after some earlier ones were issued before it was. -/
structure InTime (earlier : List (Nat × Call)) (limit : Nat) (g : Watch) : Prop where
  clock_le : g.clock ≤ limit
  deadline_eq : g.deadline = limit
  calledBy : g.CalledBy earlier limit

/-- Whether nothing has come of a wait but that the clock shows another time, up to a limit. -/
def WaitsTo (g : Watch) (limit : Nat) (g' : Watch) : Prop := ∃ time ≤ limit, g' = g.moved time

theorem calledBy_self (g : Watch) (limit : Nat) : g.CalledBy g.calls limit := ⟨[], (List.append_nil _).symm, by simp⟩

theorem CalledBy.issued {g : Watch} {earlier : List (Nat × Call)} {limit : Nat} (h : g.CalledBy earlier limit)
    (hclock : g.clock ≤ limit) (call : Call) : (g.issued call).CalledBy earlier limit := by
  obtain ⟨more, hcalls, hmore⟩ := h
  refine ⟨more ++ [(g.clock, call)], by rw [Watch.issued, hcalls, List.append_assoc], fun entry hentry => ?_⟩
  rcases List.mem_append.1 hentry with hentry | hentry
  · exact hmore entry hentry
  · exact List.mem_singleton.1 hentry ▸ hclock

/-- A call that is issued in time is over in time. -/
theorem InTime.called {g g' : Watch} {earlier : List (Nat × Call)} {limit : Nat} (h : g.InTime earlier limit)
    (hcalled : (g.issued call).WaitsTo (max g.clock g.deadline) g') : g'.InTime earlier limit := by
  obtain ⟨time, htime, rfl⟩ := hcalled
  refine ⟨htime.trans (max_le h.clock_le h.deadline_eq.le), h.deadline_eq, ?_⟩
  exact h.calledBy.issued h.clock_le call

end Watch

/-- How long requests may take where a producer waits for `handoff` and an acknowledgement takes `acknowledging`,
if it ever goes. A call on the ledger lasts to its deadline at most, and whatever is not a handoff or an
acknowledgement takes no time. -/
def Watching (handoff : Nat) (acknowledging : Option Nat) : Surroundings Watch
  | .time, g, _, g' => g' = g
  | .bound ms, g, _, g' => g' = { g with deadline := g.clock + ms }
  | .ledger call, g, _, g' => (g.issued call).WaitsTo (max g.clock g.deadline) g'
  | .alert _, g, _, g' => g.WaitsTo (g.clock + handoff) g'
  | .letter _, g, _, g' => g.WaitsTo (g.clock + handoff) g'
  | .acknowledge, g, _, g' => ∃ delay, acknowledging = some delay ∧ g' = g.moved (g.clock + delay)
  | .count _, g, _, g' => g' = g

theorem Watching.calls_of_isApart {handoff : Nat} {acknowledging : Option Nat} {r : Request} {a : r.Answer}
    {g g' : Watch} (h : Watching handoff acknowledging r g a g') (hr : r.IsApart) : g'.calls = g.calls := by
  cases r with
  | ledger call => exact hr.elim
  | time =>
      obtain rfl : g' = _ := h
      rfl
  | bound ms =>
      obtain rfl : g' = _ := h
      rfl
  | alert a =>
      obtain ⟨_, -, rfl⟩ := h
      rfl
  | letter payload =>
      obtain ⟨_, -, rfl⟩ := h
      rfl
  | acknowledge =>
      obtain ⟨_, -, rfl⟩ := h
      rfl
  | count metric =>
      obtain rfl : g' = _ := h
      rfl

namespace World

def watch (w : World σ) : Watch := ⟨w.clock, w.deadline, History.ledgerCalls w.history⟩

theorem watch_called : (w.note w.clock (.called call)).watch = w.watch.issued call := by
  simp [watch, note, Watch.issued, History.ledgerCalls, Happening.ledgerCall?]

theorem watch_note {what : Happening} (h : what.ledgerCall? = none) : (w.note time what).watch = w.watch := by
  simp [watch, note, History.ledgerCalls, h]

theorem watch_take (w : World σ) (c : Channel) : (w.take c).watch = w.watch := by
  cases c with
  | alerts =>
      change w.takeAlert.watch = w.watch
      unfold takeAlert
      split
      · simp [watch, History.ledgerCalls, Happening.ledgerCall?]
      · rfl
  | letters =>
      change w.takeLetter.watch = w.watch
      unfold takeLetter
      split
      · simp [watch, History.ledgerCalls, Happening.ledgerCall?]
      · rfl

/-- Publishers leave the watch alone. -/
theorem watch_moveTo (w : World σ) (time : Nat) : (w.moveTo time).watch = w.watch.moved time := by
  obtain ⟨order, horder, -⟩ := w.publish_eq time
  have hpublish : (w.publish time).watch = w.watch := by
    rw [horder]
    clear horder
    induction order generalizing w with
    | nil => rfl
    | cons c rest ih => exact (ih (w.take c)).trans (w.watch_take c)
  change (w.publish time).watch.moved time = _
  rw [hpublish]

end World

/-- A producer waits no longer than it is willing to. -/
theorem Room.handoff_le (room : Room) (start bound : Nat) :
    ∀ time ∈ (room.handoff start bound).2, time ≤ start + bound := by
  have hnone : ∀ time ∈ (none : Option Nat), time ≤ start + bound := by simp
  cases room with
  | now => exact hnone
  | closed => exact hnone
  | later free =>
      rw [handoff]
      split_ifs with hbound hearly
      · exact hnone
      · exact fun time htime => Option.mem_some.1 htime ▸ hearly.le
      · exact fun time htime => (Option.mem_some.1 htime).ge
  | closing gone =>
      rw [handoff]
      split_ifs with hbound hearly
      · exact hnone
      · exact fun time htime => Option.mem_some.1 htime ▸ hearly.le
      · exact fun time htime => (Option.mem_some.1 htime).ge
  | never =>
      rw [handoff]
      dsimp only
      split_ifs
      · exact hnone
      · exact fun time htime => (Option.mem_some.1 htime).ge

namespace Run

/-! ### Waiting -/

theorem waitUntil_watch (hhorizon : s.horizon = none) (time : Nat) :
    Ends (waitUntil s time) w (fun _ w' => w'.watch = w.watch.moved time) fun _ _ => False :=
  .of_exec (waitUntil_returns hhorizon time) (w.watch_moveTo time)

theorem wait_watch (hhorizon : s.horizon = none) (delay : Nat) :
    Ends (wait s (some delay)) w (fun _ w' => w'.watch = w.watch.moved (w.clock + delay)) fun _ _ => False := by
  cases delay with
  | zero => exact ends_pure rfl
  | succ delay => exact ends_get_bind (waitUntil_watch hhorizon _)

theorem waitWithin_watch (hhorizon : s.horizon = none) (delay : Option Nat) :
    Ends (waitWithin s delay) w (fun _ w' => w.watch.WaitsTo (max w.clock w.deadline) w'.watch)
      fun _ _ => False := by
  change Ends (if delay.any (w.clock + · ≤ w.deadline) then _ else _) w _ _
  split
  · rename_i hany
    obtain ⟨d, rfl, hd⟩ := (Option.any_eq_true _ _).1 hany
    exact (wait_watch hhorizon d).bind fun _ _ h =>
      ends_pure ⟨_, (of_decide_eq_true hd).trans (Nat.le_max_right _ _), h⟩
  · by_cases hearly : w.clock < w.deadline
    · rw [if_pos hearly]
      exact (waitUntil_watch hhorizon _).bind fun _ _ h => ends_pure ⟨_, Nat.le_max_right _ _, h⟩
    · rw [if_neg hearly]
      exact ends_pure ⟨_, Nat.le_max_left _ _, rfl⟩

/-! ### Requests -/

/-- A call on the ledger is issued at once, and it lasts to the deadline at most. -/
theorem callLedger_watch (hhorizon : s.horizon = none) (call : Call) :
    Ends (callLedger s call) w
      (fun _ w' => (w.watch.issued call).WaitsTo (max w.clock w.deadline) w'.watch) fun _ _ => False := by
  unfold callLedger
  refine Ends.bind (ends_modify World.watch_called : Ends (note (.called call)) w (fun _ w' => w'.watch = _) _) ?_
  intro _ w₁ h₁
  have hfault : Ends (nextFault (.ofCall call)) w₁ (fun _ w' => w'.watch = w₁.watch) fun _ _ => False := rfl
  refine hfault.bind fun fault w₂ h₂ => ?_
  rw [h₁] at h₂
  have hwait : ∀ w₃ : World σ, w₃.watch = w₂.watch → Ends (waitWithin s fault.delay) w₃
      (fun _ w' => (w.watch.issued call).WaitsTo (max w.clock w.deadline) w'.watch) fun _ _ => False := by
    intro w₃ h₃
    have hbegun := h₃.trans h₂
    have hclock : w₃.clock = w.clock := congrArg Watch.clock hbegun
    have hdeadline : w₃.deadline = w.deadline := congrArg Watch.deadline hbegun
    refine (waitWithin_watch hhorizon fault.delay).mono (fun _ w' h => ?_) fun _ _ h => h
    rwa [hclock, hdeadline, hbegun] at h
  have hserve : ∀ w₃ : World σ, Ends (serve s call) w₃ (fun _ w' => w'.watch = w₃.watch) fun _ _ => False :=
    fun _ => rfl
  dsimp only
  split
  · refine (hserve w₂).bind fun answer w₃ h₃ => (hwait w₃ h₃).bind fun inTime w₄ h₄ => ?_
    cases inTime with
    | false => exact ends_pure h₄
    | true => exact ends_pure h₄
  · refine (hwait w₂ rfl).bind fun inTime w₃ h₃ => ?_
    cases inTime with
    | false => exact ends_pure h₃
    | true =>
        cases fault.failure with
        | some text => exact ends_pure h₃
        | none => exact (hserve w₃).bind fun _ w₄ h₄ => ends_pure (h₄ ▸ h₃)

theorem modified_watch {f : World σ → World σ} {halted : Halt → World σ → Prop} (h : (f w).watch = w.watch) :
    Ends (modify f) w (fun _ w' => w'.watch = w.watch) halted :=
  ends_modify h

theorem noted_watch {what : Happening} {halted : Halt → World σ → Prop} (h : what.ledgerCall? = none) :
    Ends (note what) w (fun _ w' => w'.watch = w.watch) halted :=
  ends_modify (World.watch_note h)

/-- A producer that waits for room goes on with the watch that it had, but for the clock. -/
theorem waitForRoom_watch (hhorizon : s.horizon = none) {waiting : Option Nat} {limit : Nat} {next : Unit → Run σ α}
    {post : α → World σ → Prop} (hwaiting : ∀ time ∈ waiting, time ≤ limit) (hnow : w.clock ≤ limit)
    (hnext : ∀ w₁ : World σ, w.watch.WaitsTo limit w₁.watch → Ends (next ()) w₁ post fun _ _ => False) :
    Ends (match waiting with
      | some time => do next (← waitUntil s time)
      | none => next ()) w post fun _ _ => False := by
  cases waiting with
  | none => exact hnext w ⟨w.clock, hnow, rfl⟩
  | some time => exact (waitUntil_watch hhorizon time).bind fun _ w₁ h₁ => hnext w₁ ⟨time, hwaiting time rfl, h₁⟩

theorem offerAlert_watch (hhorizon : s.horizon = none) (a : Alert) :
    Ends (offerAlert s a) w (fun _ w' => w.watch.WaitsTo (w.clock + s.handoff) w'.watch) fun _ _ => False := by
  unfold offerAlert
  refine ends_get_bind ?_
  have hwaiting := (w.alerts.room w.clock).handoff_le w.clock s.handoff
  generalize (w.alerts.room w.clock).handoff w.clock s.handoff = handoff at hwaiting ⊢
  obtain ⟨outcome, waiting⟩ := handoff
  refine waitForRoom_watch hhorizon hwaiting (Nat.le_add_right _ _) fun w₁ h₁ => ?_
  cases outcome with
  | ok accepted =>
      apply (modified_watch rfl).bind
      intro _ w₂ h₂
      exact (noted_watch rfl).bind fun _ w₃ h₃ => ends_pure (by rwa [h₃, h₂])
  | error rejection => exact (noted_watch rfl).bind fun _ w₂ h₂ => ends_pure (by rwa [h₂])

theorem offerLetter_watch (hhorizon : s.horizon = none) (payload : Text.Bytes) :
    Ends (offerLetter s payload) w (fun _ w' => w.watch.WaitsTo (w.clock + s.handoff) w'.watch)
      fun _ _ => False := by
  unfold offerLetter
  refine ends_get_bind ?_
  have hwaiting := (w.letters.room w.clock).handoff_le w.clock s.handoff
  generalize (w.letters.room w.clock).handoff w.clock s.handoff = handoff at hwaiting ⊢
  obtain ⟨outcome, waiting⟩ := handoff
  refine waitForRoom_watch hhorizon hwaiting (Nat.le_add_right _ _) fun w₁ h₁ => ?_
  cases outcome with
  | ok accepted =>
      apply (modified_watch rfl).bind
      intro _ w₂ h₂
      exact (noted_watch rfl).bind fun _ w₃ h₃ => ends_pure (by rwa [h₃, h₂])
  | error rejection => exact (noted_watch rfl).bind fun _ w₂ h₂ => ends_pure (by rwa [h₂])

/-- An acknowledgement is issued at once. One that never goes is what a run ends with. -/
theorem acknowledge_watch (hhorizon : s.horizon = none) (m : Message) :
    Ends (acknowledge s m) w
      (fun _ w' => ∃ delay, m.acknowledging.delay = some delay ∧ w'.watch = w.watch.moved (w.clock + delay))
      (atHorizon fun w' => m.acknowledging.delay = none ∧ w' = w.note w.clock (.acknowledged m.number)) := by
  unfold acknowledge
  have hbegin : Ends (note (.acknowledged m.number)) w (fun _ w' => w' = w.note w.clock (.acknowledged m.number))
      (atHorizon fun w' => m.acknowledging.delay = none ∧ w' = w.note w.clock (.acknowledged m.number)) :=
    ends_modify rfl
  refine hbegin.bind ?_
  rintro _ w₁ rfl
  have hnoted : (w.note w.clock (.acknowledged m.number)).watch = w.watch := World.watch_note rfl
  have hwait : Ends (wait s m.acknowledging.delay) (w.note w.clock (.acknowledged m.number))
      (fun _ w' => ∃ delay, m.acknowledging.delay = some delay ∧ w'.watch = w.watch.moved (w.clock + delay))
      (atHorizon fun w' => m.acknowledging.delay = none ∧ w' = w.note w.clock (.acknowledged m.number)) := by
    cases m.acknowledging.delay with
    | none =>
        unfold wait
        rw [hhorizon]
        exact ⟨rfl, rfl, rfl⟩
    | some delay =>
        refine (wait_watch hhorizon delay).mono (fun _ _ h => ⟨delay, rfl, ?_⟩) fun _ _ h => h.elim
        rw [h, hnoted]
        rfl
  refine hwait.bind fun _ w₂ h₂ => ?_
  split
  · exact ends_pure h₂
  · exact ends_pure h₂

/-- A world without an end answers a request as its watch may show, or never acknowledges. -/
theorem answer_watch (hhorizon : s.horizon = none) (m : Message) (r : Request) :
    Ends (answer s m r) w (fun a w' => Watching s.handoff m.acknowledging.delay r w.watch a w'.watch)
      (atHorizon fun w' => r = .acknowledge ∧ m.acknowledging.delay = none ∧
        w' = w.note w.clock (.acknowledged m.number)) := by
  cases r with
  | time => exact ends_get_bind (ends_pure rfl)
  | bound ms => exact ends_modify rfl
  | ledger call => exact (callLedger_watch hhorizon call).mono (fun _ _ h => h) fun _ _ h => h.elim
  | alert a => exact (offerAlert_watch hhorizon a).mono (fun _ _ h => h) fun _ _ h => h.elim
  | letter payload => exact (offerLetter_watch hhorizon payload).mono (fun _ _ h => h) fun _ _ h => h.elim
  | acknowledge => exact (acknowledge_watch hhorizon m).mono (fun _ _ h => h) fun _ _ h => ⟨h.1, rfl, h.2⟩
  | count metric => exact ends_modify rfl

/-- Why a run may end early in a world without an end: an overflow that its contract allows, or an acknowledgement
that it asks for and that never goes. -/
def watchHalted (m : Message) (c : Contract Watch α) : Halt → World σ → Prop
  | .overflow, w' => c.overflows w'.watch
  | .horizon, w' => m.acknowledging.delay = none ∧
      ∃ w : World σ, c.asks .acknowledge w.watch ∧ w' = w.note w.clock (.acknowledged m.number)

/-- A program that meets a contract on the watch meets it in a world without an end. -/
theorem program_watch (hhorizon : s.horizon = none) {p : Program α} {c : Contract Watch α}
    (hp : p.Meets (Watching s.handoff m.acknowledging.delay) c w.watch) :
    Ends (program s m p) w (fun a w' => c.ends a w'.watch) (watchHalted m c) := by
  induction p generalizing w with
  | done a => exact hp
  | overflow => exact hp
  | ask r next ih =>
      refine Ends.bind ((answer_watch hhorizon m r).mono (fun _ _ h => h) ?_)
        fun a w₁ hanswer => ih a (hp.2 a _ hanswer)
      rintro halt w₁ ⟨rfl, rfl, hnever, rfl⟩
      exact ⟨hnever, w, hp.1, rfl⟩

end Run

end UsageLedger.Delivery
