import UsageLedger.Proofs.Delivery.AuditTrail
import UsageLedger.Proofs.Delivery.Overflow
import UsageLedger.Proofs.Delivery.Watch

/-! Punctuality. However long the calls on a ledger take, an attempt that fails is over within its time bound, and
one that succeeds within two and a handoff; no call is issued later than the first bound. So a message is settled
within a time that depends on nothing but the bounds, the time apart that its acknowledgement takes. -/

namespace UsageLedger.Delivery

open Ledger Program

variable {σ α : Type} {s : Setup σ} {w : World σ} {m : Message} {call : Call}

/-! ### Attempts -/

section Programs

variable {handoff bound start : Nat} {acknowledging : Option Nat} {earlier : List (Nat × Call)} {limit : Nat}
  {rate : Decimal} {payload : Text.Bytes} {e : Event} {g : Watch}

/-- A contract for what is in time all along, does not acknowledge, and overflows on a condition only. -/
def intime (earlier : List (Nat × Call)) (limit : Nat) (overflows : Prop) : Contract Watch α :=
  ⟨fun r _ => r ≠ .acknowledge, fun _ g => g.InTime earlier limit, fun g => overflows ∧ g.InTime earlier limit⟩

/-- A posting that calls the ledger in time goes on in time. -/
theorem Meets.call_intime {β : Type} {overflows : Prop} {f : call.Reply → Program (Except Setback β)}
    (h : g.InTime earlier limit)
    (hf : ∀ reply g', g'.InTime earlier limit →
      (f reply).Meets (Watching handoff acknowledging) (intime earlier limit overflows) g') :
    (Program.ask (.ledger call) (Posting.proceed f)).Meets (Watching handoff acknowledging)
      (intime earlier limit overflows) g := by
  refine ⟨by rintro ⟨⟩, fun answer g' hcalled => ?_⟩
  have h' := h.called hcalled
  exact Meets.proceed h' (fun _ => h') fun reply _ => hf reply g' h'

/-- A posting calls nothing and waits for nothing beyond its deadline. -/
theorem post_intime (hdecode : Event.decode payload = .ok e) (h : g.InTime earlier limit) :
    (post rate e).run.Meets (Watching handoff acknowledging) (intime earlier limit (Overflows rate payload)) g := by
  rw [run_post]
  refine Meets.call_intime h fun _ g₁ h₁ => Meets.call_intime h₁ fun found g₂ h₂ => ?_
  cases found with
  | some statement => exact h₂
  | none =>
      refine Meets.call_intime h₂ fun _ g₃ h₃ => ?_
      rw [postStatement]
      split
      · exact h₃
      · rename_i x hdetails
        split
        · rename_i hamount
          exact ⟨⟨e, x, hdecode, hdetails, hamount⟩, h₃⟩
        · refine ⟨by rintro ⟨⟩, ?_⟩
          rintro createdAt _ rfl
          exact Meets.call_intime h₃ fun _ _ h₄ => h₄

/-- The balance is read within a bound of its own, which begins when the posting is over. -/
theorem currentBalance_watch (user : String) (h : g.InTime earlier (start + bound)) :
    (currentBalance bound user).Meets (Watching handoff acknowledging)
      ⟨fun r _ => r ≠ .acknowledge, fun _ g' => g'.CalledBy earlier (start + bound) ∧ g'.clock ≤ start + 2 * bound,
        fun _ => False⟩ g := by
  rw [currentBalance]
  refine Meets.request (by rintro ⟨⟩) ?_
  rintro _ _ rfl
  refine Meets.request (by rintro ⟨⟩) ?_
  rintro answer _ ⟨time, htime, rfl⟩
  have hclock : time ≤ start + 2 * bound := by
    have := h.clock_le
    dsimp only at htime
    omega
  rcases answer with _ | (error | balance) <;> exact ⟨h.calledBy.issued h.clock_le _, hclock⟩

/-- What an exhausted account adds to an attempt is a handoff. -/
theorem alertIfExhausted_watch (balance : Option Decimal) (hcalled : g.CalledBy earlier limit)
    (hclock : g.clock ≤ start) :
    (alertIfExhausted e balance).Meets (Watching handoff acknowledging)
      ⟨fun r _ => r ≠ .acknowledge, fun _ g' => g'.CalledBy earlier limit ∧ g'.clock ≤ start + handoff,
        fun _ => False⟩ g := by
  unfold alertIfExhausted
  split
  · split
    · rw [raiseAlert]
      refine Meets.request (by rintro ⟨⟩) ?_
      rintro _ g rfl
      refine Meets.request (by rintro ⟨⟩) ?_
      rintro outcome _ ⟨time, htime, rfl⟩
      have hend : (g.moved time).CalledBy earlier limit ∧ (g.moved time).clock ≤ start + handoff :=
        ⟨hcalled, htime.trans (Nat.add_le_add_right hclock handoff)⟩
      cases outcome with
      | ok accepted => exact ⟨by rintro ⟨⟩, by rintro _ _ rfl; exact hend⟩
      | error rejection => exact ⟨by rintro ⟨⟩, by rintro _ _ rfl; exact hend⟩
    · exact ⟨hcalled, hclock.trans (Nat.le_add_right _ _)⟩
  · exact ⟨hcalled, hclock.trans (Nat.le_add_right _ _)⟩

/-- How long an attempt may take, by what it comes to. -/
def attemptTime (bound handoff : Nat) : Except Error Outcome → Nat
  | .ok _ => 2 * bound + handoff
  | .error _ => bound

/-- A contract for an attempt that begins with a watch: its calls are issued within the bound, and it takes no more
than its time. -/
def attempting (rate : Decimal) (bound handoff : Nat) (payload : Text.Bytes) (g : Watch) :
    Contract Watch (Except Error Outcome) where
  asks r _ := r ≠ .acknowledge
  ends result g' := g'.CalledBy g.calls (g.clock + bound) ∧ g'.clock ≤ g.clock + attemptTime bound handoff result
  overflows g' := Overflows rate payload ∧ g'.CalledBy g.calls (g.clock + bound) ∧ g'.clock ≤ g.clock + bound

theorem attemptPosted_watch (posted : Except Setback (Option Statement)) {g₁ : Watch}
    (h : g₁.InTime g.calls (g.clock + bound)) :
    (attemptPosted bound e posted).Meets (Watching handoff acknowledging) (attempting rate bound handoff payload g)
      g₁ := by
  rcases posted with (_ | error) | (_ | statement)
  · exact ⟨h.calledBy, h.clock_le⟩
  · exact ⟨h.calledBy, h.clock_le⟩
  · refine Meets.request (by rintro ⟨⟩) ?_
    rintro _ _ rfl
    refine ⟨h.calledBy, h.clock_le.trans ?_⟩
    simp only [attemptTime]
    omega
  · refine Meets.request (by rintro ⟨⟩) ?_
    rintro _ _ rfl
    refine Meets.bind ((currentBalance_watch e.user h).mono (fun _ _ h => h) (fun _ _ h => h) fun _ h => h.elim) ?_
    rintro balance g₂ ⟨hcalled, hclock⟩
    refine Meets.bind ((alertIfExhausted_watch balance hcalled hclock).mono (fun _ _ h => h) (fun _ _ h => h)
      fun _ h => h.elim) ?_
    rintro _ g₃ ⟨hcalled₃, hclock₃⟩
    exact ⟨hcalled₃, by rwa [Nat.add_assoc] at hclock₃⟩

theorem attempt_watch (g : Watch) :
    (attempt rate bound payload).Meets (Watching handoff acknowledging) (attempting rate bound handoff payload g)
      g := by
  cases hdecode : Event.decode payload with
  | error error =>
      rw [attempt_of_error hdecode]
      exact ⟨g.calledBy_self _, Nat.le_add_right _ _⟩
  | ok e =>
      rw [attempt_of_ok hdecode]
      refine ⟨by rintro ⟨⟩, ?_⟩
      rintro _ _ rfl
      have hbegin : Watch.InTime g.calls (g.clock + bound) { g with deadline := g.clock + bound } :=
        ⟨Nat.le_add_right _ _, rfl, g.calledBy_self _⟩
      have hpost : (post rate e).run.Meets (Watching handoff acknowledging)
          ((attempting rate bound handoff payload g).ending fun _ g' => g'.InTime g.calls (g.clock + bound))
          { g with deadline := g.clock + bound } := by
        refine (post_intime hdecode hbegin).mono (fun _ _ h => h) (fun _ _ h => h) ?_
        rintro g' ⟨hover, h⟩
        exact ⟨hover, h.calledBy, h.clock_le⟩
      exact hpost.bind fun posted g₁ h₁ => attemptPosted_watch posted h₁

/-! ### Settlements -/

/-- The attempts at a message fail within a bound each, and the one that succeeds takes a bound and a handoff more. -/
theorem attemptResults_watch (n : Nat) (hclock : g.clock ≤ start) :
    (attemptResults rate bound payload n).Meets (Watching handoff acknowledging)
      ⟨fun r _ => r ≠ .acknowledge,
        fun results g' => g'.clock ≤ start + if succeeded results then (n + 1) * bound + handoff else n * bound,
        fun g' => Overflows rate payload ∧ g'.clock ≤ start + n * bound⟩ g := by
  induction n generalizing g start with
  | zero => exact hclock.trans (Nat.le_add_right _ _)
  | succ n ih =>
      have hone : (n + 1) * bound = n * bound + bound := Nat.succ_mul n bound
      have htwo : (n + 1 + 1) * bound = n * bound + bound + bound := by rw [Nat.succ_mul, hone]
      refine Meets.bind ((attempt_watch g).mono (fun _ _ h => h) (fun _ _ h => h) fun g' h => ⟨h.1, ?_⟩) ?_
      · have := h.2.2
        omega
      · rintro (error | outcome) g₁ ⟨-, h₁⟩
        · refine Meets.request (by rintro ⟨⟩) ?_
          rintro _ g₂ rfl
          have hnext : g₂.clock ≤ start + bound := h₁.trans (Nat.add_le_add_right hclock bound)
          refine Meets.bind ((ih hnext).mono (fun _ _ h => h) (fun _ _ h => h) fun g' h => ⟨h.1, ?_⟩) ?_
          · have := h.2
            omega
          · intro results g₃ h₃
            change g₃.clock ≤ start + if succeeded results then _ else _
            split_ifs at h₃ ⊢ <;> omega
        · have htime : g₁.clock ≤ g.clock + (2 * bound + handoff) := h₁
          change g₁.clock ≤ start + ((n + 1 + 1) * bound + handoff)
          omega

end Programs

/-- How long a message may take to be settled, its acknowledgement apart. -/
def Disposition.allowance (bound handoff : Nat) : Disposition → Nat
  | acknowledged => 4 * bound + handoff
  | deadLettered => 3 * bound + handoff
  | leftForRedelivery => 3 * bound + handoff

/-- How long the acknowledgement of a message takes, if it ever goes; a message that is left is not acknowledged. -/
def Message.pause? (m : Message) : Disposition → Option Nat
  | .leftForRedelivery => some 0
  | _ => m.acknowledging.delay

/-- A contract for a settlement that begins at a time: it acknowledges within the largest allowance, and it is over
within its own and the acknowledgement. -/
def settling (s : Setup σ) (m : Message) (start : Nat) : Contract Watch Disposition where
  asks r g := r = .acknowledge → g.clock ≤ start + (4 * s.attemptTimeout + s.handoff)
  ends d g := ∃ pause, m.pause? d = some pause ∧ g.clock ≤ start + d.allowance s.attemptTimeout s.handoff + pause
  overflows g := Overflows s.rate m.payload ∧ g.clock ≤ start + 3 * s.attemptTimeout

section Settling

variable {start : Nat} {g : Watch}

theorem conclude_watch {results : List (Except Error Outcome)}
    (h : g.clock ≤ start +
      if succeeded results then 4 * s.attemptTimeout + s.handoff else 3 * s.attemptTimeout) :
    (conclude m.payload results).Meets (Watching s.handoff m.acknowledging.delay)
      ⟨(settling s m start).asks, fun x => (settling s m start).ends x.disposition, (settling s m start).overflows⟩
      g := by
  unfold conclude
  split
  · rename_i hsucceeded
    rw [if_pos hsucceeded] at h
    refine Meets.request (fun _ => h) ?_
    rintro _ _ ⟨delay, hdelay, rfl⟩
    exact ⟨delay, hdelay, Nat.add_le_add_right h delay⟩
  · rename_i hfailed
    rw [if_neg hfailed] at h
    refine Meets.request (by rintro ⟨⟩) ?_
    rintro outcome _ ⟨time, htime, rfl⟩
    have hletter : time ≤ start + (3 * s.attemptTimeout + s.handoff) := by omega
    cases outcome with
    | ok accepted =>
        refine Meets.request (by rintro ⟨⟩) ?_
        rintro _ _ rfl
        refine Meets.request (fun _ => hletter.trans (by omega)) ?_
        rintro _ _ ⟨delay, hdelay, rfl⟩
        exact ⟨delay, hdelay, Nat.add_le_add_right hletter delay⟩
    | error rejection =>
        refine Meets.request (by rintro ⟨⟩) ?_
        rintro _ _ rfl
        exact ⟨0, rfl, hletter⟩

theorem settle_watch (g : Watch) :
    (settle s.rate s.attemptTimeout m.payload).Meets (Watching s.handoff m.acknowledging.delay)
      (settling s m g.clock) g := by
  rw [settle_eq]
  refine Meets.map (Meets.bind ((attemptResults_watch Limits.attempts le_rfl).mono ?_ (fun _ _ h => h) fun _ h => h) ?_)
  · exact fun r _ hr hacknowledge => absurd hacknowledge hr
  · exact fun results g' h => conclude_watch h

end Settling

/-! ### The calls of attempts -/

/-- The calls on the ledger that were issued in an attempt. -/
def Try.calls (t : Try σ) : List (Nat × Call) := t.after.watch.calls.drop t.before.watch.calls.length

namespace Run

/-- What an attempt calls it calls within its bound, wherever it ends. -/
theorem attempt_calledBy (hhorizon : s.horizon = none) (m : Message) (w : World σ) :
    (exec (attempt s m) w).2.watch.CalledBy w.watch.calls (w.clock + s.attemptTimeout) := by
  have hends : Ends (attempt s m) w _ _ := program_watch hhorizon (attempt_watch w.watch)
  rcases hexec : exec (attempt s m) w with ⟨(_ | _) | result, w'⟩
  · exact (hends.error hexec).2.1
  · obtain ⟨-, _, hasks, -⟩ := hends.error hexec
    exact absurd rfl hasks
  · exact (hends.ok hexec).1

theorem attempt_calls (hhorizon : s.horizon = none) (m : Message) (w : World σ) :
    (exec (attempt s m) w).2.watch.calls = w.watch.calls ++ Try.calls ⟨m, w, (exec (attempt s m) w).2⟩ := by
  obtain ⟨more, hcalls, -⟩ := attempt_calledBy hhorizon m w
  rw [Try.calls, hcalls, List.drop_left]

theorem attemptResults_calls (hhorizon : s.horizon = none) (m : Message) (n : Nat) (w : World σ) :
    (exec (program s m (attemptResults s.rate s.attemptTimeout m.payload n)) w).2.watch.calls =
      w.watch.calls ++ (triesAt s m n w).flatMap Try.calls := by
  induction n generalizing w with
  | zero => exact (List.append_nil _).symm
  | succ n ih =>
      have hfirst := attempt_calls hhorizon m w
      refine (congrArg (fun w => w.watch.calls) (exec_attemptResults_succ s m n w)).trans ?_
      rw [triesAt]
      rcases hexec : exec (attempt s m) w with ⟨halt | (e | outcome), w'⟩
      · rw [hexec] at hfirst
        exact hfirst.trans (by simp)
      · rw [hexec] at hfirst
        refine (ih _).trans ?_
        rw [List.flatMap_cons, ← List.append_assoc, ← hfirst]
        rfl
      · rw [hexec] at hfirst
        exact hfirst.trans (by simp)

theorem conclude_calls (hhorizon : s.horizon = none) (m : Message) (results : List (Except Error Outcome))
    (w : World σ) : (exec (program s m (conclude m.payload results)) w).2.watch.calls = w.watch.calls := by
  have hkept : ∀ r (g : Watch) (a : r.Answer) g', r.IsApart → g.calls = w.watch.calls →
      Watching s.handoff m.acknowledging.delay r g a g' → g'.calls = w.watch.calls := by
    intro r g a g' hr hg hwatching
    exact (hwatching.calls_of_isApart hr).trans hg
  have hends := program_watch hhorizon ((conclude_concludes m.payload results).frame hkept rfl)
  rcases hexec : exec (program s m (conclude m.payload results)) w with ⟨(_ | _) | x, w'⟩
  · exact (hends.error hexec).2
  · obtain ⟨-, w₁, ⟨-, hcalls⟩, rfl⟩ := hends.error hexec
    exact (congrArg Watch.calls (World.watch_note rfl)).trans hcalls
  · exact (hends.ok hexec).2

/-- A settlement makes the calls of its attempts and no others. -/
theorem settle_calls (hhorizon : s.horizon = none) (m : Message) (w : World σ) :
    (exec (settle s m) w).2.watch.calls =
      w.watch.calls ++ (triesAt s m Limits.attempts w).flatMap Try.calls := by
  rw [Session.exec_settle, ← attemptResults_calls hhorizon]
  change (exec (program s m (attemptResults s.rate s.attemptTimeout m.payload Limits.attempts >>= conclude m.payload))
    w).2.watch.calls = _
  rw [exec_program_bind]
  rcases exec (program s m (attemptResults s.rate s.attemptTimeout m.payload Limits.attempts)) w with
    ⟨halt | results, w'⟩
  · rfl
  · exact conclude_calls hhorizon m results w'

end Run

/-- No ledger can hold a message for long. In a world without an end, however the calls on the ledger and the handoffs
go, a settlement comes to a disposition within its allowance and what its acknowledgement takes, unless the message
overflows. An overflow ends it within the bounds of the attempts; and where an acknowledgement never goes, it has been
issued within the largest allowance. On a sound ledger nothing overflows but an event with details, no amount and no
statement. The calls on the ledger are those of the attempts, and those of an attempt are issued within its bound. -/
theorem settles_within_allowance (hhorizon : s.horizon = none) (m : Message) (w : World σ) :
    (Run.Ends (Run.settle s m) w
      (fun d w' => ∃ pause, m.pause? d = some pause ∧
        w'.clock ≤ w.clock + d.allowance s.attemptTimeout s.handoff + pause)
      fun halt w' =>
        match halt with
        | .overflow => Overflows s.rate m.payload ∧ w'.clock ≤ w.clock + 3 * s.attemptTimeout
        | .horizon => m.acknowledging.delay = none ∧
            w'.history.head? = some (w'.clock, .acknowledged m.number) ∧
            w'.clock ≤ w.clock + (4 * s.attemptTimeout + s.handoff)) ∧
    (∀ books : Books s.serve, books.sound w.ledger → m.acknowledging.delay ≠ none →
      ¬IsStuck books s.rate m.payload w.ledger → ∃ d w', Run.exec (Run.settle s m) w = (.ok d, w')) ∧
    (Run.exec (Run.settle s m) w).2.watch.calls =
      w.watch.calls ++ (Run.triesAt s m Limits.attempts w).flatMap Try.calls ∧
    ∀ t ∈ Run.triesAt s m Limits.attempts w, t.after = (Run.exec (Run.attempt s m) t.before).2 ∧
      t.after.watch.calls = t.before.watch.calls ++ t.calls ∧
      ∀ call ∈ t.calls, call.1 ≤ t.before.clock + s.attemptTimeout := by
  have hends : Run.Ends (Run.settle s m) w _ _ := Run.program_watch hhorizon (settle_watch w.watch)
  refine ⟨hends.mono (fun _ _ h => h) ?_, ?_, Run.settle_calls hhorizon m w, ?_⟩
  · rintro (_ | _) w' hhalted
    · exact hhalted
    · obtain ⟨hnever, w₁, hasks, rfl⟩ := hhalted
      exact ⟨hnever, rfl, hasks rfl⟩
  · exact fun books hsound hacknowledging hfree =>
      returns_of_ends (settle_stuck books m hsound) hhorizon hacknowledging hfree
  · intro t ht
    obtain ⟨-, hafter, -⟩ := Run.mem_triesAt t ht
    obtain ⟨more, hcalls, hmore⟩ := hafter ▸ Run.attempt_calledBy hhorizon m t.before
    have hnew : t.calls = more := by rw [Try.calls, hcalls, List.drop_left]
    exact ⟨hafter, hnew ▸ hcalls, hnew ▸ hmore⟩

/-- A world whose ledger never answers the first two recordings, posts at the last moment and reads the balance at the
last moment, and whose alerts nobody takes. -/
def slowWorld : World InMemory :=
  let stalled : Fault := ⟨none, none, false⟩
  let late : Fault := ⟨some 5000, none, false⟩
  World.start InMemory.empty
    ⟨some ⟨⟨0, by decide⟩, "u", Instant.epoch, .lackBalance, ""⟩, .idle⟩ Queue.undrained
    [(.record, [stalled, stalled]), (.create, [late]), (.balance, [late])] [] []

/-- In the slow world a bill takes four bounds and a handoff to be acknowledged. -/
theorem slowWorld_takes_the_allowance :
    let s := Setup.inMemory Credit.defaultRate 5000 1000 none
    let m : Message := ⟨1, unitsPayload, Fault.none⟩
    ∃ w', Run.exec (Run.settle s m) slowWorld = (.ok .acknowledged, w') ∧
      w'.clock = slowWorld.clock + Disposition.acknowledged.allowance s.attemptTimeout s.handoff ∧
      (Run.triesAt s m Limits.attempts slowWorld).length = 3 ∧
      ∀ t ∈ Run.triesAt s m Limits.attempts slowWorld,
        ∀ call ∈ t.calls, call.1 ≤ t.before.clock + s.attemptTimeout := by
  intro s m
  obtain ⟨-, -, -, hcalls⟩ := settles_within_allowance (s := s) rfl m slowWorld
  have hresult : (Run.exec (Run.settle s m) slowWorld).1 = .ok .acknowledged := by decide +kernel
  have hclock : (Run.exec (Run.settle s m) slowWorld).2.clock =
      slowWorld.clock + Disposition.acknowledged.allowance s.attemptTimeout s.handoff := by decide +kernel
  have htries : (Run.triesAt s m Limits.attempts slowWorld).length = 3 := by decide +kernel
  refine ⟨(Run.exec (Run.settle s m) slowWorld).2, Prod.ext hresult rfl, hclock, htries, ?_⟩
  exact fun t ht => (hcalls t ht).2.2

/-- The largest message is never settled. -/
theorem largest_message_is_never_settled :
    twoCreditSetup.horizon = none ∧ largestMessage.acknowledging.delay = some 0 ∧
      ∀ d w', Run.exec (Run.settle twoCreditSetup largestMessage) quietWorld ≠ (.ok d, w') := by
  have hoverflow : (Run.exec (Run.settle twoCreditSetup largestMessage) quietWorld).1 = .error .overflow := by
    decide +kernel
  refine ⟨rfl, rfl, fun d w' hexec => ?_⟩
  rw [hexec] at hoverflow
  cases hoverflow

end UsageLedger.Delivery
