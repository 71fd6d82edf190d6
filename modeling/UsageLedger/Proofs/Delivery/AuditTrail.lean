import UsageLedger.Proofs.Delivery.Auditing
import UsageLedger.Proofs.Delivery.Unreadable

/-! The trail that a consumer leaves in the audit log. The log grows at its end, by one event for an attempt at most,
and what a statement is built from is in the log before the statement is asked for. No attempt at a message that
carries an event goes unrecorded while the ledger answers, whatever becomes of it after that. -/

namespace UsageLedger.Delivery

open Ledger Program

variable {α σ : Type}

namespace Run

/-- What holds in every state that a contract allows and after every answer in it holds wherever a run of a program
ends. -/
theorem program_holds {s : Setup σ} {m : Message} {w : World σ} {p : Program α} {c : Contract (Standing σ) α}
    (kept : Standing σ → Prop) (hp : p.Meets (Responds s.serve m.number) c w.standing)
    (hasks : ∀ r g, c.asks r g → kept g ∧ ∀ a g', Responds s.serve m.number r g a g' → kept g')
    (hends : ∀ a g, c.ends a g → kept g) (hoverflows : ∀ g, c.overflows g → kept g) :
    kept (exec (program s m p) w).2.standing := by
  induction p generalizing w with
  | done a => exact hends a _ hp
  | overflow => exact hoverflows _ hp
  | ask r next ih =>
      change kept (exec (answer s m r >>= fun a => program s m (next a)) w).2.standing
      rw [exec_bind]
      obtain ⟨hhere, hnext⟩ := hasks r _ hp.1
      rcases hexec : exec (answer s m r) w with ⟨halt | a, w'⟩
      · rcases ((answer_ends m r).error hexec).2.1 with hsame | ⟨a, hresponds⟩
        · exact hsame ▸ hhere
        · exact hnext a _ hresponds
      · exact ih a (hp.2 a _ ((answer_ends m r).ok hexec))

end Run

variable {rate : Decimal} {attemptTimeout handoff : Nat} {horizon : Option Nat} {m : Message} {w w' : World InMemory}
  {e : Event} {st : Statement}

/-! ### Attempts -/

namespace Run

/-- Wherever a program ends, the audit log has only grown at its end. -/
theorem audit_prefix_program (p : Program α) :
    w.ledger.audit <+: (exec (program (.inMemory rate attemptTimeout handoff horizon) m p) w).2.ledger.audit := by
  have hmeets : ∀ (p : Program α) g, w.ledger.audit <+: g.ledger.audit →
      p.Meets (Responds InMemory.serve m.number)
        ⟨fun _ g => w.ledger.audit <+: g.ledger.audit, fun _ g => w.ledger.audit <+: g.ledger.audit,
          fun g => w.ledger.audit <+: g.ledger.audit⟩ g := by
    intro p
    induction p with
    | done a => exact fun _ h => h
    | overflow => exact fun _ h => h
    | ask r next ih => exact fun g h => ⟨h, fun a g' hresponds => ih a g' (h.trans hresponds.audit_prefix)⟩
  exact program_holds (s := .inMemory rate attemptTimeout handoff horizon)
    (fun g => w.ledger.audit <+: g.ledger.audit) (hmeets p w.standing (List.prefix_refl _))
    (fun _ _ h => ⟨h, fun _ _ hresponds => h.trans hresponds.audit_prefix⟩) (fun _ _ h => h) fun _ h => h

theorem attempt_grownBy (m : Message) (w : World InMemory) :
    GrownBy m.payload w.ledger.audit
      (exec (attempt (.inMemory rate attemptTimeout handoff horizon) m) w).2.ledger.audit :=
  program_holds (s := .inMemory rate attemptTimeout handoff horizon)
    (fun g => GrownBy m.payload w.ledger.audit g.ledger.audit) (attempt_audits rate attemptTimeout m.payload w.standing)
    (fun _ _ h => ⟨h.grownBy, fun _ _ hresponds => h.responds hresponds⟩) (fun _ _ h => h) fun _ h => h

/-- A call on a calm desk is served at once. -/
theorem exec_callLedger_of_isCalm {s : Setup σ} {w : World σ} (hcalm : w.desk.IsCalm) (hintime : w.clock ≤ w.deadline)
    (call : Call) : ∃ w', exec (callLedger s call) w = (.ok (some (s.serve call w.ledger).1), w') ∧
      w'.ledger = (s.serve call w.ledger).2 := by
  have hfault : w.faults.next (.ofCall call) = (Fault.none, w.faults.afterCall (.ofCall call)) := by
    rw [Faults.next, show w.faults.script (.ofCall call) = [] from hcalm call]
    rfl
  let begun : World σ := { w.note w.clock (.called call) with faults := w.faults.afterCall (.ofCall call) }
  have hbegun : exec (nextFault (.ofCall call)) (w.note w.clock (.called call)) = (.ok Fault.none, begun) := by
    change (Except.ok (w.faults.next (.ofCall call)).1,
      ({ w.note w.clock (.called call) with faults := (w.faults.next (.ofCall call)).2 } : World σ)) = _
    rw [hfault]
  unfold callLedger
  rw [exec_bind, show exec (note (.called call)) w = (.ok ⟨⟩, w.note w.clock (.called call)) from rfl]
  dsimp only
  rw [exec_bind, hbegun]
  change ∃ w', exec (waitWithin s (some 0) >>= fun inTime =>
    if inTime then serve s call >>= fun answer => pure (some answer) else pure none) begun = _ ∧ _
  rw [exec_bind, exec_waitWithin (w := begun) hintime]
  exact ⟨_, rfl, rfl⟩

/-- While the ledger answers, an attempt at a message that carries an event records it. -/
theorem attempt_records (hcalm : w.desk.IsCalm) (hdecode : Event.decode m.payload = .ok e) :
    (exec (attempt (.inMemory rate attemptTimeout handoff horizon) m) w).2.ledger.audit = w.ledger.audit ++ [e] := by
  obtain ⟨next, hnext⟩ := attempt_begins hdecode rate attemptTimeout
  obtain ⟨w₁, hexec, hledger⟩ := exec_callLedger_of_isCalm (s := .inMemory rate attemptTimeout handoff horizon)
    (w := { w with deadline := w.clock + attemptTimeout }) hcalm (Nat.le_add_right _ _) (.record e)
  have hrest : exec (attempt (.inMemory rate attemptTimeout handoff horizon) m) w =
      exec (program (.inMemory rate attemptTimeout handoff horizon) m (next (some (.ok ())))) w₁ := by
    change exec (program _ m (Delivery.attempt rate attemptTimeout m.payload)) w = _
    rw [hnext]
    change exec (callLedger _ (.record e) >>= fun a => program _ m (next a)) _ = _
    rw [exec_bind, hexec]
    rfl
  -- the log only grows after the recording, and it grows once
  have hrecorded : w₁.ledger.audit = w.ledger.audit ++ [e] := congrArg InMemory.audit hledger
  have hlater : w₁.ledger.audit <+:
      (exec (program (.inMemory rate attemptTimeout handoff horizon) m (next (some (.ok ())))) w₁).2.ledger.audit :=
    audit_prefix_program _
  have hgrown : GrownBy m.payload w.ledger.audit
      (exec (attempt (.inMemory rate attemptTimeout handoff horizon) m) w).2.ledger.audit := attempt_grownBy m w
  rw [← hrest, hrecorded] at hlater
  rcases hgrown with hsame | ⟨e', hdecode', hgrown⟩
  · rw [hsame] at hlater
    exact absurd hlater.length_le (by simp)
  · obtain rfl := Except.ok.inj (hdecode'.symm.trans hdecode)
    exact hgrown

/-- A calm desk is still calm when a program has come to a result. -/
theorem isCalm_of_program {s : Setup σ} {w w' : World σ} {p : Program α} {a : α} (hcalm : w.desk.IsCalm)
    (hexec : exec (program s m p) w = (.ok a, w')) : w'.desk.IsCalm := by
  have hmeets : ∀ (p : Program α) (d : Desk σ), d.IsCalm →
      p.Meets (Desk.Around s.serve) ⟨fun _ _ => True, fun _ d => d.IsCalm, fun _ => True⟩ d := by
    intro p
    induction p with
    | done a => exact fun _ h => h
    | overflow => exact fun _ _ => trivial
    | ask r next ih => exact fun d h => ⟨trivial, fun a d' haround => ih a d' (haround.isCalm h)⟩
  exact (program_desk (hmeets p w.desk hcalm)).ok hexec

end Run

/-! ### The attempts of a run -/

/-- An attempt that was made at a message, with the world before it and the world where it ended. -/
structure Try (σ : Type) where
  message : Message
  before : World σ
  after : World σ

/-- The rows that an attempt added to the audit log. -/
def Try.rows (t : Try InMemory) : List Event := t.after.ledger.audit.drop t.before.ledger.audit.length

theorem Try.audit_eq {t : Try InMemory} (h : t.before.ledger.audit <+: t.after.ledger.audit) :
    t.after.ledger.audit = t.before.ledger.audit ++ t.rows := (List.prefix_iff_eq_append.1 h).symm

namespace Run

/-- The attempts that are made at a message, so many at most. -/
def triesAt (s : Setup σ) (m : Message) : Nat → World σ → List (Try σ)
  | 0, _ => []
  | n + 1, w =>
    match exec (attempt s m) w with
    | (.ok (.error _), w') =>
      ⟨m, w, w'⟩ :: triesAt s m n { w' with metrics := w'.metrics.count .failedAttempts }
    | (_, w') => [⟨m, w, w'⟩]

/-- The attempts that are made when messages are settled one after another, up to where the run ends. -/
def tries (s : Setup σ) : List Message → World σ → List (Try σ)
  | [], _ => []
  | m :: more, w =>
    triesAt s m Limits.attempts w ++
      match exec (settle s m) w with
      | (.ok _, w') => tries s more w'
      | (.error _, _) => []

/-- The attempts at a message are attempts at it, on a calm desk if it is calm before the first of them. -/
theorem mem_triesAt {s : Setup σ} {n : Nat} {w : World σ} :
    ∀ t ∈ triesAt s m n w, t.message = m ∧ t.after = (exec (attempt s m) t.before).2 ∧
      (w.desk.IsCalm → t.before.desk.IsCalm) := by
  induction n generalizing w with
  | zero => exact List.forall_mem_nil _
  | succ n ih =>
      rw [triesAt]
      rcases hexec : exec (attempt s m) w with ⟨halt | (e | outcome), w'⟩
      · exact List.forall_mem_singleton.2 ⟨rfl, by rw [hexec], id⟩
      · refine List.forall_mem_cons.2 ⟨⟨rfl, by rw [hexec], id⟩, fun t ht => ?_⟩
        obtain ⟨hmessage, hafter, hcalm⟩ := ih t ht
        refine ⟨hmessage, hafter, fun h => hcalm ?_⟩
        have hleft : w'.desk.IsCalm := isCalm_of_program h hexec
        exact hleft
      · exact List.forall_mem_singleton.2 ⟨rfl, by rw [hexec], id⟩

theorem mem_tries {s : Setup σ} {messages : List Message} {w : World σ} :
    ∀ t ∈ tries s messages w, t.message ∈ messages ∧ t.after = (exec (attempt s t.message) t.before).2 ∧
      (w.desk.IsCalm → t.before.desk.IsCalm) := by
  induction messages generalizing w with
  | nil => exact List.forall_mem_nil _
  | cons m more ih =>
      rw [tries]
      refine List.forall_mem_append.2 ⟨fun t ht => ?_, fun t ht => ?_⟩
      · obtain ⟨rfl, hafter, hcalm⟩ := mem_triesAt t ht
        exact ⟨List.mem_cons_self, hafter, hcalm⟩
      · rcases hexec : exec (settle s m) w with ⟨halt | d, w'⟩
        · rw [hexec] at ht
          cases ht
        · rw [hexec] at ht
          obtain ⟨hmem, hafter, hcalm⟩ := ih t ht
          exact ⟨List.mem_cons_of_mem _ hmem, hafter, fun h => hcalm (isCalm_of_program h hexec)⟩

/-- What an attempt adds to the log are its rows. -/
theorem audit_attempt (m : Message) (w : World InMemory) :
    let after := (exec (attempt (.inMemory rate attemptTimeout handoff horizon) m) w).2
    after.ledger.audit = w.ledger.audit ++ Try.rows ⟨m, w, after⟩ := by
  intro after
  have hgrown : GrownBy m.payload w.ledger.audit after.ledger.audit := attempt_grownBy m w
  exact Try.audit_eq (t := ⟨m, w, after⟩) hgrown.isPrefix

/-- Where the attempts at a message end: the first one ends there, or it has failed and the others are made. -/
theorem exec_attemptResults_succ (s : Setup σ) (m : Message) (n : Nat) (w : World σ) :
    (exec (program s m (attemptResults s.rate s.attemptTimeout m.payload (n + 1))) w).2 =
      match exec (attempt s m) w with
      | (.ok (.error _), w') =>
        (exec (program s m (attemptResults s.rate s.attemptTimeout m.payload n))
          { w' with metrics := w'.metrics.count .failedAttempts }).2
      | (_, w') => w' := by
  rw [attemptResults, exec_program_bind]
  rcases hexec : exec (attempt s m) w with ⟨halt | (e | outcome), w'⟩
  · rw [show exec (program s m (Delivery.attempt s.rate s.attemptTimeout m.payload)) w = _ from hexec]
  · rw [show exec (program s m (Delivery.attempt s.rate s.attemptTimeout m.payload)) w = _ from hexec]
    change (exec (program s m (attemptResults s.rate s.attemptTimeout m.payload n >>= fun results =>
      pure (.error e :: results))) { w' with metrics := w'.metrics.count .failedAttempts }).2 = _
    rw [exec_program_bind]
    split
    · rename_i hrest
      exact (congrArg Prod.snd hrest).symm
    · rename_i hrest
      exact (congrArg Prod.snd hrest).symm
  · rw [show exec (program s m (Delivery.attempt s.rate s.attemptTimeout m.payload)) w = _ from hexec]
    rfl

/-- The attempts at a message add their rows to the log, in their order. -/
theorem audit_attemptResults (m : Message) (n : Nat) (w : World InMemory) :
    (exec (program (.inMemory rate attemptTimeout handoff horizon) m
      (attemptResults rate attemptTimeout m.payload n)) w).2.ledger.audit =
        w.ledger.audit ++ (triesAt (.inMemory rate attemptTimeout handoff horizon) m n w).flatMap Try.rows := by
  induction n generalizing w with
  | zero => exact (List.append_nil _).symm
  | succ n ih =>
      have hfirst : let after := (exec (attempt (.inMemory rate attemptTimeout handoff horizon) m) w).2
          after.ledger.audit = w.ledger.audit ++ Try.rows ⟨m, w, after⟩ := audit_attempt m w
      refine (congrArg (fun w => w.ledger.audit) (exec_attemptResults_succ _ m n w)).trans ?_
      rw [triesAt]
      rcases hexec : exec (attempt (.inMemory rate attemptTimeout handoff horizon) m) w with ⟨halt | (e | outcome), w'⟩
      · rw [hexec] at hfirst
        exact hfirst.trans (by simp)
      · rw [hexec] at hfirst
        refine (ih _).trans ?_
        rw [List.flatMap_cons, ← List.append_assoc, ← hfirst]
      · rw [hexec] at hfirst
        exact hfirst.trans (by simp)

/-- What comes after the attempts adds nothing to the log. -/
theorem audit_settle (m : Message) (w : World InMemory) :
    (exec (settle (.inMemory rate attemptTimeout handoff horizon) m) w).2.ledger.audit =
      w.ledger.audit ++
        (triesAt (.inMemory rate attemptTimeout handoff horizon) m Limits.attempts w).flatMap Try.rows := by
  have hattempts : (exec (program (.inMemory rate attemptTimeout handoff horizon) m
      (attemptResults rate attemptTimeout m.payload Limits.attempts)) w).2.ledger.audit = _ :=
    audit_attemptResults m Limits.attempts w
  rw [Session.exec_settle, ← hattempts]
  change (exec (program _ m (attemptResults rate attemptTimeout m.payload Limits.attempts >>= conclude m.payload))
    w).2.ledger.audit = _
  rw [exec_program_bind]
  rcases exec (program (.inMemory rate attemptTimeout handoff horizon) m
    (attemptResults rate attemptTimeout m.payload Limits.attempts)) w with ⟨halt | results, w'⟩
  · rfl
  · have hkept : ∀ r (g : Standing InMemory) (a : r.Answer) g', r.IsApart → g.ledger = w'.ledger →
        Responds InMemory.serve m.number r g a g' → g'.ledger = w'.ledger :=
      fun r g a g' hr hg hresponds => (hresponds.ledger_of_isApart hr).trans hg
    have hledger := program_holds (s := .inMemory rate attemptTimeout handoff horizon) (w := w')
      (fun g => g.ledger = w'.ledger) ((conclude_concludes m.payload results).frame hkept rfl)
      (fun r g h => ⟨h.2, fun a g' => hkept r g a g' h.1 h.2⟩) (fun _ _ h => h.2) fun _ h => h.2
    exact congrArg InMemory.audit hledger

/-- The attempts of a run add their rows to the log, in their order, and nothing else does. -/
theorem audit_settleAll (messages : List Message) (r : FetchReport) (w : World InMemory) :
    (exec (settleAll (settle (.inMemory rate attemptTimeout handoff horizon)) messages r) w).2.ledger.audit =
      w.ledger.audit ++ (tries (.inMemory rate attemptTimeout handoff horizon) messages w).flatMap Try.rows := by
  induction messages generalizing r w with
  | nil => exact (List.append_nil _).symm
  | cons m more ih =>
      have hfirst : (exec (settle (.inMemory rate attemptTimeout handoff horizon) m) w).2.ledger.audit = _ :=
        audit_settle m w
      rw [settleAll, tries, exec_bind, List.flatMap_append, ← List.append_assoc, ← hfirst]
      rcases exec (settle (.inMemory rate attemptTimeout handoff horizon) m) w with ⟨halt | d, w'⟩
      · exact (List.append_nil _).symm
      · exact ih (r.settled d) w'

end Run

/-! ### Sessions -/

namespace Session

/-- Of the log it is known that it began as `start`, and of what is left of a settlement that its requests are those
of attempts. -/
def trail (rate : Decimal) (start : List Event) : Invariant InMemory :=
  ⟨fun _ g => start <+: g.ledger.audit, fun m _ => trailing rate m.payload start⟩

theorem trail_sustained (rate : Decimal) (attemptTimeout handoff : Nat) (horizon : Option Nat) (start : List Event) :
    Sustains (.inMemory rate attemptTimeout handoff horizon) (fun _ => True) (trail rate start) where
  deliver _ _ _ h := h
  take _ m _ h := settlement_trails rate attemptTimeout m.payload h
  answer _ _ _ _ _ _ _ _ h _ hresponds _ := h.trans hresponds.audit_prefix

variable {s : Setup InMemory} {x : Session InMemory} {messages : List Message}

/-- What a session asks for is what an attempt may, with a log that began as the session found it. -/
theorem audits_of_asking {w : World InMemory} (n : Nat) {r : Request}
    (h : ((begin w messages).after (.inMemory rate attemptTimeout handoff horizon) n).asking? = some (m, r)) :
    ∃ before, w.ledger.audit <+: before ∧ Audits rate m.payload before
      ((begin w messages).after (.inMemory rate attemptTimeout handoff horizon) n).world.ledger.audit r := by
  have hcarries : Carries (.inMemory rate attemptTimeout handoff horizon) (trail rate w.ledger.audit)
      ((begin w messages).after (.inMemory rate attemptTimeout handoff horizon) n) :=
    (carries_begin messages (List.prefix_refl _)).after (trail_sustained rate attemptTimeout handoff horizon _) n
      fun _ _ => trivial
  obtain ⟨before, next, hhand⟩ := exists_of_asking? h
  exact (hcarries.meets m before _ hhand).2.1

/-- A step of a session adds nothing to the log but the event of the message in hand, when it records it. -/
theorem audit_step {w : World InMemory} (n : Nat) :
    let x := (begin w messages).after (.inMemory rate attemptTimeout handoff horizon)
    (x (n + 1)).world.ledger.audit = (x n).world.ledger.audit ∨
      ∃ m e, (x n).asking? = some (m, .ledger (.record e)) ∧ Event.decode m.payload = .ok e ∧
        (x (n + 1)).world.ledger.audit = (x n).world.ledger.audit ++ [e] := by
  intro x
  have hnext : x (n + 1) = (x n).step (.inMemory rate attemptTimeout handoff horizon) := after_succ n
  rw [hnext]
  rcases step_standing (.inMemory rate attemptTimeout handoff horizon) (x n) with hsame | ⟨m, r, a, hasking, hresponds⟩
  · exact .inl (congrArg (fun g => g.ledger.audit) hsame)
  · rcases Responds.audit hresponds with hsame | ⟨e, rfl, hgrown⟩
    · exact .inl hsame
    · obtain ⟨before, -, -, hdecode⟩ := audits_of_asking n hasking
      exact .inr ⟨m, e, hasking, hdecode, hgrown⟩

/-- A step that creates a statement answers the request to create it. -/
theorem statements_step (hs : s.serve = InMemory.serve) (hst : st ∈ (x.step s).world.ledger.statements) :
    st ∈ x.world.ledger.statements ∨ ∃ m amount, x.asking? = some (m, .ledger (.create st amount)) := by
  rcases step_standing s x with hsame | ⟨m, r, a, hasking, hresponds⟩
  · exact .inl (congrArg (fun g => g.ledger.statements) hsame ▸ hst)
  · rw [hs] at hresponds
    rcases hresponds.ledger with hsame | ⟨call, rfl, hserved⟩
    · exact .inl (congrArg InMemory.statements hsame ▸ hst)
    · have hposted : st ∈ x.world.ledger.statements ++ (call.posting? InMemory.serve x.world.ledger).toList := by
        rw [← serve_statements]
        exact hserved ▸ hst
      rcases List.mem_append.1 hposted with hold | hnew
      · exact .inl hold
      · obtain ⟨delta, rfl, -⟩ := Call.posting?_eq_some (Option.mem_toList.1 hnew)
        exact .inr ⟨m, delta, hasking⟩

/-- A statement that a session created was asked for in one of its states, with its event as the last one in the
log. -/
theorem recorded_of_created {w : World InMemory} (n : Nat)
    (hst : st ∈ ((begin w messages).after (.inMemory rate attemptTimeout handoff horizon) n).world.ledger.statements)
    (hnew : st ∉ w.ledger.statements) :
    ∃ k < n, ∃ m amount e before,
      let x := (begin w messages).after (.inMemory rate attemptTimeout handoff horizon) k
      x.asking? = some (m, .ledger (.create st amount)) ∧ Event.decode m.payload = .ok e ∧ IsBillOf rate e st ∧
        w.ledger.audit <+: before ∧ x.world.ledger.audit = before ++ [e] := by
  induction n with
  | zero => exact (hnew hst).elim
  | succ n ih =>
      rw [after_succ] at hst
      rcases statements_step rfl hst with hold | ⟨m, amount, hasking⟩
      · obtain ⟨k, hk, hasked⟩ := ih hold
        exact ⟨k, hk.trans (Nat.lt_succ_self n), hasked⟩
      · obtain ⟨before, hstart, e, hdecode, hbill, hlog⟩ := audits_of_asking n hasking
        exact ⟨n, Nat.lt_succ_self n, m, amount, e, before, hasking, hdecode, hbill, hstart, hlog⟩

end Session

/-- An attempt of a run adds to the log the event of its message, once at most; and once, if no call on the ledger
goes wrong. -/
theorem Run.rows_of_tries {messages : List Message} {t : Try InMemory}
    (ht : t ∈ tries (.inMemory rate attemptTimeout handoff horizon) messages w) :
    t.after.ledger.audit = t.before.ledger.audit ++ t.rows ∧ t.rows.length ≤ 1 ∧
      (∀ e ∈ t.rows, Event.decode t.message.payload = .ok e) ∧
      (w.desk.IsCalm → ∀ e, Event.decode t.message.payload = .ok e → t.rows = [e]) := by
  obtain ⟨-, hafter, hcalm⟩ := mem_tries t ht
  have hgrown : GrownBy t.message.payload t.before.ledger.audit t.after.ledger.audit :=
    hafter ▸ attempt_grownBy t.message t.before
  have hrows := Try.audit_eq hgrown.isPrefix
  refine ⟨hrows, ?_, ?_, fun h e hdecode => ?_⟩
  · rcases hgrown with hsame | ⟨e, -, hgrown⟩
    · simp [Try.rows, hsame]
    · simp [Try.rows, hgrown]
  · rcases hgrown with hsame | ⟨e, hdecode, hgrown⟩
    · simp [Try.rows, hsame]
    · simp [Try.rows, hgrown, hdecode]
  · have hrecorded : t.after.ledger.audit = t.before.ledger.audit ++ [e] :=
      hafter ▸ attempt_records (hcalm h) hdecode
    exact List.append_cancel_left (hrows.symm.trans hrecorded)

/-- The audit log comes before the bills. Whatever goes wrong, a step of a session adds to the end of the log the event
of the message in hand, when it is recorded, or nothing. A statement that was not there before was asked for in one
of the states, and the last row of the log was then the event that it bills. What a run adds to the log are the rows
of its attempts, one for an attempt at most; and one for every attempt at a message that carries an event, if no
call on the ledger goes wrong. -/
theorem audit_precedes_billing (rate : Decimal) (attemptTimeout handoff : Nat) (horizon : Option Nat)
    (messages : List Message) (w : World InMemory) :
    let s := Setup.inMemory rate attemptTimeout handoff horizon
    let x := (Session.begin w messages).after s
    (∀ n, (x (n + 1)).world.ledger.audit = (x n).world.ledger.audit ∨
      ∃ m e, (x n).asking? = some (m, .ledger (.record e)) ∧ Event.decode m.payload = .ok e ∧
        (x (n + 1)).world.ledger.audit = (x n).world.ledger.audit ++ [e]) ∧
    (∀ n, ∀ st ∈ (x n).world.ledger.statements, st ∉ w.ledger.statements →
      ∃ k < n, ∃ m amount e before, (x k).asking? = some (m, .ledger (.create st amount)) ∧
        Event.decode m.payload = .ok e ∧ IsBillOf rate e st ∧ w.ledger.audit <+: before ∧
        (x k).world.ledger.audit = before ++ [e]) ∧
    (∀ r, (Run.exec (Run.settleAll (Run.settle s) messages r) w).2.ledger.audit =
      w.ledger.audit ++ (Run.tries s messages w).flatMap Try.rows) ∧
    ∀ t ∈ Run.tries s messages w, t.message ∈ messages ∧
      t.after = (Run.exec (Run.attempt s t.message) t.before).2 ∧
      t.after.ledger.audit = t.before.ledger.audit ++ t.rows ∧ t.rows.length ≤ 1 ∧
      (∀ e ∈ t.rows, Event.decode t.message.payload = .ok e) ∧
      (w.desk.IsCalm → ∀ e, Event.decode t.message.payload = .ok e → t.rows = [e]) := by
  intro s x
  refine ⟨Session.audit_step, fun n st => Session.recorded_of_created n, fun r => Run.audit_settleAll messages r w,
    fun t ht => ?_⟩
  obtain ⟨hmessage, hafter, -⟩ := Run.mem_tries t ht
  exact ⟨hmessage, hafter, Run.rows_of_tries ht⟩

/-- A charge that is delivered twice, and a message whose details cannot be read. -/
def chargeTwiceAndUnclear : List Message :=
  [⟨1, creditPayload, Fault.none⟩, ⟨2, creditPayload, Fault.none⟩, ⟨3, unclearPayload, Fault.none⟩]

/-- Of five attempts the first one bills: its event is in the log before. All five are recorded. -/
theorem every_attempt_is_recorded :
    let s := Setup.inMemory Credit.defaultRate 5000 1000 none
    let x := (Session.begin quietWorld chargeTwiceAndUnclear).after s
    (∃ st ∈ (x 7).world.ledger.statements, st ∉ quietWorld.ledger.statements ∧
      ∃ k < 7, ∃ m amount e before, (x k).asking? = some (m, .ledger (.create st amount)) ∧
        Event.decode m.payload = .ok e ∧ IsBillOf Credit.defaultRate e st ∧ quietWorld.ledger.audit <+: before ∧
        (x k).world.ledger.audit = before ++ [e]) ∧
    (Run.tries s chargeTwiceAndUnclear quietWorld).map (·.message.number) = [1, 2, 3, 3, 3] ∧
    ∀ t ∈ Run.tries s chargeTwiceAndUnclear quietWorld,
      ∃ e, Event.decode t.message.payload = .ok e ∧ t.rows = [e] := by
  intro s x
  obtain ⟨-, hcreated, -, htries⟩ :=
    audit_precedes_billing Credit.defaultRate 5000 1000 none chargeTwiceAndUnclear quietWorld
  have hnumbers : (Run.tries s chargeTwiceAndUnclear quietWorld).map (·.message.number) = [1, 2, 3, 3, 3] := by
    decide +kernel
  have hposted : (x 7).world.ledger.statements.length = 1 := by decide +kernel
  obtain ⟨st, hst⟩ := List.exists_mem_of_length_pos (hposted ▸ Nat.one_pos)
  refine ⟨⟨st, hst, nofun, hcreated 7 st hst nofun⟩, hnumbers, fun t ht => ?_⟩
  obtain ⟨hmessage, -, -, -, -, hcalm⟩ := htries t ht
  have hcarries : ∀ m ∈ chargeTwiceAndUnclear, (Event.decode m.payload).isOk = true := by decide +kernel
  cases hdecode : Event.decode t.message.payload with
  | error error =>
      have hok := hcarries _ hmessage
      rw [hdecode] at hok
      cases hok
  | ok e => exact ⟨e, rfl, hcalm (fun _ => rfl) e hdecode⟩

end UsageLedger.Delivery
