import UsageLedger.Proofs.Delivery.Reports
import UsageLedger.Proofs.Delivery.Session
import UsageLedger.Proofs.Ledger.Posting

/-! Overflows. Raw units times a rate may have no decimal, and that ends whatever was under way: the
attempt, the settlement, the rounds on the connection. Nothing else does. It is said here when the product
has no decimal, that a consumer gets through every message otherwise, and that it never gets through a
message whose product has none while its ledger answers and has no statement of the event. -/

namespace UsageLedger.Delivery

open Ledger Program

variable {σ α β : Type} {s : Setup σ} {serve : Service σ} {w : World σ} {m : Message} {number : Nat}
  {g g' : Standing σ} {payload : Text.Bytes} {e : Event}

/-- An event has no amount exactly when its whole raw units times the rate are too large for the nearest
whole number to fit. -/
theorem amount?_eq_none_iff {rate : Decimal} :
    Credit.amount? rate e = none ↔
      e.kind = .rawUnit ∧ 2 ^ 97 - 1 ≤ 2 * |e.value.trunc.value * rate.value| := by
  rw [Credit.amount?, Option.map_eq_none_iff, Credit.convert?]
  cases e.kind with
  | monetary => simp
  | rawUnit => simp [Decimal.mul?_eq_none_iff]

/-- Whether a payload is that of an event that has details, no amount, and no statement yet. -/
def IsStuck (books : Books serve) (rate : Decimal) (payload : Text.Bytes) (m : σ) : Prop :=
  ∃ e x, Event.decode payload = .ok e ∧ e.details = .ok x ∧ Credit.amount? rate e = none ∧
    ¬books.has m e.id

/-! ### Where nothing overflows -/

/-- Whether a ledger is sound and has the statement of an event. -/
def HasSoundly (books : Books serve) (id : Uuid) (g : Standing σ) : Prop :=
  books.sound g.ledger ∧ books.has g.ledger id

theorem HasSoundly.responds {books : Books serve} {id : Uuid} {r : Request} {a : r.Answer}
    (h : HasSoundly books id g) (hresponds : Responds serve number r g a g') : HasSoundly books id g' :=
  ⟨hresponds.sound h.1, hresponds.has h.1 h.2⟩

/-- Programs that leave a ledger with the statement it has, and do not overflow. -/
def unharmed (books : Books serve) (id : Uuid) : Contract (Standing σ) α :=
  ⟨fun _ _ => True, fun _ g => HasSoundly books id g, fun _ => False⟩

/-- An event that has its statement is not billed, so its amount does not matter. -/
theorem post_unharmed (books : Books serve) (rate : Decimal) (h : HasSoundly books e.id g) :
    (post rate e).run.Meets (Responds serve number) (unharmed books e.id) g := by
  rw [run_post]
  refine ⟨trivial, fun _ g₁ hrecord => ?_⟩
  have h₁ : HasSoundly books e.id g₁ := HasSoundly.responds (r := .ledger (.record e)) h hrecord
  refine Meets.proceed h₁ (fun _ => h₁) fun _ _ => ⟨trivial, fun answer g₂ hfind => ?_⟩
  have h₂ : HasSoundly books e.id g₂ := HasSoundly.responds (r := .ledger (.find e.id)) h₁ hfind
  apply Meets.proceed h₂ (fun _ => h₂)
  intro found hanswer
  obtain ⟨t, ht, -⟩ := hfind
  obtain ⟨-, hfound⟩ := Treatment.answer_eq_ok (ht.symm.trans hanswer)
  have hsome : found.isSome := (books.has_of_find h₁.1 hfound).2 h₁.2
  cases found with
  | some statement => exact h₂
  | none => cases hsome

theorem attempt_unharmed (books : Books serve) (rate : Decimal) (bound : Nat)
    (hdecode : Event.decode payload = .ok e) (h : HasSoundly books e.id g) :
    (attempt rate bound payload).Meets (Responds serve number) (unharmed books e.id) g := by
  rw [attempt_of_ok hdecode]
  refine ⟨trivial, fun _ g₁ hbound => ?_⟩
  have h₁ : HasSoundly books e.id g₁ := HasSoundly.responds (r := .bound bound) h hbound
  apply Meets.bind (post_unharmed books rate h₁)
  intro posted g₂ h₂
  have hkept : ∀ r (g : Standing σ) (a : r.Answer) g', r.IsAside → HasSoundly books e.id g →
      Responds serve number r g a g' → HasSoundly books e.id g' := fun r g a g' _ h => h.responds
  exact ((attemptPosted_meets bound e posted).frame hkept h₂).mono (fun _ _ _ => trivial)
    (fun _ _ h => h.2) fun _ h => h.1

theorem attemptResults_unharmed (books : Books serve) (rate : Decimal) (bound : Nat) (n : Nat)
    (hdecode : Event.decode payload = .ok e) (h : HasSoundly books e.id g) :
    (attemptResults rate bound payload n).Meets (Responds serve number) (unharmed books e.id) g := by
  induction n generalizing g with
  | zero => exact h
  | succ n ih =>
      apply Meets.bind (attempt_unharmed books rate bound hdecode h)
      intro result g₁ h₁
      cases result with
      | ok outcome => exact h₁
      | error error =>
          apply Meets.request trivial
          intro _ g₂ hcount
          exact Meets.bind (ih (HasSoundly.responds (r := .count .failedAttempts) h₁ hcount)) fun _ _ h₃ => h₃

theorem settle_unharmed (books : Books serve) (rate : Decimal) (bound : Nat)
    (hdecode : Event.decode payload = .ok e) (h : HasSoundly books e.id g) :
    (settle rate bound payload).Meets (Responds serve number)
      ⟨fun _ _ => True, fun _ _ => True, fun _ => False⟩ g := by
  rw [settle_eq]
  refine Meets.map (Meets.bind ((attemptResults_unharmed books rate bound Limits.attempts hdecode h).mono
    (fun _ _ _ => trivial) (fun _ _ h => h) fun _ h => h) fun results g₁ _ => ?_)
  exact ((conclude_meets rate payload results).anywhere _ _).mono (fun _ _ _ => trivial) (fun _ _ h => h)
    fun _ h => h

/-- A run that halts only as a program does comes to a result if its program cannot overflow, its world has
no end and the acknowledgement goes. -/
theorem returns_of_ends {x : Run σ α} {post : α → World σ → Prop} {overflows : Prop}
    (hx : Run.Ends x w post (Run.programHalted s m fun _ => overflows)) (hhorizon : s.horizon = none)
    (hacknowledging : m.acknowledging.delay ≠ none) (hfits : ¬overflows) :
    ∃ a w', Run.exec x w = (.ok a, w') := by
  rcases hexec : Run.exec x w with ⟨(_ | _) | a, w'⟩
  · exact (hfits (hx.error hexec)).elim
  · rcases hx.error hexec with h | h
    · rw [hhorizon] at h
      cases h
    · exact (hacknowledging h).elim
  · exact ⟨a, w', rfl⟩

/-- A contract of which only the overflows count. -/
def overflowing (overflows : Prop) : Contract (Standing σ) α :=
  ⟨fun _ _ => True, fun _ _ => True, fun _ => overflows⟩

/-- A program that overflows only where its payload has no amount, and not where its event has a statement,
overflows only where a consumer is stuck on it. -/
theorem program_stuck (books : Books s.serve) {p : Program α} (hsound : books.sound w.ledger)
    (hplain : p.Meets (Responds s.serve m.number) (overflowing (Overflows s.rate m.payload)) w.standing)
    (hkept : ∀ e, Event.decode m.payload = .ok e → HasSoundly books e.id w.standing →
      p.Meets (Responds s.serve m.number) (overflowing False) w.standing) :
    Run.Ends (Run.program s m p) w (fun _ _ => True)
      (Run.programHalted s m fun _ => IsStuck books s.rate m.payload w.ledger) := by
  have hmeets : p.Meets (Responds s.serve m.number)
      (overflowing (IsStuck books s.rate m.payload w.ledger)) w.standing := by
    by_cases hhas : ∃ e, Event.decode m.payload = .ok e ∧ books.has w.ledger e.id
    · obtain ⟨e, hdecode, hhas⟩ := hhas
      exact (hkept e hdecode ⟨hsound, hhas⟩).mono (fun _ _ h => h) (fun _ _ h => h) fun _ h => h.elim
    · refine hplain.mono (fun _ _ h => h) (fun _ _ h => h) ?_
      rintro - ⟨e, x, hdecode, hdetails, hamount⟩
      exact ⟨e, x, hdecode, hdetails, hamount, fun h => hhas ⟨e, hdecode, h⟩⟩
  exact Run.program_ends hmeets

theorem attempt_stuck (books : Books s.serve) (m : Message) (hsound : books.sound w.ledger) :
    Run.Ends (Run.attempt s m) w (fun _ _ => True)
      (Run.programHalted s m fun _ => IsStuck books s.rate m.payload w.ledger) := by
  refine program_stuck books hsound ?_ fun e hdecode h => ?_
  · exact ((attempt_meets s.rate s.attemptTimeout m.payload).anywhere _ _).mono (fun _ _ _ => trivial)
      (fun _ _ h => h) fun _ h => h
  · exact (attempt_unharmed books s.rate s.attemptTimeout hdecode h).mono (fun _ _ h => h)
      (fun _ _ _ => trivial) fun _ h => h

theorem settle_stuck (books : Books s.serve) (m : Message) (hsound : books.sound w.ledger) :
    Run.Ends (Run.settle s m) w (fun _ _ => True)
      (Run.programHalted s m fun _ => IsStuck books s.rate m.payload w.ledger) := by
  refine program_stuck books hsound ?_ fun e hdecode h =>
    settle_unharmed books s.rate s.attemptTimeout hdecode h
  rw [settle_eq]
  exact Meets.map (((settlement_meets s.rate s.attemptTimeout m.payload).anywhere _ _).mono
    (fun _ _ _ => trivial) (fun _ _ h => h) fun _ h => h)

/-! ### Where nothing goes wrong -/

/-- Whether calls are answered at once and within their bound. -/
structure World.IsPrompt (w : World σ) : Prop where
  faults : w.faults = []
  inTime : w.clock ≤ w.deadline

namespace Run

theorem exec_waitWithin (hintime : w.clock ≤ w.deadline) :
    exec (waitWithin s (some 0)) w = (.ok true, w) := by
  change exec (if (some 0).any (w.clock + · ≤ w.deadline) then _ else _) w = _
  rw [if_pos (by simpa using hintime)]
  rfl

/-- In a prompt world a call is served, and the world stays prompt. -/
theorem exec_callLedger (hprompt : w.IsPrompt) (call : Call) :
    ∃ w', exec (callLedger s call) w = (.ok (some (s.serve call w.ledger).1), w') ∧ w'.IsPrompt ∧
      w'.ledger = (s.serve call w.ledger).2 := by
  obtain ⟨clock, deadline, ledger, metrics, alerts, letters, faults, sources, connections, history⟩ := w
  obtain ⟨rfl, hintime⟩ := hprompt
  let called : World σ := ⟨clock, deadline, ledger, metrics, alerts, letters, [], sources, connections,
    (clock, .called call) :: history⟩
  have hbegin : exec (callLedger s call)
        ⟨clock, deadline, ledger, metrics, alerts, letters, [], sources, connections, history⟩ =
      exec (waitWithin s (some 0) >>= fun inTime =>
        if inTime then serve s call >>= fun answer => pure (some answer) else pure none) called := rfl
  refine ⟨{ called with ledger := (s.serve call ledger).2 }, ?_, ⟨rfl, hintime⟩, rfl⟩
  rw [hbegin, exec_bind, exec_waitWithin (w := called) hintime]
  rfl

theorem exec_ask_ledger (hprompt : w.IsPrompt) {call : Call} {reply : call.Reply} {ledger : σ}
    (hserved : s.serve call w.ledger = (.ok reply, ledger)) :
    ∃ w', w'.IsPrompt ∧ w'.ledger = ledger ∧ ∀ next : Option (Except Error call.Reply) → Program α,
      exec (program s m (.ask (.ledger call) next)) w = exec (program s m (next (some (.ok reply)))) w' := by
  obtain ⟨w', hexec, hprompt', hledger⟩ := exec_callLedger (s := s) hprompt call
  rw [hserved] at hexec hledger
  refine ⟨w', hprompt', hledger, fun next => ?_⟩
  change exec (callLedger s call >>= fun a => program s m (next a)) w = _
  rw [exec_bind, hexec]

theorem exec_program_bind (p : Program α) (f : α → Program β) (w : World σ) :
    exec (program s m (p >>= f)) w =
      match exec (program s m p) w with
      | (.ok a, w') => exec (program s m (f a)) w'
      | (.error halt, w') => (.error halt, w') := by
  induction p generalizing w with
  | done a => rfl
  | overflow => rfl
  | ask r next ih =>
      change exec (answer s m r >>= fun a => program s m (next a >>= f)) w = _
      rw [exec_bind, show exec (program s m (ask r next)) w = _ from exec_bind (answer s m r) _ w]
      rcases exec (answer s m r) w with ⟨halt | a, w'⟩
      · rfl
      · exact ih a w'

end Run

/-- Whether a ledger answers what is asked before an event is posted: to record it, to find its statement,
to open its account. -/
def Answers (serve : Service σ) (e : Event) (m : σ) : Prop :=
  ∃ m₁ m₂ m₃, ∃ found : Option Statement, serve (.record e) m = (.ok (), m₁) ∧
    serve (.find e.id) m₁ = (.ok found, m₂) ∧ serve (.ensure e.user) m₂ = (.ok (), m₃)

theorem InMemory.answers (e : Event) (m : InMemory) : Answers InMemory.serve e m :=
  ⟨_, _, _, _, rfl, rfl, rfl⟩

namespace Run

/-- Where nothing goes wrong, the posting of an event without an amount overflows. -/
theorem exec_post_stuck (books : Books s.serve) {x : Extra} (hprompt : w.IsPrompt)
    (hsound : books.sound w.ledger) (hanswers : Answers s.serve e w.ledger) (hdetails : e.details = .ok x)
    (hamount : Credit.amount? s.rate e = none) (hnew : ¬books.has w.ledger e.id) :
    ∃ w', exec (program s m (post s.rate e).run) w = (.error .overflow, w') := by
  obtain ⟨m₁, m₂, m₃, found, hrecord, hfind, hensure⟩ := hanswers
  have hsound₁ : books.sound m₁ := by
    have h := books.sound_serve (.record e) hsound
    rwa [hrecord] at h
  have hnone : found = none := by
    have hfound := books.has_of_find hsound₁ (congrArg Prod.fst hfind)
    have hhas := books.has_serve (.record e) e.id hsound
    rw [hrecord] at hhas
    apply Option.not_isSome_iff_eq_none.1
    intro hsome
    rcases hhas.1 (hfound.1 hsome) with hold | ⟨posted, hposting, -⟩
    · exact hnew hold
    · cases hposting
  subst hnone
  obtain ⟨w₁, hprompt₁, hledger₁, hexec₁⟩ := exec_ask_ledger (m := m) hprompt hrecord
  rw [← hledger₁] at hfind
  obtain ⟨w₂, hprompt₂, hledger₂, hexec₂⟩ := exec_ask_ledger (m := m) hprompt₁ hfind
  rw [← hledger₂] at hensure
  obtain ⟨w₃, -, -, hexec₃⟩ := exec_ask_ledger (m := m) hprompt₂ hensure
  refine ⟨w₃, ?_⟩
  rw [run_post, hexec₁]
  refine (hexec₂ _).trans ((hexec₃ _).trans ?_)
  change exec (program s m (postStatement s.rate e)) w₃ = _
  rw [postStatement, hdetails, hamount]
  rfl

/-- Where nothing goes wrong, an attempt at a message that its consumer is stuck on overflows. -/
theorem exec_attempt_stuck (books : Books s.serve) (hfaults : w.faults = []) (hsound : books.sound w.ledger)
    (hanswers : ∀ e, Answers s.serve e w.ledger) (hstuck : IsStuck books s.rate m.payload w.ledger) :
    ∃ w', exec (attempt s m) w = (.error .overflow, w') := by
  obtain ⟨e, x, hdecode, hdetails, hamount, hnew⟩ := hstuck
  have hprompt : World.IsPrompt { w with deadline := w.clock + s.attemptTimeout } :=
    ⟨hfaults, Nat.le_add_right _ _⟩
  obtain ⟨w', hpost⟩ := exec_post_stuck (m := m) books hprompt hsound (hanswers e) hdetails hamount hnew
  refine ⟨w', ?_⟩
  have hbegin : exec (attempt s m) w =
      exec (program s m ((post s.rate e).run >>= attemptPosted s.attemptTimeout e))
        { w with deadline := w.clock + s.attemptTimeout } := by
    rw [attempt, attempt_of_ok hdecode]
    rfl
  rw [hbegin, exec_program_bind, hpost]

theorem exec_settle_of_attempt {w' : World σ} (h : exec (attempt s m) w = (.error .overflow, w')) :
    exec (settle s m) w = (.error .overflow, w') := by
  change exec (program s m ((Delivery.attempt s.rate s.attemptTimeout m.payload >>= _) >>= _)) w = _
  rw [exec_program_bind, exec_program_bind]
  change exec (program s m (Delivery.attempt s.rate s.attemptTimeout m.payload)) w = _ at h
  rw [h]

end Run

/-- What a consumer gets through. An event has no amount exactly when its whole raw units times the rate
are too large. On a sound ledger, whatever goes wrong, every attempt comes to a result and every settlement
to a disposition unless the event has details, no amount and no statement. Where nothing goes wrong that
exception is exact, for attempts and for settlements. The report on a connection covers every round and
counts every message that was fetched, unless one of the messages overflows; then it is empty. -/
theorem overflow_is_the_only_obstacle {s : Setup σ} (books : Books s.serve) :
    (∀ e, Credit.amount? s.rate e = none ↔
      e.kind = .rawUnit ∧ 2 ^ 97 - 1 ≤ 2 * |e.value.trunc.value * s.rate.value|) ∧
    (∀ (m : Message) (w : World σ), books.sound w.ledger → s.horizon = none →
      m.acknowledging.delay ≠ none → ¬IsStuck books s.rate m.payload w.ledger →
      (∃ result w', Run.exec (Run.attempt s m) w = (.ok result, w')) ∧
        ∃ disposition w', Run.exec (Run.settle s m) w = (.ok disposition, w')) ∧
    (∀ (m : Message) (w : World σ), books.sound w.ledger → w.faults = [] →
      (∀ e, Answers s.serve e w.ledger) →
      ((∃ w', Run.exec (Run.attempt s m) w = (.error .overflow, w')) ↔
        IsStuck books s.rate m.payload w.ledger) ∧
      ((∃ w', Run.exec (Run.settle s m) w = (.error .overflow, w')) ↔
        IsStuck books s.rate m.payload w.ledger)) ∧
    ∀ (p : Plan) (sources : List Source) (w : World σ),
      Run.Ends (Run.generation s p sources) w
        (fun report _ => Run.RoundsReport sources ProvisionReport.zero Limits.provisionRounds report ∨
          report = ProvisionReport.zero ∧ ∃ payload ∈ sources.flatMap payloads, Overflows s.rate payload)
        (Run.atHorizon fun _ => True) := by
  refine ⟨fun _ => amount?_eq_none_iff, ?_, ?_, fun p sources w => Run.generation_ends p sources⟩
  · intro m w hsound hhorizon hacknowledging hfree
    exact ⟨returns_of_ends (attempt_stuck books m hsound) hhorizon hacknowledging hfree,
      returns_of_ends (settle_stuck books m hsound) hhorizon hacknowledging hfree⟩
  · intro m w hsound hfaults hanswers
    refine ⟨⟨?_, Run.exec_attempt_stuck books hfaults hsound hanswers⟩, ⟨?_, fun hstuck => ?_⟩⟩
    · rintro ⟨w', hexec⟩
      exact (attempt_stuck books m hsound).error hexec
    · rintro ⟨w', hexec⟩
      exact (settle_stuck books m hsound).error hexec
    · obtain ⟨w', hexec⟩ := Run.exec_attempt_stuck books hfaults hsound hanswers hstuck
      exact ⟨w', Run.exec_settle_of_attempt hexec⟩

/-- A configuration at two credits for a unit. -/
def twoCreditConfig : Config := { Config.standard with rate := ⟨2, 0, by decide, Decimal.zero.scale_le⟩ }

def twoCreditSetup : Setup InMemory := Setup.inMemory twoCreditConfig.rate 5000 1000 none

/-- A message that bills a user as many raw units as a decimal can hold. -/
def largestMessage : Message where
  number := 1
  payload := Text.encode
    "\x7b\"uuid\":\"6f1c3a52-1f0e-4c4e-9d43-8f7b00000001\",\"user_id\":\"u-1\",\"value\":\"79228162514264337593543950335\",\"value_type\":1,\"created_at\":\"2024-03-01T10:00:00Z\"\x7d".toList
  acknowledging := Fault.none

/-- A world in which nothing goes wrong and nothing has happened yet. -/
def quietWorld : World InMemory := World.start InMemory.empty Queue.undrained Queue.undrained [] [] []

/-- At a valid rate the largest message overflows its attempt and its settlement, and the connection that
fetched it reports nothing. -/
theorem largestMessage_overflows :
    twoCreditConfig.validate = .ok twoCreditConfig ∧
    (Run.exec (Run.attempt twoCreditSetup largestMessage) quietWorld).1 = .error .overflow ∧
    (Run.exec (Run.settle twoCreditSetup largestMessage) quietWorld).1 = .error .overflow ∧
    (Run.exec (Run.generation twoCreditSetup (Plan.ofConfig twoCreditConfig)
      [[(some 0, .batch [(largestMessage.payload, Fault.none)])]]) quietWorld).1 = .ok ProvisionReport.zero :=
  ⟨rfl, by decide +kernel, by decide +kernel, by decide +kernel⟩

/-- In the same world a message of one credit is settled, and the largest one is what a consumer is stuck
on. -/
theorem quietWorld_settles_all_but_the_largest :
    (∃ disposition w', Run.exec (Run.settle twoCreditSetup ⟨1, creditPayload, Fault.none⟩) quietWorld =
      (.ok disposition, w')) ∧
    IsStuck InMemory.books twoCreditSetup.rate largestMessage.payload quietWorld.ledger := by
  obtain ⟨-, hsettles, hexact, -⟩ := overflow_is_the_only_obstacle (s := twoCreditSetup) InMemory.books
  constructor
  · have hamount : ((Event.decode creditPayload).toOption.all fun e =>
        (Credit.amount? twoCreditSetup.rate e).isSome) = true := by decide +kernel
    refine (hsettles ⟨1, creditPayload, Fault.none⟩ quietWorld trivial rfl (by decide) ?_).2
    rintro ⟨e, x, hdecode, -, hnone, -⟩
    change Event.decode creditPayload = .ok e at hdecode
    simp [hdecode, hnone, Except.toOption] at hamount
  · have hoverflow :
        (Run.exec (Run.settle twoCreditSetup largestMessage) quietWorld).1 = .error .overflow := by
      decide +kernel
    refine (hexact largestMessage quietWorld trivial rfl fun e => InMemory.answers e _).2.1 ?_
    rcases hexec : Run.exec (Run.settle twoCreditSetup largestMessage) quietWorld with ⟨result, w'⟩
    rw [hexec] at hoverflow
    exact ⟨w', by rw [← hoverflow]⟩

end UsageLedger.Delivery
