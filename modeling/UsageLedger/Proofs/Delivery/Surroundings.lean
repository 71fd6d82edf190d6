import UsageLedger.Delivery.World
import UsageLedger.Proofs.Delivery.Contract
import UsageLedger.Proofs.Ledger.Books

/-! The world as the surroundings of a program. Time, faults and publishers are left out of account: what
is kept of a world is its ledger, its counters, its sources and what the consumer itself has done. A call
on the ledger is treated in one of five ways, by whether it is executed and by how it is answered, and
every other request leaves the ledger alone. -/

namespace UsageLedger.Delivery

variable {σ α β : Type}

/-- How a call on a ledger goes: it is served; it fails, without having been executed or after it; it is
not answered in time, without having been executed or after it. -/
inductive Treatment
  | served
  | refused (e : Error)
  | spoiled (e : Error)
  | dropped
  | overdue
  deriving DecidableEq

namespace Treatment

def executes : Treatment → Bool
  | served => true
  | refused _ => false
  | spoiled _ => true
  | dropped => false
  | overdue => true

def answer (serve : Ledger.Service σ) (t : Treatment) (call : Ledger.Call) (m : σ) :
    Option (Except Error call.Reply) :=
  match t with
  | served => some (serve call m).1
  | refused e => some (.error e)
  | spoiled e => some (.error e)
  | dropped => none
  | overdue => none

def ledger (serve : Ledger.Service σ) (t : Treatment) (call : Ledger.Call) (m : σ) : σ :=
  if t.executes then (serve call m).2 else m

end Treatment

/-- Whether a happening is something that the consumer itself does; publishing is not. -/
def Happening.isDeed : Happening → Bool
  | published _ _ => false
  | _ => true

/-- A history without its times and without what publishers do, the newest first. -/
def History.deeds (h : History) : List Happening := (h.map (·.2)).filter Happening.isDeed

/-- Where a consumer stands: the state of its ledger, its counters, the sources that it has not read yet,
and what it has done, the newest first. -/
@[ext] structure Standing (σ : Type) where
  ledger : σ
  metrics : Metrics
  sources : List Source
  deeds : List Happening

def Standing.doing (g : Standing σ) (deed : Happening) : Standing σ := { g with deeds := deed :: g.deeds }

def World.standing (w : World σ) : Standing σ :=
  ⟨w.ledger, w.metrics, w.sources, History.deeds w.history⟩

def rejection? : Except Rejection Unit → Option Rejection
  | .ok _ => none
  | .error rejection => some rejection

/-- What can come of a request to a world with the message `number` in hand. -/
def Responds (serve : Ledger.Service σ) (number : Nat) : Surroundings (Standing σ)
  | .time, g, _, g' => g' = g
  | .bound _, g, _, g' => g' = g
  | .ledger call, g, answer, g' => ∃ t : Treatment, answer = t.answer serve call g.ledger ∧
      g' = { g.doing (.called call) with ledger := t.ledger serve call g.ledger }
  | .alert a, g, outcome, g' => g' = g.doing (.offered (.alert a) (rejection? outcome))
  | .letter payload, g, outcome, g' => g' = g.doing (.offered (.letter payload) (rejection? outcome))
  | .acknowledge, g, _, g' => g' = g.doing (.acknowledged number)
  | .count metric, g, _, g' => g' = { g with metrics := g.metrics.count metric }

/-- A call that is answered with a reply was served. -/
theorem Treatment.answer_eq_ok {serve : Ledger.Service σ} {t : Treatment} {call : Ledger.Call} {m : σ}
    {reply : call.Reply} (h : t.answer serve call m = some (.ok reply)) :
    t = .served ∧ (serve call m).1 = .ok reply := by
  cases t with
  | served => exact ⟨rfl, Option.some.inj h⟩
  | refused e => cases Option.some.inj h
  | spoiled e => cases Option.some.inj h
  | dropped => cases h
  | overdue => cases h

theorem Treatment.ledger_eq (serve : Ledger.Service σ) (t : Treatment) (call : Ledger.Call) (m : σ) :
    t.ledger serve call m = m ∨ t.ledger serve call m = (serve call m).2 := by
  cases t with
  | served => exact .inr rfl
  | refused e => exact .inl rfl
  | spoiled e => exact .inr rfl
  | dropped => exact .inl rfl
  | overdue => exact .inr rfl

/-- A request leaves the ledger alone or is a call on it that it executes. -/
theorem Responds.ledger {serve : Ledger.Service σ} {number : Nat} {r : Request} {g g' : Standing σ}
    {a : r.Answer} (h : Responds serve number r g a g') :
    g'.ledger = g.ledger ∨ ∃ call, r = .ledger call ∧ g'.ledger = (serve call g.ledger).2 := by
  cases r with
  | ledger call =>
      obtain ⟨t, -, rfl⟩ := h
      rcases t.ledger_eq serve call g.ledger with hsame | hserved
      · exact .inl hsame
      · exact .inr ⟨call, rfl, hserved⟩
  | time =>
      obtain rfl : g' = _ := h
      exact .inl rfl
  | bound ms =>
      obtain rfl : g' = _ := h
      exact .inl rfl
  | alert alert =>
      obtain rfl : g' = _ := h
      exact .inl rfl
  | letter payload =>
      obtain rfl : g' = _ := h
      exact .inl rfl
  | acknowledge =>
      obtain rfl : g' = _ := h
      exact .inl rfl
  | count metric =>
      obtain rfl : g' = _ := h
      exact .inl rfl

/-- A ledger that is sound stays so. -/
theorem Responds.sound {serve : Ledger.Service σ} {books : Ledger.Books serve} {number : Nat} {r : Request}
    {g g' : Standing σ} {a : r.Answer} (h : Responds serve number r g a g')
    (hsound : books.sound g.ledger) : books.sound g'.ledger := by
  rcases h.ledger with hsame | ⟨call, -, hserved⟩
  · rwa [hsame]
  · rw [hserved]
    exact books.sound_serve call hsound

/-- An event that has its statement keeps it. -/
theorem Responds.has {serve : Ledger.Service σ} {books : Ledger.Books serve} {number : Nat} {r : Request}
    {g g' : Standing σ} {a : r.Answer} (h : Responds serve number r g a g')
    (hsound : books.sound g.ledger) {id : Uuid} (hhas : books.has g.ledger id) : books.has g'.ledger id := by
  rcases h.ledger with hsame | ⟨call, -, hserved⟩
  · rwa [hsame]
  · rw [hserved]
    exact (books.has_serve call id hsound).2 (.inl hhas)

/-- No request reads a source. -/
theorem Responds.sources {serve : Ledger.Service σ} {number : Nat} {r : Request} {g g' : Standing σ}
    {a : r.Answer} (h : Responds serve number r g a g') : g'.sources = g.sources := by
  cases r with
  | ledger call =>
      obtain ⟨t, -, rfl⟩ := h
      rfl
  | time =>
      obtain rfl : g' = _ := h
      rfl
  | bound ms =>
      obtain rfl : g' = _ := h
      rfl
  | alert alert =>
      obtain rfl : g' = _ := h
      rfl
  | letter payload =>
      obtain rfl : g' = _ := h
      rfl
  | acknowledge =>
      obtain rfl : g' = _ := h
      rfl
  | count metric =>
      obtain rfl : g' = _ := h
      rfl

namespace Run

/-- Runs something in a world: its result, or why it ended early, and the world after it. -/
def exec (x : Run σ α) (w : World σ) : Except Halt α × World σ := x.run.run w

theorem exec_bind (x : Run σ α) (f : α → Run σ β) (w : World σ) :
    exec (x >>= f) w =
      match exec x w with
      | (.ok a, w') => exec (f a) w'
      | (.error halt, w') => (.error halt, w') := by
  change (StateT.bind x.run (ExceptT.bindCont f)) w = _
  rw [exec, StateT.run]
  unfold StateT.bind
  rcases x.run w with ⟨result | a, w'⟩ <;> rfl

/-- What holds after something has run in a world: `post` of its result and the world then, or, where it
has ended early, `halted` of why it has and of the world then. -/
def Ends (x : Run σ α) (w : World σ) (post : α → World σ → Prop) (halted : Halt → World σ → Prop) : Prop :=
  match exec x w with
  | (.ok a, w') => post a w'
  | (.error halt, w') => halted halt w'

/-- What holds where a run ends early only because its world does. -/
def atHorizon (halted : World σ → Prop) (halt : Halt) (w : World σ) : Prop := halt = .horizon ∧ halted w

theorem Ends.of_exec {x : Run σ α} {w w' : World σ} {a : α} {post : α → World σ → Prop}
    {halted : Halt → World σ → Prop} (hexec : exec x w = (.ok a, w')) (hpost : post a w') :
    Ends x w post halted := by
  rw [Ends, hexec]
  exact hpost

theorem Ends.ok {x : Run σ α} {w w' : World σ} {a : α} {post : α → World σ → Prop}
    {halted : Halt → World σ → Prop} (h : Ends x w post halted) (hexec : exec x w = (.ok a, w')) :
    post a w' := by
  rwa [Ends, hexec] at h

theorem Ends.error {x : Run σ α} {w w' : World σ} {halt : Halt} {post : α → World σ → Prop}
    {halted : Halt → World σ → Prop} (h : Ends x w post halted) (hexec : exec x w = (.error halt, w')) :
    halted halt w' := by
  rwa [Ends, hexec] at h

theorem Ends.mono {x : Run σ α} {w : World σ} {post post' : α → World σ → Prop}
    {halted halted' : Halt → World σ → Prop} (h : Ends x w post halted)
    (hpost : ∀ a w', post a w' → post' a w') (hhalted : ∀ halt w', halted halt w' → halted' halt w') :
    Ends x w post' halted' := by
  rcases hexec : exec x w with ⟨halt | a, w'⟩
  · rw [Ends, hexec]
    exact hhalted halt w' (h.error hexec)
  · exact Ends.of_exec hexec (hpost a w' (h.ok hexec))

theorem Ends.and {x : Run σ α} {post post' : α → World σ → Prop} {halted halted' : Halt → World σ → Prop}
    (h : Ends x w post halted) (h' : Ends x w post' halted') :
    Ends x w (fun a w' => post a w' ∧ post' a w') fun halt w' => halted halt w' ∧ halted' halt w' := by
  rcases hexec : exec x w with ⟨halt | a, w'⟩
  · rw [Ends, hexec]
    exact ⟨h.error hexec, h'.error hexec⟩
  · exact .of_exec hexec ⟨h.ok hexec, h'.ok hexec⟩

theorem Ends.bind {x : Run σ α} {f : α → Run σ β} {w : World σ} {mid : α → World σ → Prop}
    {post : β → World σ → Prop} {halted : Halt → World σ → Prop} (hx : Ends x w mid halted)
    (hf : ∀ a w', mid a w' → Ends (f a) w' post halted) : Ends (x >>= f) w post halted := by
  rcases hexec : exec x w with ⟨halt | a, w'⟩
  · rw [Ends, exec_bind, hexec]
    exact hx.error hexec
  · rw [Ends, exec_bind, hexec]
    exact hf a w' (hx.ok hexec)

theorem ends_pure {a : α} {w : World σ} {post : α → World σ → Prop} {halted : Halt → World σ → Prop}
    (h : post a w) : Ends (pure a) w post halted := h

theorem ends_get_bind {f : World σ → Run σ α} {w : World σ} {post : α → World σ → Prop}
    {halted : Halt → World σ → Prop} (h : Ends (f w) w post halted) : Ends (get >>= f) w post halted := h

theorem ends_modify {f : World σ → World σ} {w : World σ} {post : PUnit → World σ → Prop}
    {halted : Halt → World σ → Prop} (h : post ⟨⟩ (f w)) : Ends (modify f) w post halted := h

end Run

/-! ### Waiting -/

namespace World

variable {w : World σ} {time : Nat} {what : Happening}

theorem standing_note (hdeed : what.isDeed = true) : (w.note time what).standing = w.standing.doing what := by
  simp [standing, note, Standing.doing, History.deeds, hdeed]

theorem standing_takeAlert : w.takeAlert.standing = w.standing := by
  unfold takeAlert
  split <;> rfl

theorem standing_takeLetter : w.takeLetter.standing = w.standing := by
  unfold takeLetter
  split <;> rfl

theorem standing_publish : (w.publish time).standing = w.standing := by
  unfold publish
  dsimp only
  split
  · rw [standing_takeAlert, standing_takeLetter]
  · split
    · rw [standing_takeLetter, standing_takeAlert]
    · split
      · exact standing_takeAlert
      · split
        · exact standing_takeLetter
        · rfl

theorem standing_moveTo : (w.moveTo time).standing = w.standing := by
  change (w.publish time).standing = w.standing
  exact standing_publish

end World

namespace Run

variable {s : Setup σ} {w : World σ}

/-- Waiting leaves the standing as it is, and comes to the end of the world only if the world has one. -/
theorem waitUntil_ends (time : Nat) :
    Ends (waitUntil s time) w (fun _ w' => w'.standing = w.standing)
      (atHorizon fun w' => w'.standing = w.standing ∧ s.horizon.isSome) := by
  unfold waitUntil
  cases hhorizon : s.horizon with
  | none => exact ends_modify World.standing_moveTo
  | some last =>
      dsimp only
      split
      · exact ⟨rfl, World.standing_moveTo, rfl⟩
      · exact ends_modify World.standing_moveTo

theorem wait_ends (delay : Option Nat) :
    Ends (wait s delay) w (fun _ w' => w'.standing = w.standing)
      (atHorizon fun w' => w'.standing = w.standing ∧ (s.horizon.isSome ∨ delay = none)) := by
  unfold wait
  split
  · exact ends_pure rfl
  · exact (waitUntil_ends _).mono (fun _ _ h => h) fun _ _ h => ⟨h.1, h.2.1, .inl h.2.2⟩
  · cases s.horizon with
    | none => exact ⟨rfl, rfl, .inr rfl⟩
    | some last => exact ⟨rfl, World.standing_moveTo, .inl rfl⟩

theorem waitWithin_ends (delay : Option Nat) :
    Ends (waitWithin s delay) w (fun _ w' => w'.standing = w.standing)
      (atHorizon fun w' => w'.standing = w.standing ∧ s.horizon.isSome) := by
  change Ends (if delay.any (w.clock + · ≤ w.deadline) then _ else _) w _ _
  split
  · rename_i hany
    refine ((wait_ends delay).mono (fun _ _ h => h) fun _ _ h => ⟨h.1, h.2.1, ?_⟩).bind
      fun _ _ h => ends_pure h
    rcases h.2.2 with hhorizon | hnone
    · exact hhorizon
    · rw [hnone] at hany
      cases hany
  · by_cases hearly : w.clock < w.deadline
    · rw [if_pos hearly]
      exact (waitUntil_ends _).bind fun _ _ h => ends_pure h
    · rw [if_neg hearly]
      exact ends_pure rfl

/-! ### Requests -/

theorem note_ends {what : Happening} {halted : Halt → World σ → Prop} (hdeed : what.isDeed = true) :
    Ends (note what) w (fun _ w' => w'.standing = w.standing.doing what) halted :=
  ends_modify (World.standing_note hdeed)

theorem modify_ends {f : World σ → World σ} {halted : Halt → World σ → Prop}
    (h : (f w).standing = w.standing) :
    Ends (modify f) w (fun _ w' => w'.standing = w.standing) halted :=
  ends_modify h

theorem nextFault_ends (seam : Seam) {halted : Halt → World σ → Prop} :
    Ends (nextFault seam) w (fun _ w' => w'.standing = w.standing) halted := rfl

theorem serve_ends (call : Ledger.Call) {halted : Halt → World σ → Prop} :
    Ends (serve s call) w
      (fun answer w' => answer = (s.serve call w.ledger).1 ∧
        w'.standing = { w.standing with ledger := (s.serve call w.ledger).2 }) halted := ⟨rfl, rfl⟩

/-- A call on the ledger is treated in some way, also where the world comes to its end during the call. -/
theorem callLedger_ends (call : Ledger.Call) :
    Ends (callLedger s call) w
      (fun answer w' => ∃ t : Treatment, answer = t.answer s.serve call w.ledger ∧
        w'.standing = { w.standing.doing (.called call) with ledger := t.ledger s.serve call w.ledger })
      (atHorizon fun w' => (∃ t : Treatment,
        w'.standing = { w.standing.doing (.called call) with ledger := t.ledger s.serve call w.ledger }) ∧
          s.horizon.isSome) := by
  unfold callLedger
  apply (note_ends (rfl : (Happening.called call).isDeed = true)).bind
  intro _ w₁ h₁
  apply (nextFault_ends _).bind
  intro fault w₂ h₂
  have hbegun : w₂.standing = w.standing.doing (.called call) := h₂.trans h₁
  have hledger : w₂.ledger = w.ledger := congrArg Standing.ledger hbegun
  dsimp only
  split
  · -- the work comes first, so it is done whether or not the wait is within the bound
    apply (serve_ends call).bind
    intro answer w₃ h₃
    obtain ⟨hanswer, hserved⟩ := h₃
    rw [hbegun, hledger] at hserved
    rw [hledger] at hanswer
    refine ((waitWithin_ends fault.delay).mono (fun _ _ h => h.trans hserved)
      fun _ _ h => ⟨h.1, ⟨.overdue, h.2.1.trans hserved⟩, h.2.2⟩).bind fun inTime w' h => ?_
    cases inTime with
    | false => exact ends_pure ⟨.overdue, rfl, h⟩
    | true =>
        cases fault.failure with
        | none => exact ends_pure ⟨.served, congrArg some hanswer, h⟩
        | some text => exact ends_pure ⟨.spoiled (.storage (.other text)), rfl, h⟩
  · refine ((waitWithin_ends fault.delay).mono (fun _ _ h => h.trans hbegun)
      fun _ _ h => ⟨h.1, ⟨.dropped, h.2.1.trans hbegun⟩, h.2.2⟩).bind fun inTime w₃ h₃ => ?_
    cases inTime with
    | false => exact ends_pure ⟨.dropped, rfl, h₃⟩
    | true =>
        cases fault.failure with
        | some text => exact ends_pure ⟨.refused (.storage (.other text)), rfl, h₃⟩
        | none =>
            apply (serve_ends call).bind
            intro answer w' h
            have hledger' : w₃.ledger = w.ledger := congrArg Standing.ledger h₃
            rw [h₃, hledger'] at h
            exact ends_pure ⟨.served, congrArg some h.1, h.2⟩

/-- A producer that waits for room in a queue goes on where it stood. -/
theorem waitForRoom_ends {time : Option Nat} {next : Unit → Run σ α} {post : α → World σ → Prop} :
    (∀ w', w'.standing = w.standing →
      Ends (next ()) w' post (atHorizon fun w'' => w''.standing = w.standing ∧ s.horizon.isSome)) →
    Ends (match time with
      | some time => do next (← waitUntil s time)
      | none => next ()) w post (atHorizon fun w' => w'.standing = w.standing ∧ s.horizon.isSome) := by
  intro hnext
  cases time with
  | none => exact hnext w rfl
  | some time => exact (waitUntil_ends time).bind fun _ w' h => hnext w' h

theorem offerAlert_ends (a : Alert) :
    Ends (offerAlert s a) w
      (fun outcome w' => w'.standing = w.standing.doing (.offered (.alert a) (rejection? outcome)))
      (atHorizon fun w' => w'.standing = w.standing ∧ s.horizon.isSome) := by
  unfold offerAlert
  refine ends_get_bind ?_
  rcases (w.alerts.room w.clock).handoff w.clock s.handoff with ⟨outcome, time⟩
  dsimp only
  apply waitForRoom_ends
  intro w₁ h₁
  cases outcome with
  | ok accepted =>
      apply (modify_ends rfl).bind
      intro _ w₂ h₂
      refine (note_ends rfl).bind fun _ w' h => ends_pure ?_
      rw [h, h₂, h₁]
      rfl
  | error rejection =>
      refine (note_ends rfl).bind fun _ w' h => ends_pure ?_
      rw [h, h₁]
      rfl

theorem offerLetter_ends (payload : Text.Bytes) :
    Ends (offerLetter s payload) w
      (fun outcome w' => w'.standing = w.standing.doing (.offered (.letter payload) (rejection? outcome)))
      (atHorizon fun w' => w'.standing = w.standing ∧ s.horizon.isSome) := by
  unfold offerLetter
  refine ends_get_bind ?_
  rcases (w.letters.room w.clock).handoff w.clock s.handoff with ⟨outcome, time⟩
  dsimp only
  apply waitForRoom_ends
  intro w₁ h₁
  cases outcome with
  | ok accepted =>
      apply (modify_ends rfl).bind
      intro _ w₂ h₂
      refine (note_ends rfl).bind fun _ w' h => ends_pure ?_
      rw [h, h₂, h₁]
      rfl
  | error rejection =>
      refine (note_ends rfl).bind fun _ w' h => ends_pure ?_
      rw [h, h₁]
      rfl

/-- An acknowledgement is made once, however it goes, and it is waited for without end if it never goes. -/
theorem acknowledge_ends (m : Message) :
    Ends (acknowledge s m) w (fun _ w' => w'.standing = w.standing.doing (.acknowledged m.number))
      (atHorizon fun w' => w'.standing = w.standing.doing (.acknowledged m.number) ∧
        (s.horizon.isSome ∨ m.acknowledging.delay = none)) := by
  unfold acknowledge
  apply (note_ends rfl).bind
  intro _ w' h
  refine ((wait_ends m.acknowledging.delay).mono (fun _ _ hw => hw.trans h)
    fun _ _ hw => ⟨hw.1, hw.2.1.trans h, hw.2.2⟩).bind ?_
  intro _ w'' h''
  split
  · exact ends_pure h''
  · exact ends_pure h''

/-- A world answers a request as its surroundings say. It comes to its end, after the request or before it,
only if it has an end or an acknowledgement never goes. -/
theorem answer_ends (m : Message) (r : Request) :
    Ends (answer s m r) w (fun a w' => Responds s.serve m.number r w.standing a w'.standing)
      (atHorizon fun w' => (w'.standing = w.standing ∨
          ∃ a, Responds s.serve m.number r w.standing a w'.standing) ∧
        (s.horizon.isSome ∨ m.acknowledging.delay = none)) := by
  cases r with
  | time => exact ends_get_bind (ends_pure rfl)
  | bound ms => exact ends_modify rfl
  | ledger call =>
      refine (callLedger_ends call).mono (fun _ _ h => h) ?_
      rintro halt w' ⟨hhalt, ⟨t, ht⟩, hhorizon⟩
      exact ⟨hhalt, .inr ⟨t.answer s.serve call w.ledger, t, rfl, ht⟩, .inl hhorizon⟩
  | alert a => exact (offerAlert_ends a).mono (fun _ _ h => h) fun _ _ h => ⟨h.1, .inl h.2.1, .inl h.2.2⟩
  | letter payload =>
      exact (offerLetter_ends payload).mono (fun _ _ h => h) fun _ _ h => ⟨h.1, .inl h.2.1, .inl h.2.2⟩
  | acknowledge =>
      exact (acknowledge_ends m).mono (fun _ _ h => h) fun _ _ h => ⟨h.1, .inr ⟨.ok (), h.2.1⟩, h.2.2⟩
  | count metric => exact ends_modify rfl

/-! ### Programs in a world -/

/-- Why a run of a program may end early: an overflow that its contract allows, or the end of the world. -/
def programHalted (s : Setup σ) (m : Message) (overflows : Standing σ → Prop) :
    Halt → World σ → Prop
  | .overflow, w => overflows w.standing
  | .horizon, _ => s.horizon.isSome ∨ m.acknowledging.delay = none

/-- A program that meets a contract in the surroundings of a world meets it in the world. -/
theorem program_ends {m : Message} {p : Program α} {c : Contract (Standing σ) α}
    (hp : p.Meets (Responds s.serve m.number) c w.standing) :
    Ends (program s m p) w (fun a w' => c.ends a w'.standing) (programHalted s m c.overflows) := by
  induction p generalizing w with
  | done a => exact hp
  | overflow => exact hp
  | ask r next ih =>
      refine Ends.bind ((answer_ends m r).mono (fun _ _ h => h) ?_)
        fun a w' hanswer => ih a (hp.2 a _ hanswer)
      rintro halt w' ⟨rfl, -, hhorizon⟩
      exact hhorizon

end Run

end UsageLedger.Delivery
