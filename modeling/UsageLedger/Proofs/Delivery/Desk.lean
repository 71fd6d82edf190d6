import UsageLedger.Proofs.Delivery.Passage

/-! The ledger's side of a world. What a call on the ledger is answered with and what it does depends on the
ledger, on what is left of the scripts of its seams and on the time left within the bound, and on nothing
else: a desk is these three, and a call on it is a function. Publishers, side channels and acknowledgements
take nothing away from a desk but time. -/

namespace UsageLedger.Delivery

open Ledger Program

variable {σ α β γ : Type}

/-- The ledger, what is left of the script that each call uses up, and the time left within the bound, below
zero once the bound is over. -/
@[ext] structure Desk (σ : Type) where
  ledger : σ
  script : Call → List Fault
  left : Int

namespace Desk

/-- Whether an answer that takes so long comes within the bound. -/
def inTime (d : Desk σ) (delay : Option Nat) : Bool := delay.any fun time => (time : Int) ≤ d.left

/-- The desk once an answer has been waited for, beyond the bound by nobody. -/
def waited (d : Desk σ) (delay : Option Nat) : Desk σ :=
  { d with left := if d.inTime delay then d.left - delay.getD 0 else min d.left 0 }

/-- The fault of a call, and the desk with that fault used up. -/
def begin (d : Desk σ) (call : Call) : Fault × Desk σ :=
  ((d.script call).headD Fault.none,
    { d with script := fun other =>
        if Seam.ofCall other = Seam.ofCall call then (d.script other).tail else d.script other })

/-- What a call on a desk is answered with, and the desk after it. A call does its work unless it is to come
after a wait that goes beyond the bound or ends in a failure. -/
def call (serve : Service σ) (call : Call) (d : Desk σ) : Option (Except Error call.Reply) × Desk σ :=
  let (fault, begun) := d.begin call
  let failed := fault.failure.map fun text => Error.storage (.other text)
  let timely := d.inTime fault.delay
  let works := fault.workFirst || (timely && failed.isNone)
  (if timely then some (failed.elim (serve call d.ledger).1 .error) else none,
    { begun.waited fault.delay with ledger := if works then (serve call d.ledger).2 else d.ledger })

/-- Whether one desk differs from another at most in the time left. -/
def SameBut (d d' : Desk σ) : Prop := d'.ledger = d.ledger ∧ d'.script = d.script

/-- A desk as the surroundings of a program. -/
def Around (serve : Service σ) : Surroundings (Desk σ)
  | .time, d, _, d' => d' = d
  | .bound ms, d, _, d' => d' = { d with left := ms }
  | .ledger c, d, answer, d' => (answer, d') = d.call serve c
  | .alert _, d, _, d' => d.SameBut d'
  | .letter _, d, _, d' => d.SameBut d'
  | .acknowledge, d, _, d' => d.SameBut d'
  | .count _, d, _, d' => d' = d

end Desk

namespace World

variable {w w' : World σ} {c : Channel} {time : Nat}

def desk (w : World σ) : Desk σ :=
  ⟨w.ledger, fun call => w.faults.script (.ofCall call), w.deadline - w.clock⟩

/-- Publishers use up no fault of a call on the ledger. -/
theorem script_take (w : World σ) (c : Channel) (call : Call) :
    (w.take c).faults.script (.ofCall call) = w.faults.script (.ofCall call) := by
  rcases w.take_cases c with hsame | ⟨notice, subject, freeAt, htaken⟩
  · rw [hsame]
  · have hseam : Seam.ofCall call ≠ .publish subject := by cases call <;> exact nofun
    rw [htaken.faults, Faults.script_afterCall, if_neg hseam]

theorem script_moveTo (w : World σ) (time : Nat) (call : Call) :
    (w.moveTo time).faults.script (.ofCall call) = w.faults.script (.ofCall call) := by
  obtain ⟨order, horder, -⟩ := w.publish_eq time
  change (w.publish time).faults.script _ = _
  rw [horder]
  clear horder
  induction order generalizing w with
  | nil => rfl
  | cons c rest ih => exact (ih (w.take c)).trans (w.script_take c call)

theorem deadline_moveTo (w : World σ) (time : Nat) : (w.moveTo time).deadline = w.deadline := by
  have htake : ∀ (w : World σ) c, (w.take c).deadline = w.deadline := by
    intro w c
    cases c with
    | alerts =>
        change w.takeAlert.deadline = w.deadline
        unfold takeAlert
        split <;> rfl
    | letters =>
        change w.takeLetter.deadline = w.deadline
        unfold takeLetter
        split <;> rfl
  obtain ⟨order, horder, -⟩ := w.publish_eq time
  change (w.publish time).deadline = _
  rw [horder]
  clear horder
  induction order generalizing w with
  | nil => rfl
  | cons c rest ih => exact (ih (w.take c)).trans (htake w c)

/-- Time that passes is taken from what is left, and from nothing else. -/
theorem desk_moveTo (w : World σ) (time : Nat) :
    (w.moveTo time).desk = { w.desk with left := w.deadline - time } := by
  have hledger : (w.moveTo time).ledger = w.ledger := congrArg Standing.ledger standing_moveTo
  rw [desk, hledger, deadline_moveTo]
  simp only [script_moveTo]
  rfl

end World

namespace Run

variable {s : Setup σ} {w : World σ}

/-- What is known of where something comes to a result, wherever else it may end. -/
theorem ends_of_ok {x : Run σ α} {post : α → World σ → Prop}
    (h : ∀ a w', exec x w = (.ok a, w') → post a w') : Ends x w post fun _ _ => True := by
  rcases hexec : exec x w with ⟨halt | a, w'⟩
  · rw [Ends, hexec]
    trivial
  · exact .of_exec hexec (h a w' hexec)

theorem waitUntil_desk (time : Nat) :
    Ends (waitUntil s time) w (fun _ w' => w'.desk = { w.desk with left := w.deadline - time })
      fun _ _ => True :=
  ends_of_ok fun _ _ hexec => exec_waitUntil_ok hexec ▸ w.desk_moveTo time

theorem wait_desk (delay : Option Nat) :
    Ends (wait s delay) w (fun _ w' => w'.desk = { w.desk with left := w.desk.left - delay.getD 0 })
      fun _ _ => True := by
  unfold wait
  split
  · exact ends_pure (by simp)
  · rename_i delay _
    refine ends_get_bind ((waitUntil_desk _).mono (fun _ _ h => h.trans ?_) fun _ _ h => h)
    refine Desk.ext rfl rfl ?_
    simp only [World.desk, Option.getD_some]
    omega
  · cases s.horizon <;> exact trivial

theorem waitWithin_desk (delay : Option Nat) :
    Ends (waitWithin s delay) w (fun timely w' => timely = w.desk.inTime delay ∧ w'.desk = w.desk.waited delay)
      fun _ _ => True := by
  have htimely : delay.any (w.clock + · ≤ w.deadline) = w.desk.inTime delay := by
    cases delay with
    | none => rfl
    | some time =>
        simp only [Desk.inTime, World.desk, Option.any_some]
        congr 1
        apply propext
        omega
  change Ends (if delay.any (w.clock + · ≤ w.deadline) then _ else _) w _ _
  rw [htimely]
  by_cases hinTime : w.desk.inTime delay = true
  · rw [if_pos hinTime]
    refine (wait_desk delay).bind fun _ w' h => ends_pure ⟨hinTime.symm, ?_⟩
    rw [Desk.waited, if_pos hinTime, h]
  · rw [if_neg hinTime]
    by_cases hearly : w.clock < w.deadline
    · rw [if_pos hearly]
      refine (waitUntil_desk _).bind fun _ w' h => ends_pure ⟨by simpa using hinTime, ?_⟩
      rw [Desk.waited, if_neg hinTime, h]
      refine Desk.ext rfl rfl ?_
      simp only [World.desk]
      omega
    · rw [if_neg hearly]
      refine ends_pure ⟨by simpa using hinTime, ?_⟩
      rw [Desk.waited, if_neg hinTime]
      refine Desk.ext rfl rfl ?_
      simp only [World.desk]
      omega

theorem serve_desk (call : Call) :
    Ends (serve s call) w
      (fun answer w' => answer = (s.serve call w.ledger).1 ∧
        w'.desk = { w.desk with ledger := (s.serve call w.ledger).2 }) fun _ _ => True := ⟨rfl, rfl⟩

theorem callLedger_desk (call : Call) :
    Ends (callLedger s call) w (fun answer w' => (answer, w'.desk) = w.desk.call s.serve call)
      fun _ _ => True := by
  unfold callLedger
  refine Ends.bind (ends_modify rfl : Ends (note (.called call)) w (fun _ w₁ => w₁.desk = w.desk) _)
    fun _ w₁ h₁ => ?_
  have hbegun : Ends (nextFault (.ofCall call)) w₁
      (fun fault w₂ => (fault, w₂.desk) = w.desk.begin call) fun _ _ => True := by
    rw [← h₁]
    refine .of_exec rfl ?_
    simp only [Desk.begin, World.desk, Faults.script_afterCall]
    congr 2
    funext other
    split
    · rename_i hseam
      rw [hseam]
    · rfl
  refine hbegun.bind fun fault w₂ h₂ => ?_
  have hdesk : w₂.desk = (w.desk.begin call).2 := (Prod.mk.inj h₂).2
  have hledger : w₂.ledger = w.ledger := congrArg Desk.ledger hdesk
  have hinTime : ∀ delay, w.desk.inTime delay = w₂.desk.inTime delay := fun _ => by rw [hdesk]; rfl
  rw [Desk.call, ← h₂]
  dsimp only
  rw [hinTime, show w.desk.ledger = w₂.ledger from hledger.symm]
  split
  · -- the work comes first, and the wait decides on the answer only
    rename_i hfirst
    refine (serve_desk call).bind ?_
    rintro answer w₃ ⟨rfl, h₃⟩
    refine (waitWithin_desk fault.delay).bind ?_
    rintro timely w' ⟨htimely, h'⟩
    have hsame : w₃.desk.inTime fault.delay = w₂.desk.inTime fault.delay := by rw [h₃]; rfl
    rw [hsame] at htimely
    have hafter : w'.desk = { w₂.desk.waited fault.delay with ledger := (s.serve call w₂.ledger).2 } := by
      rw [h', h₃]
      rfl
    rw [← htimely, hfirst]
    cases timely with
    | false => exact ends_pure (by simp [hafter])
    | true => cases fault.failure <;> exact ends_pure (by simp [hafter])
  · rename_i hlast
    refine (waitWithin_desk fault.delay).bind ?_
    rintro timely w₃ ⟨htimely, h₃⟩
    have hkept : w₃.ledger = w₂.ledger := congrArg Desk.ledger h₃
    rw [← htimely, eq_false_of_ne_true hlast]
    cases timely with
    | false => exact ends_pure (by simp [h₃]; rfl)
    | true =>
        cases fault.failure with
        | some text => exact ends_pure (by simp [h₃]; rfl)
        | none =>
            refine (serve_desk call).bind ?_
            rintro answer w' ⟨rfl, h'⟩
            refine ends_pure ?_
            simp [h', h₃, hkept]

/-- A producer that waits for room in a queue takes nothing from the desk but time. -/
theorem waitForRoom_desk {time : Option Nat} {next : Unit → Run σ α} {post : α → World σ → Prop} :
    (∀ w', w.desk.SameBut w'.desk → Ends (next ()) w' post fun _ _ => True) →
    Ends (match time with
      | some time => do next (← waitUntil s time)
      | none => next ()) w post fun _ _ => True := by
  intro hnext
  cases time with
  | none => exact hnext w ⟨rfl, rfl⟩
  | some time =>
      refine (waitUntil_desk time).bind fun _ w' h => hnext w' ?_
      rw [h]
      exact ⟨rfl, rfl⟩

theorem offerAlert_desk (a : Alert) :
    Ends (offerAlert s a) w (fun _ w' => w.desk.SameBut w'.desk) fun _ _ => True := by
  unfold offerAlert
  refine ends_get_bind ?_
  rcases (w.alerts.room w.clock).handoff w.clock s.handoff with ⟨outcome, time⟩
  dsimp only
  apply waitForRoom_desk
  intro w' h
  cases outcome with
  | ok accepted => exact .of_exec rfl h
  | error rejection => exact .of_exec rfl h

theorem offerLetter_desk (payload : Text.Bytes) :
    Ends (offerLetter s payload) w (fun _ w' => w.desk.SameBut w'.desk) fun _ _ => True := by
  unfold offerLetter
  refine ends_get_bind ?_
  rcases (w.letters.room w.clock).handoff w.clock s.handoff with ⟨outcome, time⟩
  dsimp only
  apply waitForRoom_desk
  intro w' h
  cases outcome with
  | ok accepted => exact .of_exec rfl h
  | error rejection => exact .of_exec rfl h

/-- A world answers a request as its desk says. -/
theorem answer_desk (m : Message) (r : Request) :
    Ends (answer s m r) w (fun a w' => Desk.Around s.serve r w.desk a w'.desk) fun _ _ => True := by
  cases r with
  | time => exact ends_get_bind (ends_pure rfl)
  | bound ms =>
      refine ends_modify (Desk.ext rfl rfl ?_)
      simp only [World.desk]
      omega
  | ledger call => exact callLedger_desk call
  | alert a => exact offerAlert_desk a
  | letter payload => exact offerLetter_desk payload
  | acknowledge =>
      unfold answer acknowledge
      refine Ends.bind (ends_modify rfl : Ends (note (.acknowledged m.number)) w (fun _ w₁ => w₁.desk = w.desk) _)
        fun _ w₁ h₁ => (wait_desk _).bind fun _ w₂ h₂ => ?_
      have hsame : w.desk.SameBut w₂.desk := by
        rw [h₂, h₁]
        exact ⟨rfl, rfl⟩
      split
      · exact ends_pure hsame
      · exact ends_pure hsame
  | count metric => exact ends_modify rfl

/-! ### Programs in a world -/

/-- Why a run of a program may end early: an overflow, in a world that is known of, or the end of the world. -/
def halted (s : Setup σ) (m : Message) (overflows : World σ → Prop) : Halt → World σ → Prop
  | .overflow, w => overflows w
  | .horizon, _ => s.horizon.isSome ∨ m.acknowledging.delay = none

/-- A program that meets a contract in some surroundings meets it in a world of which a view is answered as in
these surroundings; and what all answers keep of the world is kept. -/
theorem program_keeps {m : Message} {p : Program α} {around : Surroundings γ} {c : Contract γ α}
    (view : World σ → γ) (kept : World σ → Prop)
    (hanswer : ∀ r w, kept w →
      Ends (answer s m r) w (fun a w' => around r (view w) a (view w') ∧ kept w') fun _ _ => True)
    (hw : kept w) (hp : p.Meets around c (view w)) :
    Ends (program s m p) w (fun a w' => c.ends a (view w') ∧ kept w')
      (halted s m fun w' => c.overflows (view w')) := by
  induction p generalizing w with
  | done a => exact ⟨hp, hw⟩
  | overflow => exact hp
  | ask r next ih =>
      refine Ends.bind ((Ends.and (hanswer r w hw) (answer_ends m r)).mono (fun _ _ h => h) ?_)
        fun a w' hanswered => ih a hanswered.1.2 (hp.2 a _ hanswered.1.1)
      rintro halt w' ⟨-, rfl, -, hends⟩
      exact hends

/-- A program that meets a contract on desks meets it in the world. -/
theorem program_desk {m : Message} {p : Program α} {c : Contract (Desk σ) α}
    (hp : p.Meets (Desk.Around s.serve) c w.desk) :
    Ends (program s m p) w (fun a w' => c.ends a w'.desk) (halted s m fun w' => c.overflows w'.desk) := by
  have hanswer : ∀ r (w : World σ), True →
      Ends (answer s m r) w (fun a w' => Desk.Around s.serve r w.desk a w'.desk ∧ True) fun _ _ => True :=
    fun r _ _ => (answer_desk m r).mono (fun _ _ h => ⟨h, trivial⟩) fun _ _ h => h
  exact (program_keeps World.desk (fun _ => True) hanswer trivial hp).mono (fun _ _ h => h.1) fun _ _ h => h

end Run

end UsageLedger.Delivery
