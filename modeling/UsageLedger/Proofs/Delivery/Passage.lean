import Mathlib.Logic.Relation
import UsageLedger.Delivery.Supervisor
import UsageLedger.Proofs.Delivery.Reports
import UsageLedger.Proofs.Delivery.Tally

/-! The steps in which a world passes from one state to another. Whatever a consumer does on a connection
moves the clock while publishers work, lets a side channel accept a notice for which it has room, enters
something into the history, uses up a fault or changes what no side channel knows of. An invariant of a
world is shown for these steps and holds all along a run, wherever the run ends. -/

namespace UsageLedger.Delivery

variable {σ α β : Type}

theorem Faults.next_mem (faults : Faults) (seam : Seam) :
    (faults.next seam).1 = Fault.none ∨ (faults.next seam).1 ∈ faults.script seam := by
  rw [next]
  cases faults.script seam with
  | nil => exact .inl rfl
  | cons fault rest => exact .inr List.mem_cons_self

/-! ### Side channels -/

namespace World

/-- A side channel as a queue of notices. -/
def side (w : World σ) : Channel → Queue Notice
  | .alerts => ⟨w.alerts.slot.map .alert, w.alerts.receiver⟩
  | .letters => ⟨w.letters.slot.map .letter, w.letters.receiver⟩

/-- Puts a notice into its side channel. -/
def put (w : World σ) : Notice → World σ
  | .alert a => { w with alerts := w.alerts.put a }
  | .letter payload => { w with letters := w.letters.put payload }

/-- Lets the publisher of a side channel take the waiting notice, if it ever does. -/
def take (w : World σ) : Channel → World σ
  | .alerts => w.takeAlert
  | .letters => w.takeLetter

end World

/-- The bytes that a notice is published as. -/
def Notice.payload : Notice → Text.Bytes
  | alert a => Text.encode a.print
  | letter payload => payload

/-- What is published from a side channel: a subject and a payload. -/
def Happening.published? (c : Channel) : Happening → Option (String × Text.Bytes)
  | published subject notice => if notice.channel = c then some (subject, notice.payload) else none
  | _ => none

/-- What was published from a side channel, the first first. -/
def World.published (w : World σ) (c : Channel) : List (String × Text.Bytes) :=
  w.history.reverse.filterMap fun entry => entry.2.published? c

namespace World

variable {w : World σ} {c : Channel}

theorem published_of_history {w' : World σ} {time : Nat} {what : Happening}
    (h : w'.history = (time, what) :: w.history) : w'.published c = w.published c ++ (what.published? c).toList := by
  rw [published, h, List.reverse_cons, List.filterMap_append, List.filterMap_cons, List.filterMap_nil]
  cases what.published? c <;> rfl

/-- What a publisher that is free at some time takes from a side channel: the notice that waits there. -/
structure Taken (w w' : World σ) (c : Channel) (notice : Notice) (subject : String) (freeAt : Nat) : Prop where
  waiting : w.side c = ⟨some notice, .publisher subject (some freeAt)⟩
  side : w'.side c = ⟨none, .publisher subject
    ((w.faults.next (.publish subject)).1.delay.map (max w.clock freeAt + ·))⟩
  others : ∀ c', c' ≠ c → w'.side c' = w.side c'
  faults : w'.faults = w.faults.afterCall (.publish subject)
  history : w'.history = (max w.clock freeAt, .published subject notice) :: w.history

theorem channel_of_waiting {notice : Notice} {receiver : Receiver} (h : w.side c = ⟨some notice, receiver⟩) :
    notice.channel = c := by
  cases c with
  | alerts =>
      obtain ⟨a, -, rfl⟩ := Option.map_eq_some_iff.1 (congrArg Queue.slot h)
      rfl
  | letters =>
      obtain ⟨payload, -, rfl⟩ := Option.map_eq_some_iff.1 (congrArg Queue.slot h)
      rfl

theorem clock_take : (w.take c).clock = w.clock := by
  cases c with
  | alerts =>
      change w.takeAlert.clock = w.clock
      unfold takeAlert
      split <;> rfl
  | letters =>
      change w.takeLetter.clock = w.clock
      unfold takeLetter
      split <;> rfl

theorem taken_of_takenAt? {time : Nat} (h : (w.side c).takenAt? w.clock = some time) :
    ∃ notice subject freeAt, time = max w.clock freeAt ∧ Taken w (w.take c) c notice subject freeAt := by
  cases c with
  | alerts =>
      rcases hqueue : w.alerts with ⟨_ | a, _ | _ | ⟨subject, _ | freeAt⟩⟩ <;>
        simp only [side, hqueue, Queue.takenAt?, Option.map_none, Option.map_some, reduceCtorEq,
          Option.some.injEq] at h
      refine ⟨.alert a, subject, freeAt, h.symm, by simp [side, hqueue], ?_, ?_, ?_, ?_⟩
      · simp [take, takeAlert, hqueue, side]
      · intro c' hc'
        cases c' with
        | alerts => exact (hc' rfl).elim
        | letters => simp [take, takeAlert, hqueue, side]
      · simp [take, takeAlert, hqueue, Faults.next]
      · simp [take, takeAlert, hqueue]
  | letters =>
      rcases hqueue : w.letters with ⟨_ | payload, _ | _ | ⟨subject, _ | freeAt⟩⟩ <;>
        simp only [side, hqueue, Queue.takenAt?, Option.map_none, Option.map_some, reduceCtorEq,
          Option.some.injEq] at h
      refine ⟨.letter payload, subject, freeAt, h.symm, by simp [side, hqueue], ?_, ?_, ?_, ?_⟩
      · simp [take, takeLetter, hqueue, side]
      · intro c' hc'
        cases c' with
        | alerts => simp [take, takeLetter, hqueue, side]
        | letters => exact (hc' rfl).elim
      · simp [take, takeLetter, hqueue, Faults.next]
      · simp [take, takeLetter, hqueue]

theorem take_of_not_takenAt? (h : (w.side c).takenAt? w.clock = none) : w.take c = w := by
  cases c with
  | alerts =>
      rcases hqueue : w.alerts with ⟨_ | a, _ | _ | ⟨subject, _ | freeAt⟩⟩ <;>
        simp_all [take, takeAlert, side, Queue.takenAt?]
  | letters =>
      rcases hqueue : w.letters with ⟨_ | payload, _ | _ | ⟨subject, _ | freeAt⟩⟩ <;>
        simp_all [take, takeLetter, side, Queue.takenAt?]

/-- A publisher takes what waits for it, or there is nothing to take. -/
theorem take_cases (w : World σ) (c : Channel) :
    w.take c = w ∨ ∃ notice subject freeAt, Taken w (w.take c) c notice subject freeAt := by
  cases h : (w.side c).takenAt? w.clock with
  | none => exact .inl (take_of_not_takenAt? h)
  | some time =>
      obtain ⟨notice, subject, freeAt, -, htaken⟩ := taken_of_takenAt? h
      exact .inr ⟨notice, subject, freeAt, htaken⟩

/-- What is taken from one side channel makes no difference to another. -/
theorem take_other {c' : Channel} (h : c' ≠ c) :
    (w.take c).side c' = w.side c' ∧ (w.take c).published c' = w.published c' := by
  rcases w.take_cases c with hsame | ⟨notice, subject, freeAt, htaken⟩
  · rw [hsame]
    exact ⟨rfl, rfl⟩
  · refine ⟨htaken.others c' h, ?_⟩
    have hchannel : notice.channel ≠ c' := channel_of_waiting htaken.waiting ▸ h.symm
    rw [published_of_history htaken.history, Happening.published?, if_neg hchannel]
    exact List.append_nil _

theorem script_take_suffix (w : World σ) (c : Channel) (seam : Seam) :
    (w.take c).faults.script seam <:+ w.faults.script seam := by
  rcases w.take_cases c with hsame | ⟨notice, subject, freeAt, htaken⟩
  · rw [hsame]
  · rw [htaken.faults, Faults.script_afterCall]
    split
    · rename_i h
      rw [h]
      exact List.tail_suffix _
    · exact List.suffix_refl _

/-- The publishers work up to a time, one after the other, and those have something to take that is due by then. -/
theorem publish_eq (w : World σ) (time : Nat) : ∃ order : List Channel, w.publish time = order.foldl take w ∧
    order.Nodup ∧ ∀ c, c ∈ order ↔ isDue ((w.side c).takenAt? w.clock) time = true := by
  have halerts : (w.side .alerts).takenAt? w.clock = w.alerts.takenAt? w.clock := by
    rcases hqueue : w.alerts with ⟨_ | a, _ | _ | ⟨subject, _ | freeAt⟩⟩ <;> simp [side, hqueue, Queue.takenAt?]
  have hletters : (w.side .letters).takenAt? w.clock = w.letters.takenAt? w.clock := by
    rcases hqueue : w.letters with ⟨_ | a, _ | _ | ⟨subject, _ | freeAt⟩⟩ <;> simp [side, hqueue, Queue.takenAt?]
  have hcases : ∀ p : Channel → Prop, (∀ c, p c) ↔ p .alerts ∧ p .letters := fun p =>
    ⟨fun h => ⟨h .alerts, h .letters⟩, fun h c => by cases c with | alerts => exact h.1 | letters => exact h.2⟩
  simp only [hcases, halerts, hletters]
  rw [publish]
  generalize w.alerts.takenAt? w.clock = alert
  generalize w.letters.takenAt? w.clock = letter
  cases isDue alert time with
  | false =>
      cases isDue letter time with
      | false => exact ⟨[], by simp, by simp⟩
      | true => exact ⟨[.letters], by simp [take], by simp⟩
  | true =>
      cases isDue letter time with
      | false => exact ⟨[.alerts], by simp [take], by simp⟩
      | true =>
          by_cases hfirst : letter.getD 0 < alert.getD 0
          · exact ⟨[.letters, .alerts], by simp [hfirst, take], by simp⟩
          · exact ⟨[.alerts, .letters], by simp [hfirst, take], by simp⟩

/-- What some publishers take makes no difference to a channel that is not theirs. -/
theorem foldl_take_of_not_mem {order : List Channel} (h : c ∉ order) (w : World σ) :
    (order.foldl take w).side c = w.side c ∧ (order.foldl take w).published c = w.published c := by
  induction order generalizing w with
  | nil => exact ⟨rfl, rfl⟩
  | cons c' rest ih =>
      obtain ⟨hne, hrest⟩ : c ≠ c' ∧ c ∉ rest := by simpa using h
      obtain ⟨hside, hpublished⟩ := ih hrest (w.take c')
      obtain ⟨hside', hpublished'⟩ := take_other (w := w) hne
      exact ⟨hside.trans hside', hpublished.trans hpublished'⟩

theorem clock_foldl_take (order : List Channel) (w : World σ) : (order.foldl take w).clock = w.clock := by
  induction order generalizing w with
  | nil => rfl
  | cons c rest ih => exact (ih (w.take c)).trans clock_take

theorem script_foldl_take_suffix (order : List Channel) (w : World σ) (seam : Seam) :
    (order.foldl take w).faults.script seam <:+ w.faults.script seam := by
  induction order generalizing w with
  | nil => exact List.suffix_refl _
  | cons c rest ih => exact (ih (w.take c)).trans (w.script_take_suffix c seam)

theorem script_moveTo_suffix (w : World σ) (time : Nat) (seam : Seam) :
    (w.moveTo time).faults.script seam <:+ w.faults.script seam := by
  obtain ⟨order, horder, -⟩ := w.publish_eq time
  change (w.publish time).faults.script seam <:+ _
  rw [horder]
  exact script_foldl_take_suffix order w seam

/-- What is not due by a time stays where it is. -/
theorem moveTo_of_not_due {time : Nat} (h : isDue ((w.side c).takenAt? w.clock) time = false) :
    (w.moveTo time).side c = w.side c ∧ (w.moveTo time).published c = w.published c := by
  obtain ⟨order, horder, -, hdue⟩ := w.publish_eq time
  have hnot : c ∉ order := by
    rw [hdue, h]
    exact Bool.false_ne_true
  change (w.publish time).side c = _ ∧ (w.publish time).published c = _
  rw [horder]
  exact foldl_take_of_not_mem hnot w

/-- What is due by a time is published when its publisher is free, and takes a time of its own. -/
theorem moveTo_of_due {time : Nat} (h : isDue ((w.side c).takenAt? w.clock) time = true) :
    ∃ notice subject freeAt, w.side c = ⟨some notice, .publisher subject (some freeAt)⟩ ∧
      max w.clock freeAt ≤ time ∧ (w.moveTo time).published c = w.published c ++ [(subject, notice.payload)] ∧
      ∃ fault : Fault, (fault = Fault.none ∨ fault ∈ w.faults.script (.publish subject)) ∧
        (w.moveTo time).side c = ⟨none, .publisher subject (fault.delay.map (max w.clock freeAt + ·))⟩ := by
  obtain ⟨order, horder, hnodup, hdue⟩ := w.publish_eq time
  obtain ⟨before, after, rfl⟩ := List.append_of_mem ((hdue c).2 h)
  have hbefore : c ∉ before := fun hmem =>
    (List.nodup_append.1 hnodup).2.2 c hmem c List.mem_cons_self rfl
  have hafter : c ∉ after := (List.nodup_cons.1 (List.nodup_append.1 hnodup).2.1).1
  obtain ⟨hside₁, hpublished₁⟩ := foldl_take_of_not_mem hbefore w
  have hclock₁ := clock_foldl_take before w
  obtain ⟨taken, htaken, hby⟩ : ∃ taken, (w.side c).takenAt? w.clock = some taken ∧ taken ≤ time := by
    simpa [isDue, Option.any_eq_true] using h
  rw [← hside₁, ← hclock₁] at htaken
  obtain ⟨notice, subject, freeAt, rfl, htakes⟩ := taken_of_takenAt? htaken
  obtain ⟨hside₂, hpublished₂⟩ := foldl_take_of_not_mem hafter ((before.foldl take w).take c)
  have hchannel := channel_of_waiting htakes.waiting
  rw [List.foldl_append, List.foldl_cons] at horder
  refine ⟨notice, subject, freeAt, hside₁ ▸ htakes.waiting, hclock₁ ▸ hby, ?_,
    ((before.foldl take w).faults.next (.publish subject)).1, ?_, ?_⟩
  · change (w.publish time).published c = _
    rw [horder, hpublished₂, published_of_history htakes.history, hpublished₁, Happening.published?,
      if_pos hchannel]
    rfl
  · rcases (before.foldl take w).faults.next_mem (.publish subject) with hnone | hmem
    · exact .inl hnone
    · exact .inr ((script_foldl_take_suffix before w _).subset hmem)
  · change (w.publish time).side c = _
    rw [horder, hside₂, htakes.side, hclock₁]

/-! ### Steps -/

/-- What can happen to a world in one step while its side channels are open. The clock does not go back and
not beyond the end of the world; a notice is accepted where no other one waits. -/
inductive Step (s : Setup σ) (w : World σ) : World σ → Prop
  | moved (time : Nat) (hforward : w.clock ≤ time) (hend : ∀ last, s.horizon = some last → time ≤ last) :
      Step s w (w.moveTo time)
  | accepted (notice : Notice) (hroom : (w.side notice.channel).slot = none) :
      Step s w ((w.put notice).note w.clock (.offered notice none))
  | noted (what : Happening) (hdeed : what.isDeed = true) (hrefused : what.accepted? = none) :
      Step s w (w.note w.clock what)
  | faulted (seam : Seam) : Step s w { w with faults := w.faults.afterCall seam }
  | changed (deadline : Nat) (ledger : σ) (metrics : Metrics) (sources : List Source) :
      Step s w { w with deadline := deadline, ledger := ledger, metrics := metrics, sources := sources }

/-- What can happen to a world in any number of steps. -/
def Steps (s : Setup σ) : World σ → World σ → Prop := Relation.ReflTransGen (Step s)

/-- Whether a world has not come to its end yet. -/
def Lasts (s : Setup σ) (w : World σ) : Prop := ∀ last, s.horizon = some last → w.clock ≤ last

variable {s : Setup σ} {w w' : World σ}

/-- What every step keeps holds after any number of them. -/
theorem Steps.keeps (h : Steps s w w') (kept : World σ → Prop)
    (hstep : ∀ w₁ w₂, Step s w₁ w₂ → kept w₁ → kept w₂) (hw : kept w) : kept w' := by
  induction h with
  | refl => exact hw
  | tail _ hlast ih => exact hstep _ _ hlast ih

theorem Steps.lasts (h : Steps s w w') (hlasts : Lasts s w) : Lasts s w' := by
  refine h.keeps (Lasts s) (fun w₁ w₂ hstep hlasts => ?_) hlasts
  cases hstep with
  | moved time _ hend => exact hend
  | accepted notice _ => cases notice <;> exact hlasts
  | noted => exact hlasts
  | faulted => exact hlasts
  | changed => exact hlasts

/-- Faults are used up from the front of their scripts. -/
theorem Steps.script_suffix (h : Steps s w w') (seam : Seam) :
    w'.faults.script seam <:+ w.faults.script seam := by
  refine h.keeps (fun w₁ => w₁.faults.script seam <:+ w.faults.script seam) (fun w₁ w₂ hstep hw => ?_)
    (List.suffix_refl _)
  cases hstep with
  | moved time => exact (w₁.script_moveTo_suffix time seam).trans hw
  | accepted notice _ => cases notice <;> exact hw
  | noted => exact hw
  | faulted other =>
      change (w₁.faults.afterCall other).script seam <:+ _
      rw [Faults.script_afterCall]
      split
      · rename_i h
        rw [← h]
        exact (List.tail_suffix _).trans hw
      · exact hw
  | changed => exact hw

end World

/-! ### Runs as steps -/

namespace Run

open World (Step Steps Lasts)

variable {s : Setup σ} {w w' : World σ}

/-- Whether something that runs in a world takes it from step to step, wherever it ends. -/
def Goes (s : Setup σ) (x : Run σ α) (w : World σ) : Prop := Lasts s w → Steps s w (exec x w).2

theorem Goes.bind {x : Run σ α} {f : α → Run σ β} (hx : Goes s x w)
    (hf : ∀ a w', exec x w = (.ok a, w') → Goes s (f a) w') : Goes s (x >>= f) w := by
  intro hlasts
  have hfirst := hx hlasts
  rw [exec_bind]
  rcases hexec : exec x w with ⟨halt | a, w'⟩
  · rw [hexec] at hfirst
    exact hfirst
  · rw [hexec] at hfirst
    exact hfirst.trans (hf a w' hexec (hfirst.lasts hlasts))

theorem goes_pure (a : α) : Goes s (pure a) w := fun _ => .refl

theorem goes_get_bind {f : World σ → Run σ α} (h : Goes s (f w) w) : Goes s (get >>= f) w := h

theorem goes_modify {f : World σ → World σ} (h : Step s w (f w)) : Goes s (modify f) w := fun _ => .single h

theorem goes_note {what : Happening} (hdeed : what.isDeed = true) (hrefused : what.accepted? = none) :
    Goes s (note what) w :=
  goes_modify (.noted what hdeed hrefused)

theorem goes_count (m : Metric) : Goes s (count m) w := goes_modify (.changed _ _ _ _)

theorem goes_nextFault (seam : Seam) : Goes s (nextFault seam) w := fun _ => .single (.faulted seam)

theorem goes_serve (call : Ledger.Call) : Goes s (serve s call) w := fun _ => .single (.changed _ _ _ _)

/-! ### Waiting -/

theorem goes_waitUntil {time : Nat} (h : w.clock ≤ time) : Goes s (waitUntil s time) w := by
  intro hlasts
  unfold waitUntil
  cases hhorizon : s.horizon with
  | none => exact .single (.moved time h fun last hlast => by rw [hhorizon] at hlast; cases hlast)
  | some last =>
      have hend : ∀ last', s.horizon = some last' → last = last' := fun last' h' =>
        Option.some.inj (hhorizon.symm.trans h')
      dsimp only
      split
      · exact .single (.moved last (hlasts last hhorizon) fun last' h' => (hend last' h').le)
      · rename_i hnot
        exact .single (.moved time h fun last' h' => hend last' h' ▸ Nat.le_of_not_lt hnot)

theorem goes_wait (delay : Option Nat) : Goes s (wait s delay) w := by
  unfold wait
  split
  · exact goes_pure ()
  · exact goes_get_bind (goes_waitUntil (Nat.le_add_right _ _))
  · intro hlasts
    cases hhorizon : s.horizon with
    | none => exact .refl
    | some last =>
        exact .single (.moved last (hlasts last hhorizon) fun last' h' =>
          (Option.some.inj (hhorizon.symm.trans h')).le)

theorem goes_waitWithin (delay : Option Nat) : Goes s (waitWithin s delay) w := by
  change Goes s (if delay.any (w.clock + · ≤ w.deadline) then _ else _) w
  split
  · exact (goes_wait delay).bind fun _ _ _ => goes_pure true
  · by_cases hearly : w.clock < w.deadline
    · rw [if_pos hearly]
      exact (goes_waitUntil hearly.le).bind fun _ _ _ => goes_pure false
    · rw [if_neg hearly]
      exact goes_pure false

/-! ### Requests -/

theorem goes_callLedger (call : Ledger.Call) : Goes s (callLedger s call) w := by
  unfold callLedger
  refine (goes_note rfl rfl).bind fun _ w₁ _ => (goes_nextFault _).bind fun fault w₂ _ => ?_
  dsimp only
  split
  · refine (goes_serve call).bind fun answer w₃ _ => (goes_waitWithin fault.delay).bind fun inTime w₄ _ => ?_
    cases inTime with
    | false => exact goes_pure _
    | true => exact goes_pure _
  · refine (goes_waitWithin fault.delay).bind fun inTime w₃ _ => ?_
    cases inTime with
    | false => exact goes_pure _
    | true =>
        cases fault.failure with
        | some text => exact goes_pure _
        | none => exact (goes_serve call).bind fun _ _ _ => goes_pure _

theorem exec_waitUntil_ok {time : Nat} {a : Unit} (h : exec (waitUntil s time) w = (.ok a, w')) :
    w' = w.moveTo time := by
  unfold waitUntil at h
  cases hhorizon : s.horizon with
  | none =>
      rw [hhorizon] at h
      exact (congrArg Prod.snd h).symm
  | some last =>
      rw [hhorizon] at h
      dsimp only at h
      split at h
      · cases congrArg Prod.fst h
      · exact (congrArg Prod.snd h).symm

/-- A producer that waits for room goes on where the world has moved to by then. -/
theorem goes_waitForRoom {time : Option Nat} {next : Unit → Run σ α}
    (hforward : ∀ t, time = some t → w.clock ≤ t) (hnext : Goes s (next ()) (time.elim w w.moveTo)) :
    Goes s (match time with
      | some time => do next (← waitUntil s time)
      | none => next ()) w := by
  cases time with
  | none => exact hnext
  | some t =>
      exact (goes_waitUntil (hforward t rfl)).bind fun _ w' hexec => exec_waitUntil_ok hexec ▸ hnext

/-- What is known of a handoff to a side channel: its producer does not wait into the past, and once it is
successful nothing waits in the channel any more. -/
structure Handed (w : World σ) (c : Channel) (handoff : Except Rejection Unit × Option Nat) : Prop where
  forward : ∀ t, handoff.2 = some t → w.clock ≤ t
  roomy : handoff.1 = .ok () → ((handoff.2.elim w w.moveTo).side c).slot = none

theorem handed (w : World σ) (c : Channel) (bound : Nat) :
    Handed w c (((w.side c).room w.clock).handoff w.clock bound) := by
  cases hroom : (w.side c).room w.clock with
  | now =>
      have hslot : (w.side c).slot = none := by
        rcases hside : w.side c with ⟨_ | notice, _ | _ | ⟨subject, _ | freeAt⟩⟩ <;>
          simp_all [Queue.room, Queue.takenAt?]
      exact ⟨nofun, fun _ => hslot⟩
  | later taken =>
      obtain ⟨notice, subject, freeAt, hside, rfl⟩ : ∃ notice subject freeAt,
          w.side c = ⟨some notice, .publisher subject (some freeAt)⟩ ∧ taken = max w.clock freeAt := by
        rcases hside : w.side c with ⟨_ | notice, _ | _ | ⟨subject, _ | freeAt⟩⟩ <;>
          simp_all [Queue.room, Queue.takenAt?]
      have hempty : ((w.moveTo (max w.clock freeAt)).side c).slot = none := by
        have hdue : World.isDue ((w.side c).takenAt? w.clock) (max w.clock freeAt) = true := by
          rw [hside]
          exact decide_eq_true le_rfl
        obtain ⟨_, _, _, _, _, _, _, _, hside'⟩ := World.moveTo_of_due hdue
        rw [hside']
      by_cases hbound : bound = 0
      · rw [Room.handoff, if_pos hbound]
        exact ⟨nofun, nofun⟩
      · by_cases hearly : max w.clock freeAt < w.clock + bound
        · rw [Room.handoff, if_neg hbound, if_pos hearly]
          exact ⟨fun t ht => Option.some.inj ht ▸ Nat.le_max_left _ _, fun _ => hempty⟩
        · rw [Room.handoff, if_neg hbound, if_neg hearly]
          exact ⟨fun t ht => Option.some.inj ht ▸ Nat.le_add_right _ _, nofun⟩
  | never =>
      refine ⟨fun t ht => ?_, nofun⟩
      rw [Room.handoff] at ht
      dsimp only at ht
      split at ht
      · cases ht
      · exact Option.some.inj ht ▸ Nat.le_add_right _ _
  | closed => exact ⟨nofun, nofun⟩
  | closing time =>
      rcases hside : w.side c with ⟨_ | notice, _ | _ | ⟨subject, _ | freeAt⟩⟩ <;>
        simp_all [Queue.room, Queue.takenAt?]

theorem room_side_alerts (w : World σ) : (w.side .alerts).room w.clock = w.alerts.room w.clock := by
  rcases hqueue : w.alerts with ⟨_ | a, _ | _ | ⟨subject, _ | freeAt⟩⟩ <;>
    simp [World.side, hqueue, Queue.room, Queue.takenAt?]

theorem room_side_letters (w : World σ) : (w.side .letters).room w.clock = w.letters.room w.clock := by
  rcases hqueue : w.letters with ⟨_ | a, _ | _ | ⟨subject, _ | freeAt⟩⟩ <;>
    simp [World.side, hqueue, Queue.room, Queue.takenAt?]

theorem goes_accepted (notice : Notice) (hroom : (w.side notice.channel).slot = none) :
    Goes s (do modify fun w => w.put notice; note (.offered notice none)) w := by
  intro _
  cases notice <;> exact .single (.accepted _ hroom)

theorem goes_offerAlert (a : Alert) : Goes s (offerAlert s a) w := by
  unfold offerAlert
  refine goes_get_bind ?_
  have hhanded := handed w .alerts s.handoff
  rw [room_side_alerts] at hhanded
  generalize (w.alerts.room w.clock).handoff w.clock s.handoff = handoff at hhanded ⊢
  obtain ⟨outcome, time⟩ := handoff
  refine goes_waitForRoom hhanded.forward ?_
  cases outcome with
  | ok accepted =>
      have haccepted := goes_accepted (s := s) (.alert a) (hhanded.roomy rfl)
      exact haccepted.bind fun _ _ _ => goes_pure _
  | error rejection => exact (goes_note rfl rfl).bind fun _ _ _ => goes_pure _

theorem goes_offerLetter (payload : Text.Bytes) : Goes s (offerLetter s payload) w := by
  unfold offerLetter
  refine goes_get_bind ?_
  have hhanded := handed w .letters s.handoff
  rw [room_side_letters] at hhanded
  generalize (w.letters.room w.clock).handoff w.clock s.handoff = handoff at hhanded ⊢
  obtain ⟨outcome, time⟩ := handoff
  refine goes_waitForRoom hhanded.forward ?_
  cases outcome with
  | ok accepted =>
      have haccepted := goes_accepted (s := s) (.letter payload) (hhanded.roomy rfl)
      exact haccepted.bind fun _ _ _ => goes_pure _
  | error rejection => exact (goes_note rfl rfl).bind fun _ _ _ => goes_pure _

theorem goes_answer (m : Message) (r : Request) : Goes s (answer s m r) w := by
  cases r with
  | time => exact goes_get_bind (goes_pure _)
  | bound ms => exact goes_modify (.changed _ _ _ _)
  | ledger call => exact goes_callLedger call
  | alert a => exact goes_offerAlert a
  | letter payload => exact goes_offerLetter payload
  | acknowledge =>
      refine (goes_note rfl rfl).bind fun _ w₁ _ => (goes_wait _).bind fun _ w₂ _ => ?_
      split <;> exact goes_pure _
  | count metric => exact goes_count metric

theorem goes_program (m : Message) (p : Program α) : Goes s (program s m p) w := by
  induction p generalizing w with
  | done a => exact goes_pure a
  | overflow => exact fun _ => .refl
  | ask r next ih => exact (goes_answer m r).bind fun a w' _ => ih a

/-! ### Loops -/

theorem goes_settle (m : Message) : Goes s (settle s m) w := goes_program m _

theorem goes_settleAll (messages : List Message) (r : FetchReport) :
    Goes s (settleAll (settle s) messages r) w := by
  induction messages generalizing r w with
  | nil => exact goes_pure r
  | cons m rest ih => exact (goes_settle m).bind fun d w' _ => ih (r.settled d)

theorem goes_exhaust (f : Fetching) (left : Nat) (r : FetchReport) : Goes s (exhaust f left r) w := by
  induction left generalizing r w with
  | zero => exact goes_pure r
  | succ left ih => exact (goes_note rfl rfl).bind fun _ _ _ => (goes_count _).bind fun _ _ _ => ih _

theorem goes_fetchLoop (f : Fetching) (source : Source) (delivered : Nat) (r : FetchReport) :
    Goes s (fetchLoop s f (settle s) source delivered r) w := by
  induction source generalizing delivered r w with
  | nil => exact goes_exhaust f _ r
  | cons entry rest ih =>
      unfold fetchLoop
      split
      · exact goes_pure r
      · refine (goes_note rfl rfl).bind fun _ _ _ => (goes_wait _).bind fun _ _ _ => ?_
        split
        · exact ih _ _
        · exact (goes_count _).bind fun _ _ _ => ih _ _
        · exact (goes_count _).bind fun _ _ _ => ih _ _
        · exact (goes_settleAll _ _).bind fun _ _ _ => ih _ _

theorem goes_callBroker {seam : Seam} {what : Happening} {work : Run σ α} (hdeed : what.isDeed = true)
    (hrefused : what.accepted? = none) (hwork : ∀ w₁, Goes s work w₁) :
    Goes s (callBroker s seam what work) w := by
  unfold callBroker
  refine (goes_note hdeed hrefused).bind fun _ _ _ => (goes_nextFault seam).bind fun fault _ _ => ?_
  dsimp only
  split
  · exact (hwork _).bind fun _ _ _ => (goes_wait _).bind fun _ _ _ => goes_pure _
  · refine (goes_wait _).bind fun _ _ _ => ?_
    split
    · exact goes_pure _
    · exact (hwork _).bind fun _ _ _ => goes_pure _

theorem goes_provision (sub : Subscription) : Goes s (provision s sub) w := by
  have hconsumer : ∀ w₁, Goes s (callBroker s .createConsumer (.creatingConsumer sub) nextSource) w₁ :=
    fun _ => goes_callBroker rfl rfl fun _ _ => .single (.changed _ _ _ _)
  unfold provision
  refine (goes_callBroker rfl rfl fun _ => goes_pure _).bind fun created w₁ _ => ?_
  cases created with
  | ok _ => exact hconsumer w₁
  | error _ =>
      refine (goes_callBroker rfl rfl fun _ => goes_pure _).bind fun updated w₂ _ => ?_
      cases updated with
      | ok _ => exact hconsumer w₂
      | error e => exact goes_pure _

theorem goes_rounds (sub : Subscription) (f : Fetching) (left : Nat) (r : ProvisionReport) :
    Goes s (rounds s sub f left r) w := by
  induction left generalizing r w with
  | zero => exact goes_pure r
  | succ left ih =>
      unfold rounds
      refine (goes_provision sub).bind fun result w₁ _ => ?_
      cases result with
      | error e => exact ih _
      | ok source => exact (goes_fetchLoop f source 0 _).bind fun _ _ _ => ih _

/-- The rounds on a connection take a world from step to step, also where an overflow ends them. -/
theorem goes_provisionAll (sub : Subscription) (f : Fetching) (substitute : ProvisionReport) :
    Goes s (orElseOverflow (provisionAll s sub f) substitute) w := by
  intro hlasts
  have hrounds : Steps s w (exec (provisionAll s sub f) w).2 := goes_rounds sub f _ _ hlasts
  rw [exec_orElseOverflow]
  rcases hexec : exec (provisionAll s sub f) w with ⟨(_ | _) | a, w'⟩ <;> rw [hexec] at hrounds <;> exact hrounds

end Run

end UsageLedger.Delivery
