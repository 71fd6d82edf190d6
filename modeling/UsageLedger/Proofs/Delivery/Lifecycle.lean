import UsageLedger.Proofs.Delivery.SideChannels
import UsageLedger.Proofs.Delivery.Turns

/-! The lifecycle of connections. A supervisor goes through cycles: a connection that is refused is a call and a
pause, one that is established is used for its rounds, closed and released, with a pause after that. Nothing is
called and nothing is published in a pause, since no side channel is open then. -/

namespace UsageLedger.Delivery

variable {σ α : Type} {s : Setup σ} {w w₁ w' : World σ}

/-! ### What is entered into a history -/

/-- What was entered into the history of a world, the first first, while its clock went on. -/
structure Entered (w : World σ) (entries : List (Nat × Happening)) (w' : World σ) : Prop where
  history : w'.history.reverse = w.history.reverse ++ entries
  forward : w.clock ≤ w'.clock
  within : ∀ entry ∈ entries, w.clock ≤ entry.1 ∧ entry.1 ≤ w'.clock

namespace Entered

variable {entries more : List (Nat × Happening)}

theorem refl (w : World σ) : Entered w [] w := ⟨by simp, le_rfl, by simp⟩

theorem trans (h : Entered w entries w₁) (h' : Entered w₁ more w') : Entered w (entries ++ more) w' where
  history := by rw [h'.history, h.history, List.append_assoc]
  forward := h.forward.trans h'.forward
  within entry hentry := by
    rcases List.mem_append.1 hentry with hmem | hmem
    · obtain ⟨hlow, hhigh⟩ := h.within entry hmem
      exact ⟨hlow, hhigh.trans h'.forward⟩
    · obtain ⟨hlow, hhigh⟩ := h'.within entry hmem
      exact ⟨h.forward.trans hlow, hhigh⟩

theorem of_same (hhistory : w'.history = w.history) (hclock : w'.clock = w.clock) : Entered w [] w' :=
  ⟨by rw [hhistory, List.append_nil], hclock.ge, by simp⟩

theorem then_same (h : Entered w entries w₁) (hhistory : w'.history = w₁.history) (hclock : w'.clock = w₁.clock) :
    Entered w entries w' := by
  simpa using h.trans (of_same hhistory hclock)

theorem one {what : Happening} (hhistory : w'.history = (w.clock, what) :: w.history) (hclock : w'.clock = w.clock) :
    Entered w [(w.clock, what)] w' := by
  refine ⟨by rw [hhistory, List.reverse_cons], hclock.ge, ?_⟩
  rw [List.forall_mem_singleton, hclock]
  exact ⟨le_rfl, le_rfl⟩

theorem calls (h : Entered w entries w') : w'.brokerSide.calls = w.brokerSide.calls ++ brokerCalls entries := by
  change brokerCalls w'.history.reverse = _
  rw [h.history, brokerCalls_append]
  rfl

/-- What publishers take that are due by a time is entered by then. -/
theorem foldl_take {time : Nat} {order : List Channel} (hnodup : order.Nodup)
    (hdue : ∀ c ∈ order, World.isDue ((w.side c).takenAt? w.clock) time = true) (hforward : w.clock ≤ time) :
    ∃ entries, (order.foldl World.take w).history.reverse = w.history.reverse ++ entries ∧
      ∀ entry ∈ entries, w.clock ≤ entry.1 ∧ entry.1 ≤ time := by
  induction order generalizing w with
  | nil => exact ⟨[], by simp, by simp⟩
  | cons c rest ih =>
      obtain ⟨hnew, hnodup⟩ := List.nodup_cons.1 hnodup
      obtain ⟨taken, htaken, hby⟩ : ∃ taken, (w.side c).takenAt? w.clock = some taken ∧ taken ≤ time := by
        simpa [World.isDue, Option.any_eq_true] using hdue c List.mem_cons_self
      obtain ⟨notice, subject, freeAt, rfl, htakes⟩ := World.taken_of_takenAt? htaken
      have hclock : (w.take c).clock = w.clock := World.clock_take
      have hrest : ∀ c' ∈ rest, World.isDue (((w.take c).side c').takenAt? (w.take c).clock) time = true := by
        intro c' hc'
        rw [hclock, htakes.others c' fun heq => hnew (heq ▸ hc')]
        exact hdue c' (List.mem_cons_of_mem c hc')
      obtain ⟨entries, hhistory, hwithin⟩ := ih hnodup hrest (hclock ▸ hforward)
      refine ⟨(max w.clock freeAt, .published subject notice) :: entries, ?_, ?_⟩
      · rw [List.foldl_cons, hhistory, htakes.history, List.reverse_cons, List.append_assoc]
        rfl
      · rw [hclock] at hwithin
        exact List.forall_mem_cons.2 ⟨⟨Nat.le_max_left _ _, hby⟩, hwithin⟩

theorem moveTo {time : Nat} (hforward : w.clock ≤ time) : ∃ entries, Entered w entries (w.moveTo time) := by
  obtain ⟨order, horder, hnodup, hdue⟩ := w.publish_eq time
  obtain ⟨entries, hhistory, hwithin⟩ := foldl_take hnodup (fun c hc => (hdue c).1 hc) hforward
  refine ⟨entries, ?_, hforward, hwithin⟩
  change (w.publish time).history.reverse = _
  rw [horder, hhistory]

theorem step (h : World.Step s w w') : ∃ entries, Entered w entries w' := by
  cases h with
  | moved time hforward => exact moveTo hforward
  | accepted notice _ => cases notice <;> exact ⟨_, one rfl rfl⟩
  | noted what => exact ⟨_, one rfl rfl⟩
  | faulted => exact ⟨_, of_same rfl rfl⟩
  | changed => exact ⟨_, of_same rfl rfl⟩

theorem steps (h : World.Steps s w w') : ∃ entries, Entered w entries w' := by
  refine h.keeps (fun w' => ∃ entries, Entered w entries w') (fun w₁ w₂ hstep hw => ?_) ⟨[], refl w⟩
  obtain ⟨entries, hentered⟩ := hw
  obtain ⟨more, hmore⟩ := step hstep
  exact ⟨entries ++ more, hentered.trans hmore⟩

end Entered

/-! ### Pauses -/

/-- Whether no publisher has anything to take in a world, now or later. -/
def World.Silent (w : World σ) : Prop := ∀ c time, (w.side c).takenAt? time = none

theorem World.Silent.moveTo (h : w.Silent) (time : Nat) : w.moveTo time = { w with clock := time } := by
  obtain ⟨order, horder, -, hdue⟩ := w.publish_eq time
  have hnone : order = [] := by
    rw [List.eq_nil_iff_forall_not_mem]
    intro c hc
    have hfound := (hdue c).1 hc
    rw [h c w.clock] at hfound
    cases hfound
  change { w.publish time with clock := time } = _
  rw [horder, hnone]
  rfl

namespace Run

theorem waitUntil_returns (hhorizon : s.horizon = none) (time : Nat) :
    exec (waitUntil s time) w = (.ok (), w.moveTo time) := by
  unfold waitUntil
  rw [hhorizon]
  rfl

/-- A pause of a silent world takes its time and nothing else. -/
theorem wait_silent (hhorizon : s.horizon = none) (hsilent : w.Silent) (delay : Nat) :
    exec (wait s (some delay)) w = (.ok (), { w with clock := w.clock + delay }) := by
  cases delay with
  | zero => rfl
  | succ delay =>
      change exec (waitUntil s (w.clock + (delay + 1))) w = _
      rw [waitUntil_returns hhorizon, hsilent.moveTo]

/-- Once the side channels have been finished nobody publishes any more. -/
theorem finishSideChannels_silent (hhorizon : s.horizon = none) (idle : Nat) :
    Ends (finishSideChannels s idle) w
      (fun _ w' => (∃ entries, Entered w entries w') ∧ w'.brokerSide = w.brokerSide ∧ w'.Silent)
      fun _ _ => False := by
  have hwaits : ∀ (w₁ : World σ) time, Ends (waitUntil s time) w₁ (fun _ w₂ => w₂ = w₁.moveTo time) fun _ _ => False :=
    fun _ time => .of_exec (waitUntil_returns hhorizon time) rfl
  unfold finishSideChannels
  refine ends_get_bind ((hwaits w _).bind ?_)
  rintro - _ rfl
  rw [World.alertsDone_eq]
  obtain ⟨entries, hentered⟩ := Entered.moveTo (w.clock_le_doneOf .alerts idle)
  generalize w.doneOf .alerts (w.clock + idle) = time at hentered ⊢
  refine Ends.bind (ends_modify rfl :
    Ends _ _ (fun _ w₂ => w₂ = { w.moveTo time with alerts := Queue.closed }) _) ?_
  rintro - _ rfl
  refine ends_get_bind ((hwaits _ _).bind ?_)
  rintro - _ rfl
  rw [World.lettersDone_eq]
  have hhalf : Entered w entries { w.moveTo time with alerts := Queue.closed } :=
    hentered.then_same rfl rfl
  have hside : ({ w.moveTo time with alerts := Queue.closed } : World σ).brokerSide = w.brokerSide :=
    w.brokerSide_moveTo time
  generalize hclosed : ({ w.moveTo time with alerts := Queue.closed } : World σ) = w₂ at hhalf hside ⊢
  obtain ⟨more, hmore⟩ := Entered.moveTo (w₂.clock_le_doneOf .letters idle)
  generalize w₂.doneOf .letters (w₂.clock + idle) = time' at hmore ⊢
  refine ends_modify ⟨⟨entries ++ more, (hhalf.trans hmore).then_same rfl rfl⟩, ?_, fun c at' => ?_⟩
  · exact (w₂.brokerSide_moveTo time').trans hside
  · cases c with
    | letters => rfl
    | alerts =>
        have hgone : w₂.side .alerts = ⟨none, .gone⟩ := by rw [← hclosed]; rfl
        have hidle : World.isDue ((w₂.side .alerts).takenAt? w₂.clock) time' = false := by rw [hgone]; rfl
        change ((w₂.moveTo time').side .alerts).takenAt? at' = none
        rw [(World.moveTo_of_not_due hidle).1, hgone]
        rfl

end Run

/-! ### Cycles -/

/-- The use of a connection: when it was opened, the sources that its consumers read, its rounds, what was entered
into the history for them and for the side channels, when it was closed, and the report on it. -/
structure Use where
  opened : Nat
  sources : List Source
  turns : List Turn
  body : List (Nat × Happening)
  closed : Nat
  report : ProvisionReport

/-- Whether a connection was used for its rounds and for nothing else on the broker, before it was closed. -/
structure Use.Regular (p : Plan) (u : Use) : Prop where
  rounds : u.turns.length = Limits.provisionRounds
  turns : ∀ t ∈ u.turns, t.Regular p.fetching
  calls : brokerCalls u.body = u.turns.flatMap (Turn.calls p.subscription p.fetching)
  forward : u.opened ≤ u.closed
  within : ∀ entry ∈ u.body, u.opened ≤ entry.1 ∧ entry.1 ≤ u.closed
  reported : Recounted u.sources ProvisionReport.zero u.turns u.report
  accounted : u.report.failures + u.report.fetchReports.length = u.report.rounds

/-- An attempt to connect: a refusal, or a connection and its use. -/
inductive Cycle
  | refused (time : Nat)
  | used (u : Use)

namespace Cycle

/-- What is entered into the history for an attempt. -/
def entries : Cycle → List (Nat × Happening)
  | refused time => [(time, .connecting)]
  | used u => [(u.opened, .connecting)] ++ u.body ++ [(u.closed, .closing), (u.closed, .released)]

def begun : Cycle → Nat
  | refused time => time
  | used u => u.opened

/-- When the pause after an attempt is over. -/
def resumes (p : Plan) : Cycle → Nat
  | refused time => time + p.reconnect
  | used u => u.closed + 2 * p.idle

def report : Cycle → Option ProvisionReport
  | refused _ => none
  | used u => some u.report

def sources : Cycle → Option (List Source)
  | refused _ => none
  | used u => some u.sources

def turns : Cycle → List Turn
  | refused _ => []
  | used u => u.turns

def Regular (p : Plan) : Cycle → Prop
  | refused _ => True
  | used u => u.Regular p

end Cycle

/-- The sources on a connection that is not refused. -/
def Connection.sources? : Connection → Option (List Source)
  | refused _ => none
  | accepted sources => some sources

/-- Whether attempts to connect go as a script says, beyond its end with refusals, and what is left of the script
after them. -/
def Attempts : List Connection → List Cycle → List Connection → Prop
  | script, [], rest => rest = script
  | script, c :: more, rest => c.sources = script.head?.bind Connection.sources? ∧ Attempts script.tail more rest

/-- Whether each attempt begins when the pause after the one before it is over. -/
def Spaced (p : Plan) : Nat → List Cycle → Nat → Prop
  | time, [], last => last = time
  | time, c :: more, last => c.begun = time ∧ Spaced p (c.resumes p) more last

/-- What a supervisor does in some cycles: what was entered into the history, that each cycle has its form, when it
began, and that the broker's answers are those of the scripts. -/
structure Cycles (p : Plan) (w : World σ) (cs : List Cycle) (w' : World σ) : Prop where
  history : w'.history.reverse = w.history.reverse ++ cs.flatMap Cycle.entries
  regular : ∀ c ∈ cs, c.Regular p
  spaced : Spaced p w.clock cs w'.clock
  attempts : Attempts w.connections cs w'.connections
  generations : w'.metrics.get .connectionGenerations =
    w.metrics.get .connectionGenerations + cs.countP (·.report.isSome)
  created : Drawn (w.faults.script .createStream) ((cs.flatMap Cycle.turns).map (·.created))
    (w'.faults.script .createStream)
  updated : Drawn (w.faults.script .updateStream) ((cs.flatMap Cycle.turns).filterMap (·.updated))
    (w'.faults.script .updateStream)
  consumers : Drawn (w.faults.script .createConsumer) ((cs.flatMap Cycle.turns).filterMap (·.consumer))
    (w'.faults.script .createConsumer)

theorem Attempts.append {script mid rest : List Connection} {cs more : List Cycle} (h : Attempts script cs mid)
    (h' : Attempts mid more rest) : Attempts script (cs ++ more) rest := by
  induction cs generalizing script with
  | nil =>
      obtain rfl : mid = script := h
      exact h'
  | cons c others ih => exact ⟨h.1, ih h.2⟩

theorem Attempts.suffix {script rest : List Connection} {cs : List Cycle} (h : Attempts script cs rest) :
    rest <:+ script := by
  induction cs generalizing script with
  | nil =>
      obtain rfl : rest = script := h
      exact List.suffix_refl rest
  | cons c others ih => exact (ih h.2).trans (List.tail_suffix script)

theorem Spaced.append {p : Plan} {time mid last : Nat} {cs more : List Cycle} (h : Spaced p time cs mid)
    (h' : Spaced p mid more last) : Spaced p time (cs ++ more) last := by
  induction cs generalizing time with
  | nil =>
      obtain rfl : mid = time := h
      exact h'
  | cons c others ih => exact ⟨h.1, ih h.2⟩

namespace Cycles

variable {p : Plan} {cs more : List Cycle}

theorem refl (p : Plan) (w : World σ) : Cycles p w [] w := ⟨by simp, by simp, rfl, rfl, rfl, rfl, rfl, rfl⟩

theorem trans (h : Cycles p w cs w₁) (h' : Cycles p w₁ more w') : Cycles p w (cs ++ more) w' where
  history := by rw [h'.history, h.history, List.flatMap_append, List.append_assoc]
  regular := List.forall_mem_append.2 ⟨h.regular, h'.regular⟩
  spaced := h.spaced.append h'.spaced
  attempts := h.attempts.append h'.attempts
  generations := by rw [h'.generations, h.generations, List.countP_append, Nat.add_assoc]
  created := by
    rw [List.flatMap_append, List.map_append]
    exact h.created.append h'.created
  updated := by
    rw [List.flatMap_append, List.filterMap_append]
    exact h.updated.append h'.updated
  consumers := by
    rw [List.flatMap_append, List.filterMap_append]
    exact h.consumers.append h'.consumers

end Cycles

/-- Whether nothing on the broker's side is waited for without end on any connection to come. -/
structure World.Flowing (s : Setup σ) (w : World σ) : Prop where
  horizon : s.horizon = none
  broker : ∀ seam ∈ [Seam.createStream, .updateStream, .createConsumer], ∀ fault ∈ w.faults.script seam,
    fault.delay ≠ none
  sources : ∀ sources, .accepted sources ∈ w.connections → ∀ source ∈ sources, ¬Stalls source

theorem World.Flowing.after {p : Plan} {cs : List Cycle} (h : w.Flowing s) (hcycles : Cycles p w cs w') :
    w'.Flowing s where
  horizon := h.horizon
  broker seam hseam fault hfault := by
    refine h.broker seam hseam fault ?_
    simp only [List.mem_cons, List.not_mem_nil, or_false] at hseam
    rcases hseam with rfl | rfl | rfl
    · exact hcycles.created.suffix.subset hfault
    · exact hcycles.updated.suffix.subset hfault
    · exact hcycles.consumers.suffix.subset hfault
  sources sources hmem := h.sources sources (hcycles.attempts.suffix.subset hmem)

/-- The world once it was tried to connect. -/
def World.tried (w : World σ) : World σ :=
  { w.note w.clock .connecting with connections := w.connections.tail }

/-- The world once a connection was established. -/
def World.connected (w : World σ) : World σ :=
  { w.tried with metrics := w.metrics.count .connectionGenerations }

/-- Whether none of the connections of so many cycles ends its rounds in an overflow. -/
def NeverOverflows (s : Setup σ) (p : Plan) : Nat → World σ → Prop
  | 0, _ => True
  | n + 1, w =>
    (∀ sources, w.connections.head?.bind Connection.sources? = some sources →
      (Run.exec (Run.provisionAll s p.subscription p.fetching) (w.connected.opened p sources)).1 ≠
        .error .overflow) ∧
      NeverOverflows s p n (Run.exec (Run.once s p) w).2

namespace Run

/-- Connects a number of times; the reports. -/
def againReports (s : Setup σ) (p : Plan) : Nat → Run σ (List (Option ProvisionReport))
  | 0 => pure []
  | n + 1 => do
    let report ← once s p
    let others ← againReports s p n
    return report :: others

/-- A supervisor connects again and again and leaves the reports out of account. -/
theorem again_eq (s : Setup σ) (p : Plan) (n : Nat) :
    again s p n = (do let _ ← againReports s p n) := by
  induction n with
  | zero => rfl
  | succ n ih =>
      rw [again, againReports, ih]
      simp

theorem exec_connect (w : World σ) :
    exec connect w = (.ok (w.connections.head?.bind Connection.sources?), w.tried) := by
  obtain ⟨clock, deadline, ledger, metrics, alerts, letters, faults, sources, connections, history⟩ := w
  rcases connections with _ | ⟨text | sources, rest⟩ <;> rfl

/-- A connection that is refused is one call and a pause. -/
theorem once_refused {p : Plan} (hhorizon : s.horizon = none) (hsilent : w.Silent)
    (hrefused : w.connections.head?.bind Connection.sources? = none) :
    ∃ w', exec (once s p) w = (.ok none, w') ∧ Cycles p w [.refused w.clock] w' ∧ w'.Silent := by
  have htried : w.tried.Silent := hsilent
  have hpause : exec (wait s (some p.reconnect)) w.tried =
      (.ok (), { w.tried with clock := w.clock + p.reconnect }) := wait_silent hhorizon htried p.reconnect
  refine ⟨{ w.tried with clock := w.clock + p.reconnect }, ?_, ?_, hsilent⟩
  · unfold once
    rw [exec_bind, exec_connect, hrefused]
    dsimp only
    rw [exec_bind, hpause]
    rfl
  · refine ⟨?_, by simp [Cycle.Regular], ⟨rfl, rfl⟩, ⟨hrefused.symm, rfl⟩, rfl, rfl, rfl, rfl⟩
    change ((w.clock, Happening.connecting) :: w.history).reverse = _
    rw [List.reverse_cons]
    rfl

/-- What the use of a connection leaves behind, up to its end. -/
theorem generation_cycle {p : Plan} {sources : List Source} (hflows : Flows s w.faults sources)
    (hfits : (exec (provisionAll s p.subscription p.fetching) (w.opened p sources)).1 ≠ .error .overflow) :
    Ends (generation s p sources) w
      (fun report w' => ∃ ts body, ts.length = Limits.provisionRounds ∧
        Turns p.subscription p.fetching w.brokerSide ts w'.brokerSide ∧
        Recounted sources ProvisionReport.zero ts report ∧ Entered w body w' ∧ w'.Silent) fun _ _ => False := by
  have hrounds := (rounds_turns (s := s) (w := w.opened p sources) p.subscription p.fetching Limits.provisionRounds
    ProvisionReport.zero).and ((rounds_return (w := w.opened p sources) p.subscription p.fetching Limits.provisionRounds
    ProvisionReport.zero hflows))
  have hsteps := goes_rounds (s := s) (w := w.opened p sources) p.subscription p.fetching Limits.provisionRounds
    ProvisionReport.zero (hflows.lasts _)
  change Ends (provisionAll s p.subscription p.fetching) _ _ _ at hrounds
  change World.Steps s _ (exec (provisionAll s p.subscription p.fetching) _).2 at hsteps
  rcases hexec : exec (provisionAll s p.subscription p.fetching) (w.opened p sources) with ⟨halt | report, w₁⟩
  · exact absurd (by rw [hexec, (hrounds.error hexec).2]) hfits
  · rw [hexec] at hsteps
    obtain ⟨⟨ts, hlength, hturns, hreported⟩, -⟩ := hrounds.ok hexec
    obtain ⟨body, hbody⟩ := Entered.steps hsteps
    have hended : Ends (orElseOverflow (provisionAll s p.subscription p.fetching) ProvisionReport.zero)
        (w.opened p sources) (fun report' w₂ => report' = report ∧ w₂ = w₁) fun _ _ => False := by
      refine .of_exec (?_ : exec _ _ = (.ok report, w₁)) ⟨rfl, rfl⟩
      rw [exec_orElseOverflow, hexec]
    unfold generation
    refine Ends.bind (ends_modify rfl : Ends _ w (fun _ w₀ => w₀ = w.opened p sources) _) ?_
    rintro - _ rfl
    refine hended.bind ?_
    rintro _ _ ⟨rfl, rfl⟩
    refine (finishSideChannels_silent hflows.horizon p.idle).bind ?_
    rintro - w' ⟨⟨more, hmore⟩, hside, hsilent⟩
    refine ends_pure ⟨ts, body ++ more, hlength, ?_, hreported, ?_, hsilent⟩
    · rw [hside]
      exact hturns
    · have hopened : Entered w [] (w.opened p sources) := .of_same rfl rfl
      exact hopened.trans (hbody.trans hmore)

theorem mem_connections_of_sources? {sources : List Source}
    (haccepted : w.connections.head?.bind Connection.sources? = some sources) :
    Connection.accepted sources ∈ w.connections := by
  rcases hconnections : w.connections with _ | ⟨text | others, rest⟩ <;> rw [hconnections] at haccepted
  · cases haccepted
  · cases haccepted
  · rw [Option.some.inj haccepted]
    exact List.mem_cons_self

/-- An attempt that comes to use a connection closes and releases it and pauses for two idle intervals. -/
theorem exec_once_of_sources {p : Plan} {sources : List Source} {report : ProvisionReport} {w₁ w₂ : World σ}
    (haccepted : w.connections.head?.bind Connection.sources? = some sources)
    (hused : exec (generation s p sources) w.connected = (.ok report, w₁))
    (hpause : exec (wait s (some (2 * p.idle))) ((w₁.note w₁.clock .closing).note w₁.clock .released) =
      (.ok (), w₂)) : exec (once s p) w = (.ok (some report), w₂) := by
  unfold once
  rw [exec_bind, exec_connect, haccepted]
  change exec (generation s p sources >>= _) w.connected = _
  rw [exec_bind, hused]
  change exec (wait s (some (2 * p.idle)) >>= _) ((w₁.note w₁.clock .closing).note w₁.clock .released) = _
  rw [exec_bind, hpause]
  rfl

/-- A connection that is established is used for its rounds, closed and released, and there is a pause after it. -/
theorem once_used {p : Plan} {sources : List Source} (hflows : w.Flowing s)
    (haccepted : w.connections.head?.bind Connection.sources? = some sources)
    (hfits : (exec (provisionAll s p.subscription p.fetching) (w.connected.opened p sources)).1 ≠ .error .overflow) :
    ∃ u w', exec (once s p) w = (.ok (some u.report), w') ∧ Cycles p w [.used u] w' ∧ w'.Silent := by
  have hgeneration := generation_cycle (w := w.connected)
    ⟨hflows.horizon, hflows.broker, hflows.sources sources (mem_connections_of_sources? haccepted)⟩ hfits
  rcases hexec : exec (generation s p sources) w.connected with ⟨halt | report, w₁⟩
  · exact (hgeneration.error hexec).elim
  · obtain ⟨ts, body, hlength, hturns, hreported, hentered, hsilent⟩ := hgeneration.ok hexec
    obtain ⟨w₂, hclosed⟩ : ∃ w₂, w₂ = (w₁.note w₁.clock .closing).note w₁.clock .released := ⟨_, rfl⟩
    have hsilent₂ : w₂.Silent := by
      rw [hclosed]
      exact hsilent
    have hpause := wait_silent (s := s) hflows.horizon hsilent₂ (2 * p.idle)
    have hcalls : brokerCalls body = ts.flatMap (Turn.calls p.subscription p.fetching) :=
      List.append_cancel_left (hentered.calls.symm.trans hturns.calls)
    refine ⟨⟨w.clock, sources, ts, body, w₁.clock, report⟩, { w₂ with clock := w₂.clock + 2 * p.idle }, ?_, ?_,
      hsilent₂⟩
    · exact exec_once_of_sources haccepted hexec (hclosed ▸ hpause)
    · have hbefore : w.connected.history.reverse = w.history.reverse ++ [(w.clock, .connecting)] := List.reverse_cons
      refine ⟨?_, ?_, ⟨rfl, ?_⟩, ⟨haccepted.symm, ?_⟩, ?_, ?_, ?_, ?_⟩
      · change w₂.history.reverse = _
        rw [hclosed]
        change ((w₁.clock, .released) :: (w₁.clock, .closing) :: w₁.history).reverse = _
        rw [List.reverse_cons, List.reverse_cons, hentered.history, hbefore]
        simp [Cycle.entries]
      · rw [List.forall_mem_singleton]
        exact ⟨hlength, hturns.regular, hcalls, hentered.forward, hentered.within, hreported, hreported.accounted⟩
      · rw [hclosed]
        rfl
      · rw [hclosed]
        exact hturns.connections
      · rw [hclosed]
        exact hturns.generations
      · rw [hclosed, List.flatMap_singleton]
        exact hturns.created
      · rw [hclosed, List.flatMap_singleton]
        exact hturns.updated
      · rw [hclosed, List.flatMap_singleton]
        exact hturns.consumers

/-- A supervisor that finds the side channels closed and on whose connections nothing is waited for without end and
nothing overflows returns from every attempt to connect, and goes through cycles. A connection that is refused is
one call, without a report, and the next attempt comes after the pause for it. One that is established is counted
once, is used for all its rounds, in which each call on the broker is made exactly when it is due, and reported on;
it is closed and released once, after everything that was entered for it, and nothing happens from then to the
next attempt, which comes after two idle intervals. -/
theorem connections_cycle (p : Plan) (n : Nat) (hsilent : w.Silent) (hflows : w.Flowing s)
    (hfits : NeverOverflows s p n w) :
    ∃ cs w', exec (againReports s p n) w = (.ok (cs.map Cycle.report), w') ∧ cs.length = n ∧ Cycles p w cs w' := by
  induction n generalizing w with
  | zero => exact ⟨[], w, rfl, rfl, .refl p w⟩
  | succ n ih =>
      obtain ⟨hfits, hrest⟩ := hfits
      obtain ⟨c, w₁, honce, hcycle, hsilent₁⟩ : ∃ c w₁, exec (once s p) w = (.ok c.report, w₁) ∧ Cycles p w [c] w₁ ∧
          w₁.Silent := by
        cases hconnection : w.connections.head?.bind Connection.sources? with
        | none =>
            obtain ⟨w₁, honce, hcycle, hsilent₁⟩ := once_refused hflows.horizon hsilent hconnection
            exact ⟨.refused w.clock, w₁, honce, hcycle, hsilent₁⟩
        | some sources =>
            obtain ⟨u, w₁, honce, hcycle, hsilent₁⟩ := once_used hflows hconnection (hfits sources hconnection)
            exact ⟨.used u, w₁, honce, hcycle, hsilent₁⟩
      rw [honce] at hrest
      obtain ⟨cs, w', hexec, hlength, hcycles⟩ := ih hsilent₁ (hflows.after hcycle) hrest
      refine ⟨c :: cs, w', ?_, by rw [List.length_cons, hlength], hcycle.trans hcycles⟩
      rw [againReports, exec_bind, honce]
      dsimp only
      rw [exec_bind, hexec]
      rfl

def failing : Fault := ⟨some 5, some "down", false⟩

/-- A world in which the first attempt to connect is refused. On the connection after it the stream is neither created
nor brought up to date in the first round, and only brought up to date in the second. -/
def troubledWorld : World Ledger.InMemory :=
  World.start Ledger.InMemory.empty Queue.undrained Queue.undrained
    [(.createStream, [failing, failing]), (.updateStream, [failing])] []
    [.refused "down", .accepted [mixedSource]]

theorem troubledWorld_neverOverflows : NeverOverflows plainSetup plainPlan 2 troubledWorld := by
  refine ⟨fun sources h => (nomatch h), fun sources h => ?_, trivial⟩
  have hconnection : (exec (once plainSetup plainPlan) troubledWorld).2.connections.head?.bind Connection.sources? =
      some [mixedSource] := by decide +kernel
  obtain rfl : sources = [mixedSource] := Option.some.inj (h.symm.trans hconnection)
  have hok : (exec (provisionAll plainSetup plainPlan.subscription plainPlan.fetching)
      ((exec (once plainSetup plainPlan) troubledWorld).2.connected.opened plainPlan [mixedSource])).1.isOk = true := by
    decide +kernel
  intro hoverflow
  rw [hoverflow] at hok
  cases hok

theorem troubledWorld_cycles : troubledWorld.Silent ∧ troubledWorld.Flowing plainSetup ∧
    NeverOverflows plainSetup plainPlan 2 troubledWorld ∧
    ∃ cs w', exec (againReports plainSetup plainPlan 2) troubledWorld = (.ok (cs.map Cycle.report), w') ∧
      cs.length = 2 ∧ Cycles plainPlan troubledWorld cs w' := by
  have hsilent : troubledWorld.Silent := fun c _ => by cases c <;> rfl
  have hflows : troubledWorld.Flowing plainSetup := by
    refine ⟨rfl, by decide, fun sources hsources => ?_⟩
    obtain rfl : sources = [mixedSource] := by simpa [troubledWorld, World.start] using hsources
    decide +kernel
  exact ⟨hsilent, hflows, troubledWorld_neverOverflows,
    connections_cycle plainPlan 2 hsilent hflows troubledWorld_neverOverflows⟩

end Run

end UsageLedger.Delivery
