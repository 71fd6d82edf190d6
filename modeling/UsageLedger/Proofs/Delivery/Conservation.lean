import UsageLedger.Proofs.Delivery.Course
import UsageLedger.Proofs.Delivery.Session

/-! What a connection conserves. If nothing is waited for without end and no product overflows, a connection
comes to its end with every message handled that its fetches brought; and what the counters have grown by
then is what its reports say. -/

namespace UsageLedger.Delivery

open Ledger

variable {σ α : Type} {s : Setup σ} {w w₁ w' : World σ}

/-! ### Connections that come to an end -/

/-- Whether nothing is waited for without end on a connection: no call on the broker, no fetch and no
acknowledgement. -/
structure Flows (s : Setup σ) (faults : Faults) (sources : List Source) : Prop where
  horizon : s.horizon = none
  broker : ∀ seam ∈ [Seam.createStream, .updateStream, .createConsumer], ∀ fault ∈ faults.script seam,
    fault.delay ≠ none
  sources : ∀ source ∈ sources, ¬Stalls source

open World (Steps)

namespace Flows

variable {faults : Faults} {sources rest : List Source}

theorem lasts (h : Flows s faults sources) (w : World σ) : World.Lasts s w := by
  intro last hlast
  rw [h.horizon] at hlast
  cases hlast

theorem steps (h : Flows s w.faults sources) (hsteps : Steps s w w') (hrest : rest.Sublist sources) :
    Flows s w'.faults rest where
  horizon := h.horizon
  broker seam hseam fault hfault := h.broker seam hseam fault ((hsteps.script_suffix seam).subset hfault)
  sources source hsource := h.sources source (hrest.subset hsource)

theorem not_stalls_headD (h : Flows s faults sources) : ¬Stalls (sources.headD []) := by
  cases sources with
  | nil => rintro ⟨entry, hentry, -⟩; cases hentry
  | cons source rest => exact h.sources source List.mem_cons_self

end Flows

namespace Run

/-- What returns and goes from step to step. -/
theorem Ends.steps {x : Run σ α} {post : α → World σ → Prop} {halted : Halt → World σ → Prop}
    (h : Ends x w post halted) (hgoes : Goes s x w) (hlasts : World.Lasts s w) :
    Ends x w (fun a w' => post a w' ∧ Steps s w w') halted := by
  have hsteps := hgoes hlasts
  rcases hexec : exec x w with ⟨halt | a, w'⟩
  · rw [Ends, hexec]
    exact h.error hexec
  · rw [hexec] at hsteps
    exact .of_exec hexec ⟨h.ok hexec, hsteps⟩

theorem wait_returns {delay : Option Nat} (hhorizon : s.horizon = none) (hdelay : delay ≠ none) :
    Ends (wait s delay) w (fun _ _ => True) fun _ _ => False := by
  refine (wait_ends delay).mono (fun _ _ _ => trivial) ?_
  rintro halt w' ⟨-, -, hsome | hnone⟩
  · rw [hhorizon] at hsome
    cases hsome
  · exact hdelay hnone

theorem callBroker_returns {seam : Seam} {what : Happening} {work : Run σ α} {sources : List Source}
    (hflows : Flows s w.faults sources) (hseam : seam ∈ [Seam.createStream, .updateStream, .createConsumer])
    (hwork : ∀ w₁ : World σ, Ends work w₁ (fun _ _ => True) fun _ _ => False) :
    Ends (callBroker s seam what work) w (fun _ _ => True) fun _ _ => False := by
  have hdelay : (w.faults.next seam).1.delay ≠ none := by
    rcases w.faults.next_mem seam with hnone | hmem
    · rw [hnone]
      simp [Fault.none]
    · exact hflows.broker seam hseam _ hmem
  have hreturns : ∀ w₁ : World σ, Ends (wait s (w.faults.next seam).1.delay) w₁ (fun _ _ => True) fun _ _ => False :=
    fun _ => wait_returns hflows.horizon hdelay
  unfold callBroker
  refine Ends.bind (ends_modify rfl :
    Ends (note what) w (fun _ w₁ => w₁.faults = w.faults) fun _ _ => False) fun _ w₁ h₁ => ?_
  have hfault : Ends (nextFault seam) w₁ (fun fault _ => fault = (w.faults.next seam).1) fun _ _ => False := by
    rw [← h₁]
    exact rfl
  refine hfault.bind ?_
  rintro _ w₂ rfl
  dsimp only
  split
  · exact (hwork _).bind fun _ _ _ => (hreturns _).bind fun _ _ _ => ends_pure trivial
  · refine (hreturns _).bind fun _ _ _ => ?_
    split
    · exact ends_pure trivial
    · exact (hwork _).bind fun _ _ _ => ends_pure trivial

theorem provision_returns (sub : Subscription) {sources : List Source} (hflows : Flows s w.faults sources) :
    Ends (provision s sub) w (fun _ _ => True) fun _ _ => False := by
  have hquiet : ∀ w₁ : World σ, Ends (pure () : Run σ Unit) w₁ (fun _ _ => True) fun _ _ => False :=
    fun _ => ends_pure trivial
  have hconsumer : ∀ w₁ : World σ, Flows s w₁.faults sources →
      Ends (callBroker s .createConsumer (.creatingConsumer sub) nextSource) w₁ (fun _ _ => True)
        fun _ _ => False := fun w₁ h₁ => callBroker_returns h₁ (by simp) fun _ => trivial
  unfold provision
  refine ((callBroker_returns hflows (by simp) hquiet).steps (goes_callBroker rfl rfl fun _ => goes_pure _)
    (hflows.lasts w)).bind fun created w₁ ⟨_, hsteps₁⟩ => ?_
  have hflows₁ := hflows.steps hsteps₁ (List.Sublist.refl _)
  cases created with
  | ok _ => exact hconsumer w₁ hflows₁
  | error _ =>
      refine ((callBroker_returns hflows₁ (by simp) hquiet).steps (goes_callBroker rfl rfl fun _ => goes_pure _)
        (hflows.lasts w₁)).bind fun updated w₂ ⟨_, hsteps₂⟩ => ?_
      cases updated with
      | ok _ => exact hconsumer w₂ (hflows₁.steps hsteps₂ (List.Sublist.refl _))
      | error e => exact ends_pure trivial

theorem fetchAll_returns (f : Fetching) {source : Source} (hhorizon : s.horizon = none) (hstalls : ¬Stalls source) :
    Ends (fetchAll s f source) w (fun _ _ => True) fun halt _ => halt = .overflow := by
  refine (fetchAll_completes f source).mono (fun _ _ _ => trivial) ?_
  rintro (_ | _) w' hhalted
  · rfl
  · rcases hhalted with hsome | hstalled
    · rw [hhorizon] at hsome
      cases hsome
    · exact (hstalls hstalled).elim

/-- The rounds on a connection on which nothing is waited for without end return, unless one overflows. -/
theorem rounds_return (sub : Subscription) (f : Fetching) (left : Nat) (r : ProvisionReport)
    (hflows : Flows s w.faults w.sources) :
    Ends (rounds s sub f left r) w (fun _ _ => True) fun halt _ => halt = .overflow := by
  induction left generalizing r w with
  | zero => exact ends_pure trivial
  | succ left ih =>
      have hprovision := ((provision_ends sub).and (provision_returns sub hflows)).steps (goes_provision sub)
        (hflows.lasts w)
      unfold rounds
      refine (hprovision.mono (fun _ _ h => h) fun _ _ h => h.2.elim).bind ?_
      rintro result w₁ ⟨⟨hsources, -⟩, hsteps₁⟩
      cases result with
      | error e =>
          refine ih r.failed (hflows.steps hsteps₁ ?_)
          rcases hsources with h | h
          · rw [h]
          · rw [h]
            exact List.tail_sublist _
      | ok source =>
          obtain ⟨rfl, htail⟩ := hsources
          have hfetches := ((fetchAll_ends f (w.sources.headD [])).and
            (fetchAll_returns f hflows.horizon hflows.not_stalls_headD)).steps
            (goes_fetchLoop f _ 0 FetchReport.zero) (hflows.lasts w₁)
          refine (hfetches.mono (fun _ _ h => h) fun _ _ h => h.2).bind ?_
          rintro report w₂ ⟨⟨⟨hsources₂, -⟩, -⟩, hsteps₂⟩
          refine ih _ (hflows.steps (hsteps₁.trans hsteps₂) ?_)
          rw [hsources₂, htail]
          exact List.tail_sublist _

end Run

/-! ### What a connection conserves -/

/-- The world at the beginning of a connection with some sources. -/
def World.opened (w : World σ) (p : Plan) (sources : List Source) : World σ :=
  { w with
    sources := sources
    alerts := Queue.drainedTo p.alertSubject w.clock
    letters := Queue.drainedTo p.letterSubject w.clock }

/-- A total of the fetch loops on a connection. -/
def ProvisionReport.total (report : ProvisionReport) (f : FetchReport → Nat) : Nat :=
  (report.fetchReports.map f).sum

/-- What a connection conserves: every message of every batch was handled, once and in order, and the reports,
the acknowledgements and the counters say what became of the messages. -/
structure Conserves (s : Setup σ) (w : World σ) (sources : List Source) (report : ProvisionReport)
    (xs : List (Round σ)) (w' : World σ) : Prop where
  rounds : Rounds s w sources Limits.provisionRounds xs w'
  reports : report.fetchReports = xs.map Round.report
  settled : report.total FetchReport.settledTotal =
    (xs.map fun x => (fetchedMessages x.source x.report.fetches).length).sum
  acknowledges : ∀ x ∈ xs, ∀ h ∈ x.handlings,
    h.after.standing.tally.acknowledged = h.before.standing.tally.acknowledged ++ h.acknowledgement
  acknowledged : w'.standing.tally.acknowledged =
    w.standing.tally.acknowledged ++ (xs.flatMap Round.handlings).flatMap Handled.acknowledgement
  posted : w'.metrics.get .statementsPosted + w'.metrics.get .duplicateEvents =
    w.metrics.get .statementsPosted + w.metrics.get .duplicateEvents + report.total FetchReport.acknowledged
  deadLettered : w'.metrics.get .deadLettered =
    w.metrics.get .deadLettered + report.total FetchReport.deadLettered
  leftForRedelivery : w'.metrics.get .leftForRedelivery =
    w.metrics.get .leftForRedelivery + report.total FetchReport.leftForRedelivery
  fetchFailures : w'.metrics.get .fetchFailures = w.metrics.get .fetchFailures + report.total FetchReport.failures
  failedAtLeast : w.metrics.get .failedAttempts +
      3 * (report.total FetchReport.deadLettered + report.total FetchReport.leftForRedelivery) ≤
    w'.metrics.get .failedAttempts
  failedAtMost : w'.metrics.get .failedAttempts ≤ w.metrics.get .failedAttempts +
      3 * (report.total FetchReport.deadLettered + report.total FetchReport.leftForRedelivery) +
      2 * report.total FetchReport.acknowledged
  alerts : w'.metrics.get .alertsSent + w'.metrics.get .alertsDropped + w.metrics.get .statementsPosted ≤
    w.metrics.get .alertsSent + w.metrics.get .alertsDropped + w'.metrics.get .statementsPosted

theorem Course.occurs {hs : List (Handled σ)} {failures : Nat} (h : Course s w hs failures w') :
    ∀ x ∈ hs, x.Occurs s := by
  induction h with
  | start => simp
  | handled x _ hoccurs ih =>
      intro y hy
      rcases List.mem_append.1 hy with hold | hlast
      · exact ih y hold
      · rw [List.mem_singleton.1 hlast]
        exact hoccurs
  | interlude _ _ ih => exact ih

theorem total_eq_settledAs {report : ProvisionReport} {xs : List (Round σ)} {f : FetchReport → Nat}
    {d : Disposition} (hreports : report.fetchReports = xs.map Round.report)
    (hf : ∀ x ∈ xs, f x.report = settledAs d x.handlings) :
    report.total f = settledAs d (xs.flatMap Round.handlings) := by
  rw [ProvisionReport.total, hreports, List.map_map]
  clear hreports
  induction xs with
  | nil => rfl
  | cons x rest ih =>
      rw [List.map_cons, List.sum_cons, List.flatMap_cons, settledAs_append,
        ih fun y hy => hf y (List.mem_cons_of_mem x hy)]
      exact congrArg (· + _) (hf x List.mem_cons_self)

/-- What is settled is what was fetched: each handling came to one of the three dispositions. -/
theorem Round.Complete.settledTotal {x : Round σ} (h : x.Complete) :
    x.report.settledTotal = (fetchedMessages x.source x.report.fetches).length := by
  rw [← h.messages, List.length_map, FetchReport.settledTotal, h.acknowledged, h.deadLettered, h.leftForRedelivery]
  clear h
  induction x.handlings with
  | nil => rfl
  | cons y rest ih =>
      have hsplit : ∀ d, settledAs d (y :: rest) = (if y.disposition = d then 1 else 0) + settledAs d rest := by
        intro d
        rw [← settledAs_singleton, ← settledAs_append]
        rfl
      simp only [hsplit, List.length_cons]
      cases y.disposition <;> simp only [reduceCtorEq, if_true, if_false] <;> omega

theorem Rounds.conserves {sources : List Source} {report : ProvisionReport} {xs : List (Round σ)}
    (h : Rounds s w sources Limits.provisionRounds xs w') (hreports : report.fetchReports = xs.map Round.report) :
    Conserves s w sources report xs w' := by
  have hbalances := h.course.balances
  have hacknowledged := total_eq_settledAs hreports fun x hx => (h.complete x hx).acknowledged
  have hdead := total_eq_settledAs hreports fun x hx => (h.complete x hx).deadLettered
  have hleft := total_eq_settledAs hreports fun x hx => (h.complete x hx).leftForRedelivery
  have hfailures : report.total FetchReport.failures = (xs.map fun x => x.report.failures).sum := by
    rw [ProvisionReport.total, hreports, List.map_map]
    rfl
  refine ⟨h, hreports, ?_, fun x hx y hy => ?_, hbalances.acknowledged, ?_, ?_, ?_, ?_, ?_, ?_,
    hbalances.alerts⟩
  · rw [ProvisionReport.total, hreports, List.map_map]
    exact congrArg List.sum (List.map_congr_left fun x hx => (h.complete x hx).settledTotal)
  · exact (h.course.occurs y (List.mem_flatMap.2 ⟨x, hx, hy⟩)).tallied.acknowledged
  · rw [hacknowledged]
    exact hbalances.posted
  · rw [hdead]
    exact hbalances.deadLettered
  · rw [hleft]
    exact hbalances.leftForRedelivery
  · rw [hfailures]
    exact hbalances.fetchFailures
  · rw [hdead, hleft]
    exact hbalances.failedAtLeast
  · rw [hdead, hleft, hacknowledged]
    exact hbalances.failedAtMost

namespace Run

theorem finishSideChannels_standing (idle : Nat) :
    Ends (finishSideChannels s idle) w (fun _ w' => w'.standing = w.standing)
      (atHorizon fun w' => w'.standing = w.standing ∧ s.horizon.isSome) := by
  have hwaits : ∀ (w₁ : World σ) (time : Nat), w₁.standing = w.standing →
      Ends (waitUntil s time) w₁ (fun _ w₂ => w₂.standing = w.standing)
        (atHorizon fun w₂ => w₂.standing = w.standing ∧ s.horizon.isSome) :=
    fun w₁ time h₁ => (waitUntil_ends time).mono (fun _ _ h => h.trans h₁) fun _ _ h =>
      ⟨h.1, h.2.1.trans h₁, h.2.2⟩
  unfold finishSideChannels
  refine ends_get_bind ((hwaits w _ rfl).bind fun _ w₁ h₁ => ?_)
  refine Ends.bind (ends_modify h₁ : Ends _ w₁ (fun _ w₂ => w₂.standing = w.standing) _) fun _ w₂ h₂ => ?_
  exact ends_get_bind ((hwaits w₂ _ h₂).bind fun _ w₃ h₃ => ends_modify h₃)

/-- A connection on which nothing is waited for without end and nothing overflows returns, having handled every
message that its fetches brought exactly once; and its reports, its acknowledgements and the counters agree. -/
theorem generation_conserves {p : Plan} {sources : List Source} (hflows : Flows s w.faults sources)
    (hfits : (exec (provisionAll s p.subscription p.fetching) (w.opened p sources)).1 ≠ .error .overflow) :
    ∃ report xs w', exec (generation s p sources) w = (.ok report, w') ∧
      Conserves s w sources report xs w' := by
  have hopened : Interlude w 0 (w.opened p sources) := ⟨rfl, rfl, fun m => by simp [World.opened]⟩
  have hreturns := rounds_return p.subscription p.fetching Limits.provisionRounds ProvisionReport.zero
    (w := w.opened p sources) hflows
  have hcourse := rounds_course p.subscription p.fetching Limits.provisionRounds ProvisionReport.zero
    (s := s) (w := w.opened p sources)
  rcases hexec : exec (provisionAll s p.subscription p.fetching) (w.opened p sources) with ⟨halt | report, w₁⟩
  · rw [hreturns.error hexec] at hexec
    exact (hfits (by rw [hexec])).elim
  · obtain ⟨xs, hreports, hrounds⟩ := hcourse.ok hexec
    have hfinish := finishSideChannels_standing (s := s) (w := w₁) p.idle
    rcases hlast : exec (finishSideChannels s p.idle) w₁ with ⟨halt | _, w'⟩
    · obtain ⟨-, -, hsome⟩ := hfinish.error hlast
      rw [hflows.horizon] at hsome
      cases hsome
    · have hgeneration : exec (generation s p sources) w = (.ok report, w') := by
        change exec (orElseOverflow (provisionAll s p.subscription p.fetching) ProvisionReport.zero >>= fun report =>
          finishSideChannels s p.idle >>= fun _ => pure report) (w.opened p sources) = _
        rw [exec_bind, exec_orElseOverflow, hexec]
        dsimp only
        rw [exec_bind, hlast]
        rfl
      have hstanding : Interlude w₁ 0 w' := .of_standing (hfinish.ok hlast)
      refine ⟨report, xs, w', hgeneration, Rounds.conserves ⟨?_, hrounds.complete, hrounds.sources⟩ ?_⟩
      · simpa using ((Course.of_interlude hopened).append hrounds.course).interlude hstanding
      · rw [hreports]
        rfl

/-- A source with a message that bills a credit and one that cannot be read, after a fetch that waited in vain. -/
def mixedSource : Source :=
  [(some 100, .elapsed), (some 100, .batch [(creditPayload, Fault.none), ([], Fault.none)])]

def plainPlan : Plan := Plan.ofConfig Config.standard

def plainSetup : Setup InMemory := Setup.inMemory Credit.defaultRate Limits.attemptTimeout Limits.idleInterval none

def plainWorld : World InMemory := World.start InMemory.empty Queue.undrained Queue.undrained [] [] []

theorem mixedSource_conserved :
    (exec (generation plainSetup plainPlan [mixedSource]) plainWorld).1.toOption.map (fun report =>
        (report.total FetchReport.acknowledged, report.total FetchReport.deadLettered)) = some (1, 1) ∧
      ∃ report xs w', exec (generation plainSetup plainPlan [mixedSource]) plainWorld = (.ok report, w') ∧
        Conserves plainSetup plainWorld [mixedSource] report xs w' := by
  refine ⟨by decide +kernel, generation_conserves ⟨rfl, ?_, ?_⟩ ?_⟩
  · intro seam _ fault hfault
    cases hfault
  · intro source hsource
    rw [List.mem_singleton.1 hsource]
    decide +kernel
  · have hok : (exec (provisionAll plainSetup plainPlan.subscription plainPlan.fetching)
        (plainWorld.opened plainPlan [mixedSource])).1.isOk = true := by decide +kernel
    intro hoverflow
    rw [hoverflow] at hok
    cases hok

end Run

end UsageLedger.Delivery
