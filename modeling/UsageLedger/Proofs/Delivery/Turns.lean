import UsageLedger.Proofs.Delivery.Breaker

/-! The rounds on a connection as the broker sees them. In each of them the stream is created, it is brought up
to date exactly if its creation failed, a consumer is created exactly if one of the two succeeded, and messages
are fetched exactly if the consumer was created, from no failures up to the threshold. Each call goes as the script
of its seam says, one entry after the other. -/

namespace UsageLedger.Delivery

variable {σ : Type} {s : Setup σ} {w w' : World σ}

/-- Whether some faults are what a script has for as many calls, and what is left of it after them. -/
def Drawn : List Fault → List Fault → List Fault → Prop
  | script, [], rest => rest = script
  | script, fault :: more, rest => fault = script.headD Fault.none ∧ Drawn script.tail more rest

theorem Drawn.append {script used mid more rest : List Fault} (h : Drawn script used mid) (h' : Drawn mid more rest) :
    Drawn script (used ++ more) rest := by
  induction used generalizing script with
  | nil =>
      obtain rfl : mid = script := h
      exact h'
  | cons fault others ih => exact ⟨h.1, ih h.2⟩

theorem Drawn.suffix {script used rest : List Fault} (h : Drawn script used rest) : rest <:+ script := by
  induction used generalizing script with
  | nil =>
      obtain rfl : rest = script := h
      exact List.suffix_refl rest
  | cons fault others ih => exact (ih h.2).trans (List.tail_suffix script)

/-- Whether a call that goes so succeeds. -/
def Fault.succeeds (fault : Fault) : Bool := fault.failure.isNone

/-! ### Provisioning -/

/-- How a subscription was provisioned: how the creation of the stream went, and the calls after it where they were
made. -/
structure Provisioning where
  created : Fault
  updated : Option Fault
  consumer : Option Fault

namespace Provisioning

/-- Whether there is a consumer in the end. -/
def ready (p : Provisioning) : Bool := p.consumer.any Fault.succeeds

def calls (sub : Subscription) (p : Provisioning) : List Happening :=
  [.creatingStream sub] ++ (p.updated.toList.map fun _ => .updatingStream sub) ++
    p.consumer.toList.map fun _ => .creatingConsumer sub

/-- Whether each call was made exactly when it was due. -/
structure Regular (p : Provisioning) : Prop where
  updated : p.updated.isSome = !p.created.succeeds
  consumer : p.consumer.isSome = (p.created.succeeds || p.updated.any Fault.succeeds)

/-- What provisioning does to the broker's side of a world. -/
structure Leads (sub : Subscription) (b : BrokerSide) (p : Provisioning) (b' : BrokerSide) : Prop where
  regular : p.Regular
  calls : b'.calls = b.calls ++ p.calls sub
  created : Drawn (b.script .createStream) [p.created] (b'.script .createStream)
  updated : Drawn (b.script .updateStream) p.updated.toList (b'.script .updateStream)
  consumer : Drawn (b.script .createConsumer) p.consumer.toList (b'.script .createConsumer)
  connections : b'.connections = b.connections
  generations : b'.generations = b.generations

end Provisioning

namespace Run

open BrokerSide

/-- A subscription is provisioned call by call as the scripts say, and there is a consumer if the last call
succeeds. -/
theorem provision_leads (sub : Subscription) :
    Ends (provision s sub) w
      (fun result w' => ∃ p : Provisioning, p.Leads sub w.brokerSide w'.brokerSide ∧ result.isOk = p.ready)
      fun _ _ => True := by
  have hquiet : ∀ w₁ : World σ, Aside (pure () : Run σ Unit) w₁ := fun _ => rfl
  have hnext : ∀ w₁ : World σ, Aside (nextSource : Run σ Source) w₁ := fun _ => rfl
  unfold provision
  refine (callBroker_brokerSide rfl rfl hquiet).bind ?_
  rintro created w₁ ⟨hcreated, h₁⟩
  rcases created with e | _
  · have hfailed : (w.brokerSide.fault .createStream).succeeds = false := hcreated.symm
    refine (callBroker_brokerSide rfl rfl hquiet).bind ?_
    rintro updated w₂ ⟨hupdated, h₂⟩
    rw [h₁] at hupdated h₂
    rcases updated with e | _
    · have hfailed' : (w.brokerSide.fault .updateStream).succeeds = false := hupdated.symm
      refine ends_pure ⟨⟨w.brokerSide.fault .createStream, some (w.brokerSide.fault .updateStream), none⟩,
        ⟨⟨?_, ?_⟩, ?_, ?_, ?_, ?_, ?_, ?_⟩, rfl⟩
      · simp [hfailed]
      · simp [hfailed, hfailed']
      all_goals simp [h₂, called, answered, fault, Provisioning.calls, Drawn]
    · have hsucceeded : (w.brokerSide.fault .updateStream).succeeds = true := hupdated.symm
      refine (callBroker_brokerSide rfl rfl hnext).mono ?_ fun _ _ h => h
      rintro result w₃ ⟨hresult, h₃⟩
      rw [h₂] at hresult h₃
      refine ⟨⟨w.brokerSide.fault .createStream, some (w.brokerSide.fault .updateStream),
        some (w.brokerSide.fault .createConsumer)⟩, ⟨⟨?_, ?_⟩, ?_, ?_, ?_, ?_, ?_, ?_⟩, hresult⟩
      · simp [hfailed]
      · simp [hsucceeded]
      all_goals simp [h₃, called, answered, fault, Provisioning.calls, Drawn]
  · have hsucceeded : (w.brokerSide.fault .createStream).succeeds = true := hcreated.symm
    refine (callBroker_brokerSide rfl rfl hnext).mono ?_ fun _ _ h => h
    rintro result w₂ ⟨hresult, h₂⟩
    rw [h₁] at hresult h₂
    refine ⟨⟨w.brokerSide.fault .createStream, none, some (w.brokerSide.fault .createConsumer)⟩,
      ⟨⟨?_, ?_⟩, ?_, ?_, ?_, ?_, ?_, ?_⟩, hresult⟩
    · simp [hsucceeded]
    · simp [hsucceeded]
    all_goals simp [h₂, called, answered, fault, Provisioning.calls, Drawn]

end Run

/-! ### Rounds -/

/-- A round: how it was provisioned, and what was fetched from where, if anything was. -/
structure Turn extends Provisioning where
  fetched : Option (Source × FetchReport)

namespace Turn

/-- The calls of a round. -/
def calls (sub : Subscription) (f : Fetching) (t : Turn) : List Happening :=
  t.toProvisioning.calls sub ++
    t.fetched.elim [] fun x => List.replicate x.2.fetches (.fetching f.batchSize f.maxWait)

def report (t : Turn) : Option FetchReport := t.fetched.map Prod.snd

def source (t : Turn) : Option Source := t.fetched.map Prod.fst

/-- Whether a round keeps to the protocol: each call is made exactly when it is due, and fetching, which begins
with no failures, goes on up to the threshold. -/
structure Regular (f : Fetching) (t : Turn) : Prop where
  provisioning : t.toProvisioning.Regular
  fetched : t.fetched.isSome = t.ready
  trips : ∀ source report, t.fetched = some (source, report) →
    TripsAt f.failureThreshold source report.fetches ∧ report.failures = f.failureThreshold

end Turn

/-- What some rounds do to the broker's side of a world. -/
structure Turns (sub : Subscription) (f : Fetching) (b : BrokerSide) (ts : List Turn) (b' : BrokerSide) : Prop where
  regular : ∀ t ∈ ts, t.Regular f
  calls : b'.calls = b.calls ++ ts.flatMap (Turn.calls sub f)
  created : Drawn (b.script .createStream) (ts.map (·.created)) (b'.script .createStream)
  updated : Drawn (b.script .updateStream) (ts.filterMap (·.updated)) (b'.script .updateStream)
  consumers : Drawn (b.script .createConsumer) (ts.filterMap (·.consumer)) (b'.script .createConsumer)
  connections : b'.connections = b.connections
  generations : b'.generations = b.generations

namespace Turns

variable {sub : Subscription} {f : Fetching} {b b₁ b' : BrokerSide} {p : Provisioning} {ts ts' : List Turn}

theorem refl (sub : Subscription) (f : Fetching) (b : BrokerSide) : Turns sub f b [] b :=
  ⟨by simp, by simp, rfl, rfl, rfl, rfl, rfl⟩

theorem trans (h : Turns sub f b ts b₁) (h' : Turns sub f b₁ ts' b') : Turns sub f b (ts ++ ts') b' where
  regular := List.forall_mem_append.2 ⟨h.regular, h'.regular⟩
  calls := by rw [h'.calls, h.calls, List.flatMap_append, List.append_assoc]
  created := by
    rw [List.map_append]
    exact h.created.append h'.created
  updated := by
    rw [List.filterMap_append]
    exact h.updated.append h'.updated
  consumers := by
    rw [List.filterMap_append]
    exact h.consumers.append h'.consumers
  connections := h'.connections.trans h.connections
  generations := h'.generations.trans h.generations

theorem filterMap_singleton {α β : Type} (g : α → Option β) (a : α) : [a].filterMap g = (g a).toList := by
  cases h : g a <;> simp [h]

/-- A round that is not provisioned ends there. -/
theorem unready (h : p.Leads sub b b') (hunready : p.ready = false) : Turns sub f b [⟨p, none⟩] b' where
  regular := by
    rw [List.forall_mem_singleton]
    exact ⟨h.regular, hunready.symm, nofun⟩
  calls := by rw [h.calls]; simp [Turn.calls]
  created := h.created
  updated := by rw [filterMap_singleton]; exact h.updated
  consumers := by rw [filterMap_singleton]; exact h.consumer
  connections := h.connections
  generations := h.generations

/-- A round that is provisioned fetches up to the threshold. -/
theorem ready {source : Source} {report : FetchReport} (h : p.Leads sub b b₁) (hready : p.ready = true)
    (htrips : TripsAt f.failureThreshold source report.fetches) (hfailures : report.failures = f.failureThreshold)
    (hfetched : b' = b₁.fetched f report.fetches) : Turns sub f b [⟨p, some (source, report)⟩] b' where
  regular := by
    rw [List.forall_mem_singleton]
    refine ⟨h.regular, hready.symm, fun source' report' heq => ?_⟩
    obtain ⟨rfl, rfl⟩ := Prod.mk.inj (Option.some.inj heq)
    exact ⟨htrips, hfailures⟩
  calls := by rw [hfetched, BrokerSide.fetched, BrokerSide.called, h.calls]; simp [Turn.calls]
  created := by rw [hfetched]; exact h.created
  updated := by rw [hfetched, filterMap_singleton]; exact h.updated
  consumers := by rw [hfetched, filterMap_singleton]; exact h.consumer
  connections := by rw [hfetched]; exact h.connections
  generations := by rw [hfetched]; exact h.generations

end Turns

/-- What some rounds report, one after the other, on the sources that they read; one without a source of its own
reads an empty one. -/
structure Recounted (sources : List Source) (r : ProvisionReport) (ts : List Turn) (r' : ProvisionReport) : Prop where
  rounds : r'.rounds = r.rounds + ts.length
  failures : r'.failures = r.failures + ts.countP (·.fetched.isNone)
  fetchReports : r'.fetchReports = r.fetchReports ++ ts.filterMap Turn.report
  sources : (ts.filterMap Turn.source).Sublist (sources ++ List.replicate ts.length [])

namespace Recounted

variable {sources rest : List Source} {p : Provisioning} {ts : List Turn} {r r' : ProvisionReport}

theorem refl (sources : List Source) (r : ProvisionReport) : Recounted sources r [] r :=
  ⟨rfl, rfl, by simp, by simp⟩

theorem failed (h : Recounted rest r.failed ts r') (hrest : rest.Sublist sources) :
    Recounted sources r (⟨p, none⟩ :: ts) r' where
  rounds := by
    rw [h.rounds, List.length_cons]
    exact Nat.add_right_comm r.rounds 1 ts.length
  failures := by
    rw [h.failures, List.countP_cons_of_pos rfl]
    exact Nat.add_right_comm r.failures 1 _
  fetchReports := h.fetchReports
  sources := h.sources.trans (hrest.append ((List.replicate_sublist_replicate _).2 (Nat.le_succ ts.length)))

theorem fetched {report : FetchReport} (h : Recounted sources.tail (r.fetched report) ts r') :
    Recounted sources r (⟨p, some (sources.headD [], report)⟩ :: ts) r' where
  rounds := by
    rw [h.rounds, List.length_cons]
    exact Nat.add_right_comm r.rounds 1 ts.length
  failures := h.failures
  fetchReports := by
    rw [h.fetchReports]
    exact List.append_assoc _ _ _
  sources := by
    cases sources with
    | nil => exact h.sources.cons_cons []
    | cons source rest =>
        refine List.Sublist.cons_cons source (h.sources.trans ?_)
        exact (List.Sublist.refl rest).append ((List.replicate_sublist_replicate _).2 (Nat.le_succ ts.length))

/-- Every round is a failure or has a report. -/
theorem accounted (h : Recounted sources ProvisionReport.zero ts r) :
    r.failures + r.fetchReports.length = r.rounds := by
  have hsplit : ts.countP (·.fetched.isNone) + (ts.filterMap Turn.report).length = ts.length := by
    clear h
    induction ts with
    | nil => rfl
    | cons t ts ih =>
        obtain ⟨p, _ | ⟨source, report⟩⟩ := t
        · rw [List.countP_cons_of_pos rfl, List.filterMap_cons_none rfl, List.length_cons]
          omega
        · rw [List.countP_cons_of_neg Bool.false_ne_true, List.filterMap_cons_some (rfl : Turn.report _ = some report),
            List.length_cons, List.length_cons]
          omega
  rw [h.rounds, h.failures, h.fetchReports]
  simpa [ProvisionReport.zero] using hsplit

end Recounted

namespace Run

/-- A fetch loop that returns has tripped. -/
theorem fetchAll_turn (f : Fetching) (source : Source) :
    Ends (fetchAll s f source) w
      (fun report w' => TripsAt f.failureThreshold source report.fetches ∧ report.failures = f.failureThreshold ∧
        w'.brokerSide = w.brokerSide.fetched f report.fetches) fun _ _ => True := by
  obtain ⟨fetches, htrips⟩ := TripsAt.exists_fetches f.failureThreshold source
  refine (fetchAll_trips htrips).mono ?_ fun _ _ _ => trivial
  rintro report w' ⟨rfl, hfailures, hside, -⟩
  exact ⟨htrips, hfailures, hside⟩

/-- Rounds that return keep to the protocol, and report so. -/
theorem rounds_turns (sub : Subscription) (f : Fetching) (left : Nat) (r : ProvisionReport) :
    Ends (rounds s sub f left r) w
      (fun r' w' => ∃ ts, ts.length = left ∧ Turns sub f w.brokerSide ts w'.brokerSide ∧ Recounted w.sources r ts r')
      fun _ _ => True := by
  induction left generalizing r w with
  | zero => exact ends_pure ⟨[], rfl, .refl _ _ _, .refl _ _⟩
  | succ left ih =>
      unfold rounds
      refine (((provision_leads sub).and (provision_ends sub)).mono (fun _ _ h => h) fun _ _ _ => trivial).bind ?_
      rintro result w₁ ⟨⟨p, hleads, hready⟩, hsources⟩
      cases result with
      | error e =>
          refine (ih r.failed).mono ?_ fun _ _ h => h
          rintro r' w' ⟨ts, hlength, hturns, hreported⟩
          refine ⟨⟨p, none⟩ :: ts, by simp [hlength], (Turns.unready hleads hready.symm).trans hturns,
            hreported.failed ?_⟩
          rcases hsources with h | h
          · rw [h]
          · rw [h]
            exact List.tail_sublist _
      | ok source =>
          obtain ⟨rfl, htail⟩ := hsources
          refine (((fetchAll_turn f _).and (fetchAll_ends f _)).mono (fun _ _ h => h) fun _ _ _ => trivial).bind ?_
          rintro report w₂ ⟨⟨htrips, hfailures, hside⟩, hsources₂, -⟩
          refine (ih (r.fetched report)).mono ?_ fun _ _ h => h
          rintro r' w' ⟨ts, hlength, hturns, hreported⟩
          rw [hsources₂, htail] at hreported
          exact ⟨⟨p, some (w.sources.headD [], report)⟩ :: ts, by simp [hlength],
            (Turns.ready hleads hready.symm htrips hfailures hside).trans hturns, hreported.fetched⟩

end Run

end UsageLedger.Delivery
