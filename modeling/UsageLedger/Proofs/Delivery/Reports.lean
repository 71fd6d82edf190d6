import Mathlib.Data.List.Flatten
import Mathlib.Data.List.Forall2
import UsageLedger.Delivery.Supervisor
import UsageLedger.Proofs.Delivery.Billing
import UsageLedger.Proofs.Delivery.Surroundings

/-! Reports account for messages. A fetch loop that ends has settled every message it fetched, once each;
the rounds on a connection report on every fetch loop in turn; and the report of a connection is complete
unless a product overflowed. -/

namespace UsageLedger.Delivery

variable {σ : Type} {s : Setup σ} {w : World σ}

def Fetched.messages : Fetched → List (Text.Bytes × Fault)
  | batch messages => messages
  | _ => []

def payloads (source : Source) : List Text.Bytes := source.flatMap fun entry => entry.2.messages.map (·.1)

def messagesFetched (source : Source) (fetches : Nat) : Nat :=
  ((source.take fetches).map fun entry => entry.2.messages.length).sum

def FetchReport.settledTotal (r : FetchReport) : Nat := r.acknowledged + r.deadLettered + r.leftForRedelivery

/-- Whether a report counts every message that its fetches brought. -/
def FetchReport.Accounts (r : FetchReport) (source : Source) : Prop :=
  r.settledTotal = messagesFetched source r.fetches

theorem settledTotal_settled (r : FetchReport) (d : Disposition) :
    (r.settled d).settledTotal = r.settledTotal + 1 := by
  cases d <;> simp only [FetchReport.settled, FetchReport.settledTotal] <;> omega

theorem fetches_settled (r : FetchReport) (d : Disposition) : (r.settled d).fetches = r.fetches := by
  cases d <;> rfl

namespace Run

/-- What is said of an overflow: that one of some payloads overflows. -/
def overflowIn (rate : Decimal) (payloads : List Text.Bytes) (halt : Halt) (_ : World σ) : Prop :=
  halt = .overflow → ∃ payload ∈ payloads, Overflows rate payload

theorem overflowIn.mono {rate : Decimal} {some more : List Text.Bytes} {halt : Halt} {w : World σ}
    (h : overflowIn rate some halt w) (hmore : some ⊆ more) : overflowIn rate more halt w := by
  intro hoverflow
  obtain ⟨payload, hpayload, hoverflows⟩ := h hoverflow
  exact ⟨payload, hmore hpayload, hoverflows⟩

theorem atHorizon.overflowIn {rate : Decimal} {payloads : List Text.Bytes} {halted : World σ → Prop}
    {halt : Halt} {w : World σ} (h : atHorizon halted halt w) : Run.overflowIn rate payloads halt w := by
  rw [h.1]
  exact fun hoverflow => by cases hoverflow

theorem overflowIn_of_programHalted {m : Message} {halt : Halt} {w : World σ}
    (h : programHalted s m (fun _ => Overflows s.rate m.payload) halt w) :
    overflowIn s.rate [m.payload] halt w := by
  rintro rfl
  exact ⟨m.payload, by simp, h⟩

/-- Settling a message leaves the sources alone and overflows only where the message does. -/
theorem settle_ends (m : Message) :
    Ends (settle s m) w (fun _ w' => w'.sources = w.sources)
      (programHalted s m fun _ => Overflows s.rate m.payload) := by
  have hmeets : (Delivery.settle s.rate s.attemptTimeout m.payload).Meets (Responds s.serve m.number)
      ⟨fun _ _ => True, fun _ g => g.sources = w.sources, fun _ => Overflows s.rate m.payload⟩
      w.standing := by
    have hkept : ∀ r (g : Standing σ) (a : r.Answer) g', SettlementAsks s.rate m.payload r →
        g.sources = w.sources → Responds s.serve m.number r g a g' → g'.sources = w.sources := by
      intro r g a g' _ hg hresponds
      exact hresponds.sources.trans hg
    rw [settle_eq]
    exact Program.Meets.map (((settlement_meets s.rate s.attemptTimeout m.payload).frame hkept rfl).mono
      (fun _ _ _ => trivial) (fun _ _ h => h.2) fun _ h => h.1)
  exact program_ends hmeets

/-! ### Fetch loops -/

theorem settleAll_ends (messages : List Message) (r : FetchReport) :
    Ends (settleAll (settle s) messages r) w
      (fun r' w' => w'.sources = w.sources ∧ r'.fetches = r.fetches ∧
        r'.settledTotal = r.settledTotal + messages.length)
      (overflowIn s.rate (messages.map (·.payload))) := by
  induction messages generalizing r w with
  | nil => exact ends_pure ⟨rfl, rfl, rfl⟩
  | cons m more ih =>
      refine ((settle_ends m).mono (fun _ _ h => h) fun _ _ h =>
        (overflowIn_of_programHalted h).mono (by simp)).bind fun d w₁ h₁ => ?_
      refine (ih (r.settled d)).mono (fun r' w' h => ?_) fun _ _ h => h.mono (by simp)
      obtain ⟨hsources, hfetches, htotal⟩ := h
      rw [fetches_settled] at hfetches
      rw [settledTotal_settled] at htotal
      exact ⟨hsources.trans h₁, hfetches, by rw [htotal, List.length_cons]; omega⟩

theorem exhaust_ends (f : Fetching) (left : Nat) (r : FetchReport) {halted : Halt → World σ → Prop} :
    Ends (exhaust f left r) w
      (fun r' w' => w'.sources = w.sources ∧ r'.fetches = r.fetches + left ∧
        r'.settledTotal = r.settledTotal) halted := by
  induction left generalizing r w with
  | zero => exact ends_pure ⟨rfl, rfl, rfl⟩
  | succ left ih =>
      apply (note_ends rfl).bind
      intro _ w₁ h₁
      refine Ends.bind (ends_modify rfl : Ends (count _) w₁ (fun _ w₂ => w₂.sources = w₁.sources) halted)
        fun _ w₂ h₂ => (ih r.fetched.failed).mono (fun r' w' h => ?_) fun _ _ h => h
      obtain ⟨hsources, hfetches, htotal⟩ := h
      have hnoted : w₁.sources = w.sources := congrArg Standing.sources h₁
      refine ⟨hsources.trans (h₂.trans hnoted), hfetches.trans ?_, htotal⟩
      change r.fetches + 1 + left = r.fetches + (left + 1)
      omega

theorem payload_mem_numbered {delivered : Nat} {batch : List (Text.Bytes × Fault)} {m : Message}
    (h : m ∈ numbered delivered batch) : m.payload ∈ batch.map (·.1) := by
  rw [numbered, List.mem_mapIdx] at h
  obtain ⟨i, hi, rfl⟩ := h
  exact List.mem_map_of_mem (List.getElem_mem hi)

/-- What a fetch loop reports of `k` more fetches: the messages that they brought. -/
def reports (source : Source) (r : FetchReport) (k : Nat) (r' : FetchReport) : Prop :=
  r'.fetches = r.fetches + k ∧ r'.settledTotal = r.settledTotal + messagesFetched source k

theorem reports_cons {entry : Option Nat × Fetched} {rest : Source} {r r' r'' : FetchReport} {k : Nat}
    (hfetches : r'.fetches = r.fetches + 1)
    (htotal : r'.settledTotal = r.settledTotal + entry.2.messages.length) (h : reports rest r' k r'') :
    reports (entry :: rest) r (k + 1) r'' := by
  obtain ⟨hfetches', htotal'⟩ := h
  refine ⟨by omega, ?_⟩
  rw [htotal', htotal, messagesFetched, messagesFetched, List.take_succ_cons, List.map_cons, List.sum_cons,
    Nat.add_assoc]

theorem payloads_cons (entry : Option Nat × Fetched) (rest : Source) :
    payloads (entry :: rest) = entry.2.messages.map (·.1) ++ payloads rest := rfl

/-- Every message that a fetch loop fetches is settled and counted, unless one overflows. -/
theorem fetchLoop_ends (f : Fetching) (source : Source) (delivered : Nat) (r : FetchReport) :
    Ends (fetchLoop s f (settle s) source delivered r) w
      (fun r' w' => w'.sources = w.sources ∧ ∃ k, reports source r k r')
      (overflowIn s.rate (payloads source)) := by
  induction source generalizing delivered r w with
  | nil =>
      refine (exhaust_ends f (f.failureThreshold - r.failures) r).mono (fun r' w' h => ?_) fun _ _ h => h
      exact ⟨h.1, _, h.2.1, by rw [h.2.2]; simp [messagesFetched]⟩
  | cons entry rest ih =>
      obtain ⟨delay, fetched⟩ := entry
      have hrest : ∀ {w₁ : World σ} {r₁ : FetchReport} (delivered : Nat), w₁.sources = w.sources →
          r₁.fetches = r.fetches + 1 → r₁.settledTotal = r.settledTotal + fetched.messages.length →
          Ends (fetchLoop s f (settle s) rest delivered r₁) w₁
            (fun r' w' => w'.sources = w.sources ∧ ∃ k, reports ((delay, fetched) :: rest) r k r')
            (overflowIn s.rate (payloads ((delay, fetched) :: rest))) := by
        intro w₁ r₁ delivered hsources hfetches htotal
        refine (ih delivered r₁).mono (fun r' w' h => ?_) fun _ _ h => h.mono (by simp [payloads_cons])
        obtain ⟨hsources', k, hreports⟩ := h
        exact ⟨hsources'.trans hsources, k + 1, reports_cons hfetches htotal hreports⟩
      unfold fetchLoop
      split
      · exact ends_pure ⟨rfl, 0, rfl, rfl⟩
      · apply (note_ends rfl).bind
        intro _ w₁ h₁
        apply ((wait_ends delay).mono (fun _ _ h => h) fun _ _ h => h.overflowIn).bind
        intro _ w₂ h₂
        have hsources : w₂.sources = w.sources := congrArg Standing.sources (h₂.trans h₁)
        split
        · exact hrest delivered hsources rfl rfl
        · exact Ends.bind (ends_modify rfl : Ends (count _) w₂ (fun _ w₃ => w₃.sources = w₂.sources) _)
            fun _ w₃ h₃ => hrest delivered (h₃.trans hsources) rfl rfl
        · exact Ends.bind (ends_modify rfl : Ends (count _) w₂ (fun _ w₃ => w₃.sources = w₂.sources) _)
            fun _ w₃ h₃ => hrest delivered (h₃.trans hsources) rfl rfl
        · rename_i m more
          refine ((settleAll_ends (numbered delivered (m :: more)) r.fetched).mono (fun _ _ h => h)
            fun _ _ h => h.mono ?_).bind fun r₁ w₃ h₃ => ?_
          · intro payload hpayload
            obtain ⟨m', hm', rfl⟩ := List.mem_map.1 hpayload
            rw [payloads_cons]
            exact List.mem_append_left _ (payload_mem_numbered hm')
          · obtain ⟨hsources₃, hfetches, htotal⟩ := h₃
            refine hrest _ (hsources₃.trans hsources) hfetches (htotal.trans ?_)
            rw [numbered, List.length_mapIdx]
            rfl

theorem fetchAll_ends (f : Fetching) (source : Source) :
    Ends (fetchAll s f source) w (fun r w' => w'.sources = w.sources ∧ r.Accounts source)
      (overflowIn s.rate (payloads source)) := by
  refine (fetchLoop_ends f source 0 FetchReport.zero).mono (fun r w' h => ?_) fun _ _ h => h
  obtain ⟨hsources, k, hfetches, htotal⟩ := h
  refine ⟨hsources, ?_⟩
  rw [FetchReport.Accounts, htotal, hfetches]
  simp [FetchReport.zero, FetchReport.settledTotal]

/-! ### Rounds -/

/-- A call on the broker fails, with its work done or not, or does its work. -/
theorem callBroker_ends {α : Type} {seam : Seam} {what : Happening} {work : Run σ α}
    (post : α → List Source → Prop) (hdeed : what.isDeed = true)
    (hwork : ∀ w₁ : World σ, w₁.sources = w.sources →
      Ends work w₁ (fun a w₂ => post a w₂.sources) fun _ _ => False) :
    Ends (callBroker s seam what work) w
      (fun result w' =>
        match result with
        | .ok a => post a w'.sources
        | .error _ => w'.sources = w.sources ∨ ∃ a, post a w'.sources)
      (atHorizon fun _ => True) := by
  unfold callBroker
  apply (note_ends hdeed).bind
  intro _ w₁ h₁
  apply (nextFault_ends seam).bind
  intro fault w₂ h₂
  have hsources : w₂.sources = w.sources := congrArg Standing.sources (h₂.trans h₁)
  dsimp only
  split
  · apply ((hwork w₂ hsources).mono (fun _ _ h => h) fun _ _ h => h.elim).bind
    intro a w₃ h₃
    refine ((wait_ends fault.delay).mono (fun _ _ h => h) fun _ _ h => ⟨h.1, trivial⟩).bind
      fun _ w₄ h₄ => ends_pure ?_
    have hposted : post a w₄.sources := by
      rw [show w₄.sources = w₃.sources from congrArg Standing.sources h₄]
      exact h₃
    cases fault.failure with
    | none => exact hposted
    | some text => exact .inr ⟨a, hposted⟩
  · apply ((wait_ends fault.delay).mono (fun _ _ h => h) fun _ _ h => ⟨h.1, trivial⟩).bind
    intro _ w₃ h₃
    have hsources₃ : w₃.sources = w.sources := (congrArg Standing.sources h₃).trans hsources
    cases fault.failure with
    | some text => exact ends_pure (.inl hsources₃)
    | none =>
        exact ((hwork w₃ hsources₃).mono (fun _ _ h => h) fun _ _ h => h.elim).bind
          fun a w₄ h₄ => ends_pure h₄

/-- A call on the broker that only asks for something leaves the sources alone. -/
theorem callBroker_quiet {seam : Seam} {what : Happening} (hdeed : what.isDeed = true) :
    Ends (callBroker s seam what (pure ())) w (fun _ w' => w'.sources = w.sources)
      (atHorizon fun _ => True) := by
  refine (callBroker_ends (fun (_ : PUnit) sources => sources = w.sources) hdeed
    fun w₁ h => ends_pure h).mono (fun result w' h => ?_) fun _ _ h => h
  rcases result with e | a
  · rcases h with h | ⟨-, h⟩ <;> exact h
  · exact h

/-- Provisioning hands out the next source, or at most loses it. -/
theorem provision_ends (sub : Subscription) :
    Ends (provision s sub) w
      (fun result w' =>
        match result with
        | .ok source => source = w.sources.headD [] ∧ w'.sources = w.sources.tail
        | .error _ => w'.sources = w.sources ∨ w'.sources = w.sources.tail)
      (atHorizon fun _ => True) := by
  have hconsumer : ∀ w₁ : World σ, w₁.sources = w.sources →
      Ends (callBroker s .createConsumer (.creatingConsumer sub) nextSource) w₁
        (fun result w' =>
          match result with
          | .ok source => source = w.sources.headD [] ∧ w'.sources = w.sources.tail
          | .error _ => w'.sources = w.sources ∨ w'.sources = w.sources.tail)
        (atHorizon fun _ => True) := by
    intro w₁ h₁
    have hnext : ∀ w₂ : World σ, w₂.sources = w₁.sources → Ends nextSource w₂
        (fun source w₃ => source = w.sources.headD [] ∧ w₃.sources = w.sources.tail) fun _ _ => False := by
      intro w₂ h₂
      rw [← h₁, ← h₂]
      exact ⟨rfl, rfl⟩
    refine (callBroker_ends (fun source sources => source = w.sources.headD [] ∧
      sources = w.sources.tail) rfl hnext).mono (fun result w' h => ?_) fun _ _ h => h
    rcases result with e | source
    · rcases h with h | ⟨-, -, h⟩
      · exact .inl (h.trans h₁)
      · exact .inr h
    · exact h
  unfold provision
  apply (callBroker_quiet rfl).bind
  intro created w₁ h₁
  cases created with
  | ok _ => exact hconsumer w₁ h₁
  | error _ =>
      apply (callBroker_quiet rfl).bind
      intro updated w₂ h₂
      cases updated with
      | ok _ => exact hconsumer w₂ (h₂.trans h₁)
      | error e => exact ends_pure (.inl (h₂.trans h₁))

/-- What some rounds report: on every round that was provisioned, in turn, on a source that it read; a
round without a source of its own reads an empty one. -/
structure RoundsReport (sources : List Source) (r : ProvisionReport) (count : Nat) (r' : ProvisionReport) :
    Prop where
  rounds : r'.rounds = r.rounds + count
  outcomes : r'.failures + r'.fetchReports.length = r.failures + r.fetchReports.length + count
  accounts : ∃ new used, r'.fetchReports = r.fetchReports ++ new ∧
    List.Forall₂ FetchReport.Accounts new used ∧ used.Sublist (sources ++ List.replicate count [])

theorem RoundsReport.failed {sources rest : List Source} {r r' : ProvisionReport} {count : Nat}
    (h : RoundsReport rest r.failed count r') (hrest : rest.Sublist sources) :
    RoundsReport sources r (count + 1) r' := by
  obtain ⟨hrounds, houtcomes, new, used, hnew, haccounts, hused⟩ := h
  refine ⟨?_, ?_, new, used, hnew, haccounts, hused.trans ?_⟩
  · rw [hrounds]
    change r.rounds + 1 + count = _
    omega
  · rw [houtcomes]
    change r.failures + 1 + r.fetchReports.length + count = _
    omega
  · exact hrest.append ((List.replicate_sublist_replicate _).2 (Nat.le_succ count))

theorem RoundsReport.fetched {sources : List Source} {r r' : ProvisionReport} {count : Nat} {f : FetchReport}
    (h : RoundsReport sources.tail (r.fetched f) count r') (hf : f.Accounts (sources.headD [])) :
    RoundsReport sources r (count + 1) r' := by
  obtain ⟨hrounds, houtcomes, new, used, hnew, haccounts, hused⟩ := h
  have hreports : (r.fetched f).fetchReports = r.fetchReports ++ [f] := rfl
  refine ⟨?_, ?_, f :: new, sources.headD [] :: used, ?_, .cons hf haccounts, ?_⟩
  · rw [hrounds]
    change r.rounds + 1 + count = _
    omega
  · rw [houtcomes, hreports, List.length_append]
    change r.failures + (r.fetchReports.length + 1) + count = _
    omega
  · rw [hnew, hreports, List.append_assoc]
    rfl
  · cases sources with
    | nil => exact hused.cons_cons []
    | cons source rest =>
        refine List.Sublist.cons_cons source (hused.trans ?_)
        exact (List.Sublist.refl rest).append ((List.replicate_sublist_replicate _).2 (Nat.le_succ count))

/-- The rounds on a connection report on the sources that they read, one after the other. -/
theorem rounds_ends (sub : Subscription) (f : Fetching) (left : Nat) (r : ProvisionReport) :
    Ends (rounds s sub f left r) w (fun r' _ => RoundsReport w.sources r left r')
      (overflowIn s.rate (w.sources.flatMap payloads)) := by
  induction left generalizing r w with
  | zero => exact ends_pure ⟨rfl, rfl, [], [], by simp, .nil, by simp⟩
  | succ left ih =>
      unfold rounds
      refine ((provision_ends sub).mono (fun _ _ h => h) fun _ _ h => h.overflowIn).bind
        fun result w₁ h₁ => ?_
      cases result with
      | error e =>
          have hrest : w₁.sources.Sublist w.sources := by
            rcases h₁ with h | h
            · rw [h]
            · rw [h]
              exact List.tail_sublist _
          exact (ih r.failed).mono (fun r' _ h => h.failed hrest) fun _ _ h =>
            h.mono (hrest.flatMap payloads).subset
      | ok source =>
          obtain ⟨rfl, htail⟩ := h₁
          refine ((fetchAll_ends f (w.sources.headD [])).mono (fun _ _ h => h) fun _ _ h => h.mono ?_).bind
            fun report w₂ h₂ => ?_
          · cases w.sources with
            | nil => exact List.nil_subset _
            | cons source rest => exact List.subset_append_left _ _
          · obtain ⟨hsources, haccounts⟩ := h₂
            have hsources₂ : w₂.sources = w.sources.tail := hsources.trans htail
            refine (ih (r.fetched report)).mono (fun r' _ h => ?_) fun _ _ h => h.mono ?_
            · rw [hsources₂] at h
              exact h.fetched haccounts
            · rw [hsources₂]
              exact ((List.tail_sublist w.sources).flatMap payloads).subset

/-! ### Connections -/

theorem finishSideChannels_ends (idle : Nat) :
    Ends (finishSideChannels s idle) w (fun _ _ => True) (atHorizon fun _ => True) := by
  unfold finishSideChannels
  refine ends_get_bind (((waitUntil_ends _).mono (fun _ _ _ => trivial) fun _ _ h => ⟨h.1, trivial⟩).bind
    fun _ w₁ (_ : True) => ?_)
  refine Ends.bind (ends_modify trivial : Ends _ w₁ (fun _ _ => True) _) fun _ w₂ _ => ends_get_bind ?_
  exact ((waitUntil_ends _).mono (fun _ _ _ => trivial) fun _ _ h => ⟨h.1, trivial⟩).bind
    fun _ _ (_ : True) => ends_modify trivial

theorem exec_orElseOverflow {α : Type} (x : Run σ α) (substitute : α) (w : World σ) :
    exec (orElseOverflow x substitute) w =
      match exec x w with
      | (.error .overflow, w') => (.ok substitute, w')
      | result => result := by
  unfold exec orElseOverflow ExceptT.run StateT.run
  simp only [ExceptT.mk, bind, StateT.bind]
  rcases x w with ⟨(_ | _) | a, w'⟩ <;> rfl

/-- A substitute stands in where something overflowed, and only there. -/
theorem orElseOverflow_ends {α : Type} {x : Run σ α} (substitute : α) {post : α → World σ → Prop}
    {rate : Decimal} {payloads : List Text.Bytes} (hx : Ends x w post (overflowIn rate payloads)) :
    Ends (orElseOverflow x substitute) w
      (fun a w' => post a w' ∨ a = substitute ∧ ∃ payload ∈ payloads, Overflows rate payload)
      (atHorizon fun _ => True) := by
  rcases hexec : exec x w with ⟨(_ | _) | a, w'⟩
  · rw [Ends, exec_orElseOverflow, hexec]
    exact .inr ⟨rfl, hx.error hexec rfl⟩
  · rw [Ends, exec_orElseOverflow, hexec]
    exact ⟨rfl, trivial⟩
  · rw [Ends, exec_orElseOverflow, hexec]
    exact .inl (hx.ok hexec)

/-- The report on a connection covers all its rounds and accounts for every message that they fetched,
unless one of the messages overflows; then there is nothing in it. -/
theorem generation_ends (p : Plan) (sources : List Source) :
    Ends (generation s p sources) w
      (fun report _ => RoundsReport sources ProvisionReport.zero Limits.provisionRounds report ∨
        report = ProvisionReport.zero ∧ ∃ payload ∈ sources.flatMap payloads, Overflows s.rate payload)
      (atHorizon fun _ => True) := by
  unfold generation
  apply Ends.bind (ends_modify rfl : Ends _ w (fun _ w₁ => w₁.sources = sources) _)
  intro _ w₁ h₁
  have hrounds := orElseOverflow_ends ProvisionReport.zero
    (rounds_ends (s := s) (w := w₁) p.subscription p.fetching Limits.provisionRounds ProvisionReport.zero)
  rw [h₁] at hrounds
  apply hrounds.bind
  intro report w₂ h₂
  exact (finishSideChannels_ends p.idle).bind fun _ _ _ => ends_pure h₂

end Run

end UsageLedger.Delivery
