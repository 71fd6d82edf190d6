import UsageLedger.Proofs.Delivery.Concurrency
import UsageLedger.Proofs.Delivery.Reporting

/-! Alerts of concurrent consumers. A posting and the reading of the balance that it leaves are two steps, and
others post in between; so a consumer may read less than its own posting left, or more. Still no event is
alerted about twice, since only the settlement that heard of its posting offers the alert, and once. And
where no call fails, whoever posts last for a user reads what the user has in the end, so that a user with
nothing left is never passed over. -/

namespace UsageLedger.Delivery

open Ledger Program

/-! ### A settlement and its posting -/

/-- How far a settlement is with a posting of its own: it has heard of none; it has heard of one; it has read
the balance, if the ledger gave it; it has offered an alert. -/
inductive Stage
  | quiet
  | heard (st : Statement)
  | read (st : Statement) (balance : Option Decimal)
  | alerted (st : Statement) (balance : Option Decimal)

/-- The statement of a posting that is answered with success. -/
def Request.heard? : (r : Request) → r.Answer → Option Statement
  | .ledger (.create st _), some (.ok _) => some st
  | _, _ => none

def Request.alert? : Request → Option Alert
  | .alert a => some a
  | _ => none

/-- The balance that an answer gives. -/
def balanceIn : Option (Except Error Decimal) → Option Decimal
  | some (.ok balance) => some balance
  | _ => none

namespace Stage

def statement? : Stage → Option Statement
  | quiet => none
  | heard st => some st
  | read st _ => some st
  | alerted st _ => some st

/-- What was read, and of which posting. -/
def reading? : Stage → Option (Statement × Option Decimal)
  | read st balance => some (st, balance)
  | alerted st balance => some (st, balance)
  | _ => none

def after (g : Stage) : (r : Request) → r.Answer → Stage
  | .ledger (.create st _), some (.ok _) => heard st
  | .ledger (.balance _), answer =>
    match g with
    | heard st => read st (balanceIn answer)
    | g => g
  | .alert _, _ =>
    match g with
    | read st balance => alerted st balance
    | g => g
  | _, _ => g

/-- Whether a request may be made: a posting by who has heard of none, a reading of the balance by who has
heard of one, an alert by who has read that nothing is left. -/
def Allows (g : Stage) : Request → Prop
  | .ledger (.create _ _) => g = quiet
  | .ledger (.balance user) => ∃ st, g = heard st ∧ st.user = user
  | .alert alert => ∃ st balance, g = read st balance ∧ isExhausted balance = true ∧
      alert.event = st.event ∧ alert.user = st.user
  | _ => True

/-- Whether a settlement may end: no balance is to be read any more and no alert to be offered. -/
def IsSettled : Stage → Prop
  | heard _ => False
  | read _ balance => isExhausted balance = false
  | _ => True

/-- What an allowed request can come to. -/
inductive Passes (g : Stage) : (r : Request) → r.Answer → Prop
  | heard (st : Statement) (delta : Decimal) (reply : Unit) (hquiet : g = quiet) :
      Passes g (.ledger (.create st delta)) (some (.ok reply))
  | read (st : Statement) (answer : Option (Except Error Decimal)) (hheard : g = .heard st) :
      Passes g (.ledger (.balance st.user)) answer
  | alerted (st : Statement) (balance : Option Decimal) (alert : Alert) (outcome : Except Rejection Unit)
      (hread : g = .read st balance) (hexhausted : isExhausted balance = true)
      (hevent : alert.event = st.event) (huser : alert.user = st.user) : Passes g (.alert alert) outcome
  | stays {r : Request} {a : r.Answer} (hsame : g.after r a = g) (hheard : r.heard? a = none)
      (halert : r.alert? = none) : Passes g r a

theorem Allows.passes {g : Stage} {r : Request} (h : g.Allows r) (a : r.Answer) : g.Passes r a := by
  cases r with
  | ledger call =>
      cases call with
      | create st delta =>
          rcases a with _ | (error | reply)
          · exact .stays rfl rfl rfl
          · exact .stays rfl rfl rfl
          · exact .heard st delta reply h
      | balance user =>
          obtain ⟨st, hheard, rfl⟩ := h
          exact .read st a hheard
      | record e => exact .stays rfl rfl rfl
      | find id => exact .stays rfl rfl rfl
      | ensure user => exact .stays rfl rfl rfl
  | alert alert =>
      obtain ⟨st, balance, hread, hexhausted, hevent, huser⟩ := h
      exact .alerted st balance alert a hread hexhausted hevent huser
  | time => exact .stays rfl rfl rfl
  | bound ms => exact .stays rfl rfl rfl
  | letter payload => exact .stays rfl rfl rfl
  | acknowledge => exact .stays rfl rfl rfl
  | count metric => exact .stays rfl rfl rfl

/-- A stage keeps its statement, and there is a new one only where a posting is heard of. -/
theorem Passes.statement? {g : Stage} {r : Request} {a : r.Answer} (h : g.Passes r a) :
    (g.after r a).statement? = (r.heard? a).or g.statement? := by
  cases h with
  | heard st delta reply hquiet => rfl
  | read st answer hheard =>
      rw [hheard]
      rfl
  | alerted st balance alert outcome hread hexhausted hevent huser =>
      rw [hread]
      rfl
  | stays hsame hheard halert => rw [hsame, hheard, Option.none_or]

end Stage

/-- The surroundings of a settlement whose stage is followed. -/
def Stages : Surroundings Stage := fun r g a g' => g' = g.after r a

abbrev staging {α : Type} (ends : α → Stage → Prop) : Contract Stage α :=
  ⟨fun r g => g.Allows r, ends, fun _ => True⟩

variable {rate : Decimal} {bound : Nat} {payload : Text.Bytes} {e : Event} {g : Stage}

/-- The stage that a posting ends in. -/
def StagePosted (e : Event) : Except Setback (Option Statement) → Stage → Prop
  | .ok (some st), g => g = .heard st ∧ st.event = e.id ∧ st.user = e.user
  | _, g => g = .quiet

theorem post_stages (rate : Decimal) (e : Event) :
    (post rate e).run.Meets Stages (staging (StagePosted e)) .quiet := by
  rw [run_post]
  refine ⟨trivial, ?_⟩
  rintro answer _ rfl
  refine Meets.proceed rfl (fun _ => rfl) fun _ _ => ⟨trivial, ?_⟩
  rintro answer _ rfl
  refine Meets.proceed rfl (fun _ => rfl) fun found _ => ?_
  cases found with
  | some st => rfl
  | none =>
      refine ⟨trivial, ?_⟩
      rintro answer _ rfl
      refine Meets.proceed rfl (fun _ => rfl) fun _ _ => ?_
      rw [postStatement]
      split
      · rfl
      · split
        · trivial
        · refine ⟨trivial, ?_⟩
          rintro createdAt _ rfl
          refine ⟨rfl, ?_⟩
          rintro (_ | (error | reply)) _ rfl
          · rfl
          · rfl
          · exact ⟨rfl, rfl, rfl⟩

theorem currentBalance_stages {st : Statement} {user : String} (huser : st.user = user) :
    (currentBalance bound user).Meets Stages (staging fun balance g => g = .read st balance) (.heard st) := by
  apply Meets.request trivial
  rintro _ _ rfl
  have hallowed : (Stage.heard st).Allows (.ledger (.balance user)) := ⟨st, rfl, huser⟩
  apply Meets.request hallowed
  rintro (_ | (error | balance)) _ rfl
  · rfl
  · rfl
  · rfl

theorem alertIfExhausted_stages {st : Statement} (balance : Option Decimal) (hevent : st.event = e.id)
    (huser : st.user = e.user) :
    (alertIfExhausted e balance).Meets Stages (staging fun _ g => g.IsSettled) (.read st balance) := by
  cases balance with
  | none => exact rfl
  | some balance =>
      rw [alertIfExhausted]
      split
      · rename_i hexhausted
        apply Meets.request trivial
        rintro createdAt _ rfl
        have hallowed : (Stage.read st (some balance)).Allows (.alert (Alert.lackOfBalance e createdAt)) :=
          ⟨st, some balance, rfl, hexhausted, hevent.symm, huser.symm⟩
        apply Meets.request hallowed
        rintro (rejection | accepted) _ rfl
        · exact ⟨trivial, fun _ _ h => h ▸ trivial⟩
        · exact ⟨trivial, fun _ _ h => h ▸ trivial⟩
      · rename_i hleft
        exact Bool.eq_false_iff.2 hleft

theorem attemptPosted_stages {posted : Except Setback (Option Statement)} (hposted : StagePosted e posted g) :
    (attemptPosted bound e posted).Meets Stages
      (staging fun result g => g.IsSettled ∧ ∀ error, result = .error error → g = .quiet) g := by
  rcases posted with (_ | error) | (_ | st)
  · obtain rfl : g = .quiet := hposted
    exact ⟨trivial, fun _ _ => rfl⟩
  · obtain rfl : g = .quiet := hposted
    exact ⟨trivial, fun _ _ => rfl⟩
  · obtain rfl : g = .quiet := hposted
    refine ⟨trivial, ?_⟩
    rintro _ _ rfl
    exact ⟨trivial, fun _ _ => rfl⟩
  · obtain ⟨rfl, hevent, huser⟩ := hposted
    apply Meets.request trivial
    rintro _ _ rfl
    apply Meets.bind (currentBalance_stages huser)
    rintro balance _ rfl
    refine Meets.bind (alertIfExhausted_stages balance hevent huser) fun _ _ hsettled => ?_
    exact ⟨hsettled, fun _ h => by cases h⟩

/-- An attempt that fails has heard of no posting. -/
theorem attempt_stages (rate : Decimal) (bound : Nat) (payload : Text.Bytes) :
    (attempt rate bound payload).Meets Stages
      (staging fun result g => g.IsSettled ∧ ∀ error, result = .error error → g = .quiet) .quiet := by
  cases hdecode : Event.decode payload with
  | error error =>
      rw [attempt_of_error hdecode]
      exact ⟨trivial, fun _ _ => rfl⟩
  | ok e =>
      rw [attempt_of_ok hdecode]
      refine ⟨trivial, ?_⟩
      rintro _ _ rfl
      exact Meets.bind (post_stages rate e) fun _ _ => attemptPosted_stages

theorem attemptResults_stages (rate : Decimal) (bound : Nat) (payload : Text.Bytes) (n : Nat) :
    (attemptResults rate bound payload n).Meets Stages (staging fun _ g => g.IsSettled) .quiet := by
  induction n with
  | zero => trivial
  | succ n ih =>
      refine Meets.bind (attempt_stages rate bound payload) fun result g h => ?_
      obtain ⟨hsettled, hquiet⟩ := h
      cases result with
      | ok outcome => exact hsettled
      | error error =>
          obtain rfl := hquiet error rfl
          apply Meets.request trivial
          rintro _ _ rfl
          exact Meets.bind ih fun _ _ hsettled => hsettled

theorem conclude_stages (payload : Text.Bytes) (results : List (Except Error Outcome)) (hg : g.IsSettled) :
    (conclude payload results).Meets Stages (staging fun _ g => g.IsSettled) g := by
  unfold conclude
  split
  · exact Meets.request trivial fun _ _ h => h ▸ hg
  · apply Meets.request trivial
    rintro (rejection | accepted) _ rfl
    · exact Meets.request trivial fun _ _ h => h ▸ hg
    · apply Meets.request trivial
      rintro _ _ rfl
      exact Meets.request trivial fun _ _ h => h ▸ hg

theorem settlement_stages (rate : Decimal) (bound : Nat) (payload : Text.Bytes) :
    (settlement rate bound payload).Meets Stages (staging fun _ g => g.IsSettled) .quiet :=
  Meets.bind (attemptResults_stages rate bound payload Limits.attempts) fun results _ hg =>
    conclude_stages payload results hg

/-! ### Alerts of a fleet -/

variable {ι σ : Type} [DecidableEq ι] {s : FleetSetup ι σ} {books : Books s.serve} {f f' : Fleet ι σ}
  {m : σ} {i : ι} {who : ι × Nat} {offered : List ((ι × Nat) × Alert)} {stage : ι × Nat → Stage}

/-- The alert that is offered next in a settlement, if the next request is an offer. -/
def Handling.alert? (h : Handling) : Option Alert :=
  match h.rest with
  | .ask r _ => r.alert?
  | _ => none

/-- The alert that a move offers, and on which delivery. -/
def Fleet.alert? (f : Fleet ι σ) : Move ι → Option ((ι × Nat) × Alert)
  | .turn i _ =>
    (f.workers i).hand.bind fun h => h.alert?.map fun a => ((i, (f.workers i).finished.length), a)
  | .late _ => none

/-- The alerts that some moves offer, the newest first. -/
def Fleet.alerts (s : FleetSetup ι σ) (f : Fleet ι σ) : List (Move ι) → List ((ι × Nat) × Alert)
  | [] => []
  | move :: before => ((f.after s before).alert? move).toList ++ f.alerts s before

/-- Whether the settlement of a delivery has posted a statement. -/
def Fleet.HasPosted (s : FleetSetup ι σ) (f : Fleet ι σ) (who : ι × Nat) (st : Statement) : Prop :=
  ∃ c ∈ f.crossings, c.caller? = some who ∧ c.posting? s.serve = some st

/-- The newest statement that was posted for a user. -/
def Fleet.newest? (s : FleetSetup ι σ) (f : Fleet ι σ) (user : String) : Option Statement :=
  (f.posted s).find? fun st => st.user = user

/-- Whether an alert is about the posting of a statement. -/
def IsAbout (a : Alert) (st : Statement) : Prop := a.event = st.event ∧ a.user = st.user

/-- Whether the alerts that were offered are those of the settlements whose stage says so, one each, on
balances that left nothing. -/
structure Alerting (offered : List ((ι × Nat) × Alert)) (stage : ι × Nat → Stage) : Prop where
  once : (offered.map (·.1)).Nodup
  about : ∀ who a, (who, a) ∈ offered → ∃ st balance, stage who = .alerted st balance ∧ IsAbout a st
  alerted : ∀ who st balance, stage who = .alerted st balance →
    isExhausted balance = true ∧ ∃ a, (who, a) ∈ offered ∧ IsAbout a st

/-- The stages after a request in the settlement of a delivery. -/
def stagesAfter (stage : ι × Nat → Stage) (who : ι × Nat) (r : Request) (a : r.Answer) : ι × Nat → Stage :=
  Function.update stage who ((stage who).after r a)

theorem stagesAfter_self {r : Request} {a : r.Answer} :
    stagesAfter stage who r a who = (stage who).after r a := Function.update_self ..

theorem stagesAfter_of_ne {r : Request} {a : r.Answer} {other : ι × Nat} (h : other ≠ who) :
    stagesAfter stage who r a other = stage other := Function.update_of_ne h ..

omit [DecidableEq ι] in
/-- A request that offers nothing leaves the alerts as they are. -/
theorem Alerting.of_eq {stage' : ι × Nat → Stage} (h : Alerting offered stage)
    (hsame : ∀ who st balance, stage' who = .alerted st balance ↔ stage who = .alerted st balance) :
    Alerting offered stage' where
  once := h.once
  about who a ha := by
    obtain ⟨st, balance, hstage, habout⟩ := h.about who a ha
    exact ⟨st, balance, (hsame who st balance).2 hstage, habout⟩
  alerted who st balance hstage := h.alerted who st balance ((hsame who st balance).1 hstage)

/-- An alert is added by a settlement that has offered none. -/
theorem Alerting.cons {alert : Alert} {st : Statement} {balance : Option Decimal}
    (h : Alerting offered stage) (hread : stage who = .read st balance) (hexhausted : isExhausted balance = true)
    (habout : IsAbout alert st) :
    Alerting ((who, alert) :: offered) (Function.update stage who (.alerted st balance)) := by
  have hnew : ∀ a, (who, a) ∉ offered := by
    intro a ha
    obtain ⟨st', balance', halerted, -⟩ := h.about who a ha
    rw [hread] at halerted
    cases halerted
  constructor
  · refine List.nodup_cons.2 ⟨fun hmem => ?_, h.once⟩
    obtain ⟨⟨who', a⟩, ha, rfl⟩ := List.mem_map.1 hmem
    exact hnew a ha
  · rintro x a (_ | ⟨_, ha⟩)
    · exact ⟨st, balance, Function.update_self .., habout⟩
    · have hx : x ≠ who := fun heq => hnew a (heq ▸ ha)
      rw [Function.update_of_ne hx]
      exact h.about x a ha
  · intro x st' balance' hx
    by_cases hwho : x = who
    · subst hwho
      rw [Function.update_self] at hx
      obtain ⟨rfl, rfl⟩ := Stage.alerted.inj hx
      exact ⟨hexhausted, alert, List.mem_cons_self, habout⟩
    · rw [Function.update_of_ne hwho] at hx
      obtain ⟨hexhausted', a, ha, habout'⟩ := h.alerted x st' balance' hx
      exact ⟨hexhausted', a, List.mem_cons_of_mem _ ha, habout'⟩

theorem Alerting.after {r : Request} {a : r.Answer} (h : Alerting offered stage)
    (hpasses : (stage who).Passes r a) :
    Alerting ((r.alert?.map fun alert => (who, alert)).toList ++ offered) (stagesAfter stage who r a) := by
  have hkept : ∀ g, (∀ st balance, g = .alerted st balance ↔ stage who = .alerted st balance) →
      Alerting offered (Function.update stage who g) := by
    intro g hg
    refine h.of_eq fun x st balance => ?_
    by_cases hx : x = who
    · rw [hx, Function.update_self, hg]
    · rw [Function.update_of_ne hx]
  cases hpasses with
  | heard st delta reply hquiet => exact hkept _ (by simp [Stage.after, hquiet])
  | read st answer hheard => exact hkept _ (by simp [Stage.after, hheard])
  | alerted st balance alert outcome hread hexhausted hevent huser =>
      have hafter : (stage who).after (.alert alert) outcome = .alerted st balance := by
        rw [hread]
        rfl
      change Alerting _ (Function.update stage who _)
      rw [hafter]
      exact h.cons hread hexhausted ⟨hevent, huser⟩
  | stays hsame hheard halert =>
      rw [halert]
      exact hkept _ (by simp [hsame])

/-- Whether `stage` says how far every settlement is, and `offered` which alerts were offered. -/
structure Fleet.Follows (s : FleetSetup ι σ) (offered : List ((ι × Nat) × Alert))
    (stage : ι × Nat → Stage) (f : Fleet ι σ) : Prop where
  hands : ∀ i h, (f.workers i).hand = some h →
    h.rest.Meets Stages (staging fun _ g => g.IsSettled) (stage (i, (f.workers i).finished.length))
  finished : ∀ i k, k < (f.workers i).finished.length → (stage (i, k)).IsSettled
  waiting : ∀ i k, (f.workers i).begun ≤ k → stage (i, k) = .quiet
  posted : ∀ who st, (stage who).statement? = some st → f.HasPosted s who st
  alerting : Alerting offered stage

omit [DecidableEq ι] in
theorem Fleet.follows_start (s : FleetSetup ι σ) (m : σ) : (s.start m).Follows s [] fun _ => .quiet where
  hands _ _ h := by cases h
  finished _ _ h := by cases h
  waiting _ _ _ := rfl
  posted _ _ h := by cases h
  alerting := ⟨List.nodup_nil, by simp, by simp⟩

theorem Worker.begun_of_hand {w : Worker} (h : w.hand = none) : w.begun = w.finished.length := by
  simp [Worker.begun, h]

theorem Fleet.Follows.take {payload : Text.Bytes} (hf : f.Follows s offered stage)
    (hhand : (f.workers i).hand = none) :
    (f.put i ⟨(f.workers i).finished,
      some ⟨0, settlement (s.rate i) (s.attemptTimeout i) payload⟩⟩).Follows s offered stage := by
  have hbegun := Worker.begun_of_hand hhand
  refine ⟨?_, ?_, ?_, hf.posted, hf.alerting⟩
  · intro j h hj
    by_cases hji : j = i
    · subst hji
      simp only [put, Function.update_self, Option.some.injEq] at hj ⊢
      subst hj
      rw [hf.waiting j _ hbegun.le]
      exact settlement_stages _ _ _
    · simp only [put, Function.update_of_ne hji] at hj ⊢
      exact hf.hands j h hj
  · intro j k hk
    by_cases hji : j = i
    · subst hji
      simp only [put, Function.update_self] at hk
      exact hf.finished j k hk
    · simp only [put, Function.update_of_ne hji] at hk
      exact hf.finished j k hk
  · intro j k hk
    by_cases hji : j = i
    · subst hji
      simp only [put, Function.update_self, Worker.begun] at hk
      exact hf.waiting j k (hbegun.le.trans ((Nat.le_add_right _ _).trans hk))
    · simp only [put, Function.update_of_ne hji] at hk
      exact hf.waiting j k hk

theorem Fleet.Follows.finish {asked : Nat} {t : Settlement} (hf : f.Follows s offered stage)
    (hhand : (f.workers i).hand = some ⟨asked, .done t⟩) :
    (f.put i ⟨(f.workers i).finished ++ [t], none⟩).Follows s offered stage := by
  refine ⟨?_, ?_, ?_, hf.posted, hf.alerting⟩
  · intro j h hj
    by_cases hji : j = i
    · subst hji
      simp [put] at hj
    · simp only [put, Function.update_of_ne hji] at hj ⊢
      exact hf.hands j h hj
  · intro j k hk
    by_cases hji : j = i
    · subst hji
      simp only [put, Function.update_self, List.length_append, List.length_singleton] at hk
      rcases Nat.lt_succ_iff_lt_or_eq.1 hk with hold | rfl
      · exact hf.finished j k hold
      · exact hf.hands j _ hhand
    · simp only [put, Function.update_of_ne hji] at hk
      exact hf.finished j k hk
  · intro j k hk
    by_cases hji : j = i
    · subst hji
      refine hf.waiting j k ?_
      simpa [put, Worker.begun, hhand] using hk
    · simp only [put, Function.update_of_ne hji] at hk
      exact hf.waiting j k hk

theorem Request.heard?_eq_some {r : Request} {a : r.Answer} {st : Statement} (h : r.heard? a = some st) :
    ∃ delta, r = .ledger (.create st delta) ∧ HEq a (some (Except.ok ()) : Option (Except Error Unit)) := by
  cases r with
  | ledger call =>
      cases call with
      | create st' delta =>
          rcases a with _ | (error | reply)
          · cases h
          · cases h
          · obtain rfl := Option.some.inj h
            exact ⟨delta, rfl, HEq.rfl⟩
      | _ => cases h
  | _ => cases h

omit [DecidableEq ι] in
/-- Where a posting is heard of, the call was served and has posted. -/
theorem Chance.posting?_of_heard? {chance : Chance} {r : Request} {st : Statement} (who : ι × Nat)
    (h : r.heard? (chance.answer s.serve m r) = some st) :
    ∃ c ∈ chance.crossing m who r, c.caller? = some who ∧ c.posting? s.serve = some st := by
  obtain ⟨delta, rfl, hanswer⟩ := Request.heard?_eq_some h
  obtain ⟨hserved, hok⟩ := Treatment.answer_eq_ok (eq_of_heq hanswer)
  refine ⟨_, List.mem_singleton_self _, rfl, ?_⟩
  rw [Crossing.posting?, hserved, Call.posting?, hok]
  rfl

theorem Fleet.Follows.ask {chance : Chance} {asked : Nat} {r : Request} {next : r.Answer → Program Settlement}
    (hf : f.Follows s offered stage) (hhand : (f.workers i).hand = some ⟨asked, .ask r next⟩) :
    (f.ask s i chance asked r next).Follows s
      ((r.alert?.map fun a => ((i, (f.workers i).finished.length), a)).toList ++ offered)
      (stagesAfter stage (i, (f.workers i).finished.length) r (chance.answer s.serve f.ledger r)) := by
  obtain ⟨hallows, hnext⟩ := hf.hands i _ hhand
  have hpasses := hallows.passes (chance.answer s.serve f.ledger r)
  have hlength : ∀ j, ((f.ask s i chance asked r next).workers j).finished = (f.workers j).finished := by
    intro j
    by_cases hji : j = i
    · subst hji
      simp [Fleet.ask]
    · simp [Fleet.ask, hji]
  have hbegun : ∀ j, ((f.ask s i chance asked r next).workers j).begun = (f.workers j).begun := by
    intro j
    by_cases hji : j = i
    · subst hji
      simp [Fleet.ask, Worker.begun, hhand]
    · simp [Fleet.ask, hji]
  refine ⟨?_, ?_, ?_, ?_, hf.alerting.after hpasses⟩
  · intro j h hj
    by_cases hji : j = i
    · subst hji
      rw [hlength, stagesAfter_self]
      simp only [Fleet.ask, Function.update_self, Option.some.injEq] at hj
      subst hj
      exact hnext _ _ rfl
    · rw [hlength, stagesAfter_of_ne fun heq => hji (congrArg Prod.fst heq)]
      simp only [Fleet.ask, Function.update_of_ne hji] at hj
      exact hf.hands j h hj
  · intro j k hk
    rw [hlength] at hk
    rw [stagesAfter_of_ne]
    · exact hf.finished j k hk
    · rintro heq
      obtain ⟨rfl, rfl⟩ := Prod.mk.inj heq
      exact absurd hk (lt_irrefl _)
  · intro j k hk
    rw [hbegun] at hk
    rw [stagesAfter_of_ne]
    · exact hf.waiting j k hk
    · rintro heq
      obtain ⟨rfl, rfl⟩ := Prod.mk.inj heq
      simp [Worker.begun, hhand] at hk
  · intro who st hst
    have hold : f.HasPosted s who st → (f.ask s i chance asked r next).HasPosted s who st := by
      rintro ⟨c, hc, hcaller, hposting⟩
      exact ⟨c, List.mem_append_right _ hc, hcaller, hposting⟩
    by_cases hwho : who = (i, (f.workers i).finished.length)
    · rw [hwho, stagesAfter_self, hpasses.statement?] at hst
      rcases Option.or_eq_some_iff.1 hst with hnew | ⟨-, hsame⟩
      · obtain ⟨c, hc, hcaller, hposting⟩ := Chance.posting?_of_heard? who hnew
        rw [hwho] at hc hcaller
        exact ⟨c, List.mem_append_left _ hc, hwho ▸ hcaller, hposting⟩
      · exact hold (hf.posted who st (hwho ▸ hsame))
    · rw [stagesAfter_of_ne hwho] at hst
      exact hold (hf.posted who st hst)

/-! ### Readings where nothing fails -/

/-- What is known where no call has failed: every posting was heard of, and whoever has posted last for a user
and has read the balance has read what the user holds. -/
structure Fleet.Knows (books : Books s.serve) (stage : ι × Nat → Stage) (f : Fleet ι σ) : Prop where
  heard : ∀ st ∈ f.posted s, ∃ who, (stage who).statement? = some st
  read : ∀ who st balance, (stage who).reading? = some (st, balance) → f.newest? s st.user = some st →
    ∃ b, balance = some b ∧ b.value = books.holding f.ledger st.user

omit [DecidableEq ι] in
theorem Fleet.knows_start (s : FleetSetup ι σ) (books : Books s.serve) (m : σ) :
    (s.start m).Knows books fun _ => .quiet where
  heard _ h := by simp [FleetSetup.start, posted] at h
  read _ _ _ h := by cases h

omit [DecidableEq ι] in
/-- A move that posts nothing and in which no balance is read of a posting. -/
theorem Fleet.Knows.of_eq {stage' : ι × Nat → Stage} (hf : f.Knows books stage)
    (hholding : ∀ user, books.holding f'.ledger user = books.holding f.ledger user)
    (hposted : f'.posted s = f.posted s) (hstatement : ∀ who, (stage' who).statement? = (stage who).statement?)
    (hreading : ∀ who, (stage' who).reading? = (stage who).reading?) : f'.Knows books stage' := by
  constructor
  · intro st hst
    rw [hposted] at hst
    obtain ⟨who, hwho⟩ := hf.heard st hst
    exact ⟨who, by rw [hstatement, hwho]⟩
  · intro who st balance hread hnewest
    rw [newest?, hposted] at hnewest
    rw [hreading] at hread
    rw [hholding]
    exact hf.read who st balance hread hnewest

/-- A move in which a settlement reads the balance that its posting has left, or that has been left since. -/
theorem Fleet.Knows.reading {st : Statement} {balance : Decimal} (hf : f.Knows books stage)
    (hholding : ∀ user, books.holding f'.ledger user = books.holding f.ledger user)
    (hposted : f'.posted s = f.posted s) (hheard : stage who = .heard st)
    (hbalance : balance.value = books.holding f.ledger st.user) :
    f'.Knows books (Function.update stage who (.read st (some balance))) := by
  constructor
  · intro st' hst'
    rw [hposted] at hst'
    obtain ⟨x, hx⟩ := hf.heard st' hst'
    refine ⟨x, ?_⟩
    by_cases hwho : x = who
    · rw [hwho, hheard] at hx
      rw [hwho, Function.update_self]
      exact hx
    · rw [Function.update_of_ne hwho, hx]
  · intro x st' balance' hread hnewest
    rw [newest?, hposted] at hnewest
    rw [hholding]
    by_cases hwho : x = who
    · rw [hwho, Function.update_self] at hread
      obtain ⟨rfl, rfl⟩ := Prod.mk.inj (Option.some.inj hread)
      exact ⟨balance, rfl, hbalance⟩
    · rw [Function.update_of_ne hwho] at hread
      exact hf.read x st' balance' hread hnewest

/-- A move that posts: its own settlement hears of it, and whoever has read a balance of the same user is not the
last to have posted for the user any more. -/
theorem Fleet.Knows.posting {call : Call} {st : Statement} (hf : f.Knows books stage)
    (hmine : ∀ x st', (stage x).statement? = some st' → st' ∈ f.posted s) (hquiet : stage who = .quiet)
    (hsound : books.sound f.ledger) (haccounts : f'.Accounts books m)
    (hposting : call.posting? s.serve f.ledger = some st) (hledger : f'.ledger = (s.serve call f.ledger).2)
    (hposted : f'.posted s = st :: f.posted s) :
    f'.Knows books (Function.update stage who (.heard st)) := by
  have hother : ∀ x, (stage x).statement? ≠ none → x ≠ who := by
    rintro x hx rfl
    rw [hquiet] at hx
    exact hx rfl
  constructor
  · intro st' hst'
    rw [hposted] at hst'
    rcases List.mem_cons.1 hst' with rfl | hold
    · exact ⟨who, by rw [Function.update_self]; rfl⟩
    · obtain ⟨x, hx⟩ := hf.heard st' hold
      exact ⟨x, by rw [Function.update_of_ne (hother x (by simp [hx])), hx]⟩
  · intro x st' balance hread hnewest
    have hwho : x ≠ who := by
      rintro rfl
      rw [Function.update_self] at hread
      cases hread
    rw [Function.update_of_ne hwho] at hread
    have hstatement : (stage x).statement? = some st' := by
      cases hx : stage x with
      | quiet =>
          rw [hx] at hread
          cases hread
      | heard st'' =>
          rw [hx] at hread
          cases hread
      | read st'' balance' =>
          rw [hx] at hread
          exact congrArg (Option.map Prod.fst) hread
      | alerted st'' balance' =>
          rw [hx] at hread
          exact congrArg (Option.map Prod.fst) hread
    have hmem : st' ∈ f.posted s := hmine x st' hstatement
    rw [newest?, hposted, List.find?_cons] at hnewest
    split at hnewest
    · -- the new posting would be the reader's own, which was there before
      obtain rfl := Option.some.inj hnewest
      have honce := haccounts.once
      rw [hposted, List.map_cons, List.nodup_cons] at honce
      exact (honce.1 (List.mem_map_of_mem hmem)).elim
    · rename_i huser
      have hne : ∀ st'', call.posting? s.serve f.ledger = some st'' → st''.user ≠ st'.user := by
        intro st'' hst''
        rw [hposting] at hst''
        obtain rfl := Option.some.inj hst''
        simpa using huser
      rw [hledger, books.holding_serve call st'.user hsound hne]
      exact hf.read x st' balance hread hnewest

theorem Fleet.posted_ask_ledger {chance : Chance} {asked : Nat} {call : Call}
    {next : (Request.ledger call).Answer → Program Settlement} (hserved : chance.treatment = .served) :
    (f.ask s i chance asked (.ledger call) next).posted s =
      (call.posting? s.serve f.ledger).toList ++ f.posted s := by
  have hposting : Crossing.posting? s.serve
      (⟨some (i, (f.workers i).finished.length), call, chance.treatment, f.ledger⟩ : Crossing ι σ) =
        call.posting? s.serve f.ledger := by
    rw [Crossing.posting?, hserved]
    rfl
  change List.filterMap (Crossing.posting? s.serve) (_ :: f.crossings) = _
  rw [List.filterMap_cons, hposting]
  cases call.posting? s.serve f.ledger <;> rfl

/-- Of a call that was served, what was heard is what was posted. -/
theorem Request.heard?_served (serve : Service σ) (call : Call) (m : σ) :
    (Request.ledger call).heard? (some (serve call m).1) = call.posting? serve m := by
  cases call with
  | create st delta =>
      rw [Call.posting?]
      cases (serve (.create st delta) m).1 <;> rfl
  | _ => rfl

/-- A request by which nothing is heard and no balance is read. -/
theorem stagesAfter_keeps {r : Request} {a : r.Answer} (hpasses : (stage who).Passes r a)
    (hr : ∀ user, r ≠ .ledger (.balance user)) (hheard : r.heard? a = none) (x : ι × Nat) :
    (stagesAfter stage who r a x).statement? = (stage x).statement? ∧
      (stagesAfter stage who r a x).reading? = (stage x).reading? := by
  by_cases hx : x = who
  · subst hx
    rw [stagesAfter_self, hpasses.statement?, hheard, Option.none_or]
    refine ⟨rfl, ?_⟩
    cases hpasses with
    | heard st delta reply hquiet => cases hheard
    | read st answer hg => exact (hr st.user rfl).elim
    | alerted st balance alert outcome hread hexhausted hevent huser =>
        rw [hread]
        rfl
    | stays hsame _ halert => rw [hsame]
  · rw [stagesAfter_of_ne hx]
    exact ⟨rfl, rfl⟩

theorem Fleet.Knows.ask {chance : Chance} {asked : Nat} {r : Request} {next : r.Answer → Program Settlement}
    (hf : f.Knows books stage) (hreads : books.ReadsBalances) (hfollows : f.Follows s offered stage)
    (hsound : books.sound f.ledger) (haccounts : (f.ask s i chance asked r next).Accounts books m)
    (hserved : ∀ call, r = .ledger call → chance.treatment = .served ∧ Delivery.IsClean s.serve call f.ledger)
    (hhand : (f.workers i).hand = some ⟨asked, .ask r next⟩) :
    (f.ask s i chance asked r next).Knows books
      (stagesAfter stage (i, (f.workers i).finished.length) r (chance.answer s.serve f.ledger r)) := by
  have hallows := (hfollows.hands i _ hhand).1
  cases r with
  | ledger call =>
      obtain ⟨htreatment, hclean⟩ := hserved call rfl
      have hanswer : chance.answer s.serve f.ledger (.ledger call) = some (s.serve call f.ledger).1 := by
        change chance.treatment.answer s.serve call f.ledger = _
        rw [htreatment]
        rfl
      have hledger : (f.ask s i chance asked (.ledger call) next).ledger = (s.serve call f.ledger).2 := by
        change chance.treatment.ledger s.serve call f.ledger = _
        rw [htreatment]
        rfl
      have hposted : (f.ask s i chance asked (.ledger call) next).posted s = _ := posted_ask_ledger htreatment
      rw [hanswer]
      cases hposting : call.posting? s.serve f.ledger with
      | some st =>
          rw [hposting] at hposted
          obtain ⟨delta, rfl, hok⟩ := Call.posting?_eq_some hposting
          rw [hok]
          refine hf.posting (fun x st' hst' => ?_) hallows hsound haccounts hposting hledger hposted
          obtain ⟨c, hc, -, hst'⟩ := hfollows.posted x st' hst'
          exact List.mem_filterMap.2 ⟨c, hc, hst'⟩
      | none =>
          rw [hposting, Option.toList_none, List.nil_append] at hposted
          have hholding : ∀ user, books.holding (f.ask s i chance asked (.ledger call) next).ledger user =
              books.holding f.ledger user := by
            intro user
            rw [hledger]
            exact books.holding_serve call user hsound (by simp [hposting])
          by_cases hcall : ∃ user, call = .balance user
          · obtain ⟨user, rfl⟩ := hcall
            obtain ⟨st, hheard, rfl⟩ := hallows
            cases hbalance : (s.serve (.balance st.user) f.ledger).1 with
            | error error => cases hclean error hbalance
            | ok balance =>
                have hafter : (stage (i, (f.workers i).finished.length)).after (.ledger (.balance st.user))
                    (some (.ok balance)) = .read st (some balance) := by
                  rw [hheard]
                  rfl
                change Fleet.Knows books (Function.update stage _ _) _
                rw [hafter]
                exact hf.reading hholding hposted hheard (hreads _ _ _ hsound hbalance)
          · have hkeeps := stagesAfter_keeps (hallows.passes (some (s.serve call f.ledger).1))
              (fun user heq => hcall ⟨user, Request.ledger.inj heq⟩)
              ((Request.heard?_served s.serve call f.ledger).trans hposting)
            exact hf.of_eq hholding hposted (fun x => (hkeeps x).1) fun x => (hkeeps x).2
  | _ =>
      exact hf.of_eq (fun _ => rfl) rfl (fun x => (stagesAfter_keeps (hallows.passes _) (by simp) rfl x).1)
        fun x => (stagesAfter_keeps (hallows.passes _) (by simp) rfl x).2

omit [DecidableEq ι] in
theorem Fleet.Follows.late {call : Call} {abandoned : List Call} (hf : f.Follows s offered stage) :
    Fleet.Follows s offered stage { f with
      ledger := (s.serve call f.ledger).2
      abandoned := abandoned
      crossings := ⟨none, call, .overdue, f.ledger⟩ :: f.crossings } where
  hands := hf.hands
  finished := hf.finished
  waiting := hf.waiting
  posted who st hst := by
    obtain ⟨c, hc, hcaller, hposting⟩ := hf.posted who st hst
    exact ⟨c, List.mem_cons_of_mem _ hc, hcaller, hposting⟩
  alerting := hf.alerting

/-- After a move there are stages again, and what was read is known if the move did not fail either. -/
theorem Fleet.follows_next {move : Move ι} (hreads : books.ReadsBalances) (hfollows : f.Follows s offered stage)
    (hknows : (f.next s move).IsClean s → f.Knows books stage) (hsound : books.sound f.ledger)
    (haccounts : (f.next s move).Accounts books m) :
    ∃ stage', (f.next s move).Follows s ((f.alert? move).toList ++ offered) stage' ∧
      ((f.next s move).IsClean s → (f.next s move).Knows books stage') := by
  cases move with
  | late n =>
      refine ⟨stage, ?_⟩
      cases hcall : f.abandoned[n]? with
      | none =>
          have hnext : f.next s (.late n) = f := by
            change f.late s n = f
            rw [late, hcall]
          rw [hnext] at hknows ⊢
          exact ⟨hfollows, hknows⟩
      | some call =>
          have hnext : f.next s (.late n) = { f with
              ledger := (s.serve call f.ledger).2
              abandoned := f.abandoned.eraseIdx n
              crossings := ⟨none, call, .overdue, f.ledger⟩ :: f.crossings } := by
            change f.late s n = _
            rw [late, hcall]
          rw [hnext]
          refine ⟨hfollows.late, fun hclean => ?_⟩
          -- what is executed late was given up before, so this run has failed
          cases (hclean _ List.mem_cons_self).1
  | turn i chance =>
      have hoffer : f.alert? (.turn i chance) = (f.workers i).hand.bind fun h =>
          h.alert?.map fun a => ((i, (f.workers i).finished.length), a) := rfl
      have hturn : f.next s (.turn i chance) = f.turn s i chance := rfl
      rw [turn] at hturn
      rcases hhand : (f.workers i).hand with _ | ⟨asked, (t | _ | ⟨r, next⟩)⟩
      · rw [hhand] at hturn hoffer
        rw [hoffer]
        refine ⟨stage, ?_⟩
        dsimp only at hturn
        split at hturn
        · rw [hturn] at hknows ⊢
          exact ⟨hfollows, hknows⟩
        · rw [hturn] at hknows ⊢
          exact ⟨hfollows.take hhand, fun hclean =>
            (hknows hclean).of_eq (fun _ => rfl) rfl (fun _ => rfl) fun _ => rfl⟩
      · rw [hhand] at hturn hoffer
        rw [hoffer, hturn]
        rw [hturn] at hknows
        exact ⟨stage, hfollows.finish hhand, fun hclean =>
          (hknows hclean).of_eq (fun _ => rfl) rfl (fun _ => rfl) fun _ => rfl⟩
      · rw [hhand] at hturn hoffer
        rw [hoffer, hturn]
        rw [hturn] at hknows
        exact ⟨stage, hfollows, hknows⟩
      · rw [hhand] at hturn hoffer
        rw [hoffer, hturn]
        rw [hturn] at hknows haccounts
        refine ⟨_, hfollows.ask hhand, fun hclean => ?_⟩
        refine (hknows hclean).ask hreads hfollows hsound haccounts ?_ hhand
        rintro call rfl
        exact hclean _ List.mem_cons_self

/-- Whatever the moves, every settlement is at some stage; and where no call has failed, what was read is
known. -/
theorem Fleet.follows_after (books : Books s.serve) (hreads : books.ReadsBalances) (hsound : books.sound m)
    (moves : List (Move ι)) :
    ∃ stage, ((s.start m).after s moves).Follows s ((s.start m).alerts s moves) stage ∧
      (((s.start m).after s moves).IsClean s → ((s.start m).after s moves).Knows books stage) := by
  induction moves with
  | nil => exact ⟨_, follows_start s m, fun _ => knows_start s books m⟩
  | cons move before ih =>
      obtain ⟨stage, hfollows, hknows⟩ := ih
      have haccounts := (isLawful_and_accounts books hsound before).2
      have hstep := next_step s ((s.start m).after s before) move
      exact follows_next hreads hfollows (fun h => hknows (hstep.isClean h)) haccounts.sound
        (isLawful_and_accounts books hsound (move :: before)).2

omit [DecidableEq ι] in
theorem Fleet.Follows.credits {offered : List ((ι × Nat) × Alert)} {stage : ι × Nat → Stage} {who : ι × Nat}
    {st : Statement} (hf : f.Follows s offered stage) (h : (stage who).statement? = some st) :
    f.Credits s st.event who := by
  obtain ⟨c, hc, hcaller, hposting⟩ := hf.posted who st h
  exact ⟨c, hc, hcaller, st, hposting, rfl⟩

omit [DecidableEq ι] in
/-- Alerts about one event come from the one settlement that has posted it, which offers one alert at most. -/
theorem Fleet.Follows.nodup_events {offered : List ((ι × Nat) × Alert)} {stage : ι × Nat → Stage}
    (hf : f.Follows s offered stage) (haccounts : f.Accounts books m) : (offered.map (·.2.event)).Nodup := by
  refine hf.alerting.once.of_map.map_on ?_
  rintro ⟨who, a⟩ ha ⟨who', a'⟩ ha' hevent
  obtain ⟨st, balance, hstage, habout⟩ := hf.alerting.about who a ha
  obtain ⟨st', balance', hstage', habout'⟩ := hf.alerting.about who' a' ha'
  have hsame : st.event = st'.event := habout.1.symm.trans (hevent.trans habout'.1)
  have hcredit : f.Credits s st'.event who := hsame ▸ hf.credits (by rw [hstage]; rfl)
  have hcredit' : f.Credits s st'.event who' := hf.credits (by rw [hstage']; rfl)
  exact List.inj_on_of_nodup_map hf.alerting.once ha ha' (haccounts.credits_unique hcredit hcredit')

omit [DecidableEq ι] in
/-- The settlement that was the last to post for a user and is finished has offered an alert about its posting if
and only if the user has nothing left. -/
theorem Fleet.Knows.alerts_iff {offered : List ((ι × Nat) × Alert)} {stage : ι × Nat → Stage} {who : ι × Nat}
    {st : Statement} (hknows : f.Knows books stage) (hf : f.Follows s offered stage)
    (hnewest : f.newest? s st.user = some st) (hwho : (stage who).statement? = some st)
    (hdone : who.2 < (f.workers who.1).finished.length) :
    (∃ a, (who, a) ∈ offered ∧ IsAbout a st) ↔ books.holding f.ledger st.user ≤ 0 := by
  have hread := hknows.read who st
  have hsettled : (stage who).IsSettled := hf.finished who.1 who.2 hdone
  cases hstage : stage who with
  | quiet =>
      rw [hstage] at hwho
      cases hwho
  | heard st' =>
      rw [hstage] at hsettled
      exact hsettled.elim
  | read st' balance =>
      rw [hstage] at hwho hsettled hread
      obtain rfl := Option.some.inj hwho
      obtain ⟨b, rfl, hb⟩ := hread balance rfl hnewest
      have hleft : ¬b.value ≤ 0 := by
        rw [← Decimal.isNonpositive_iff]
        exact Bool.eq_false_iff.1 hsettled
      rw [← hb]
      refine iff_of_false ?_ hleft
      rintro ⟨a, ha, -⟩
      obtain ⟨st'', balance', halerted, -⟩ := hf.alerting.about who a ha
      rw [hstage] at halerted
      cases halerted
  | alerted st' balance =>
      obtain ⟨hexhausted, a, ha, habout⟩ := hf.alerting.alerted who st' balance hstage
      rw [hstage] at hwho hread
      obtain rfl := Option.some.inj hwho
      obtain ⟨b, rfl, hb⟩ := hread balance rfl hnewest
      rw [← hb]
      exact iff_of_true ⟨a, ha, habout⟩ (Decimal.isNonpositive_iff.1 hexhausted)

/-- Whatever fails and in whatever order the calls come, no two alerts are about one event. And where no call
has failed, other than postings of duplicates, the settlement that was the last to post for a user offers
an alert about its event, once it is finished, exactly when the user has nothing left in the end. -/
theorem fleet_alerts_whom_it_exhausts (s : FleetSetup ι σ) (books : Books s.serve)
    (hreads : books.ReadsBalances) (m : σ) (hsound : books.sound m) (moves : List (Move ι)) :
    let f := (s.start m).after s moves
    let offered := (s.start m).alerts s moves
    (offered.map (·.2.event)).Nodup ∧
      (f.IsClean s → ∀ user, (∃ st ∈ f.posted s, st.user = user) →
        ∃ st who, f.newest? s user = some st ∧ f.Credits s st.event who ∧
          (who.2 < (f.workers who.1).finished.length →
            ((∃ a, (who, a) ∈ offered ∧ IsAbout a st) ↔ books.holding f.ledger user ≤ 0))) := by
  intro f offered
  obtain ⟨stage, hfollows, hknows⟩ := Fleet.follows_after books hreads hsound moves
  refine ⟨hfollows.nodup_events (Fleet.isLawful_and_accounts books hsound moves).2, fun hclean user hposted => ?_⟩
  obtain ⟨st, hst⟩ : ∃ st, f.newest? s user = some st := by
    rw [← Option.isSome_iff_exists, Fleet.newest?, List.find?_isSome]
    simpa using hposted
  obtain rfl : st.user = user := by simpa using List.find?_some hst
  obtain ⟨who, hwho⟩ := (hknows hclean).heard st (List.mem_of_find?_eq_some hst)
  exact ⟨st, who, hst, hfollows.credits hwho, (hknows hclean).alerts_iff hfollows hst hwho⟩

/-- Two consumers, to each of which a message is delivered that leaves a user who has nothing with less, to one
of them twice. -/
def twoDebtCollectors : FleetSetup Bool InMemory :=
  ⟨InMemory.serve, fun _ => Credit.defaultRate, fun _ => Limits.attemptTimeout,
    fun i => if i then [debit.payload, debit.payload] else [debit.payload]⟩

def collectMoves : List (Move Bool) := List.replicate 20 (.turn true goodChance) ++ raceMoves

def collected : Fleet Bool InMemory :=
  (twoDebtCollectors.start InMemory.empty).after twoDebtCollectors collectMoves

/-- In a race between them one posts, and it alerts about what it has posted. -/
theorem twoDebtCollectors_alert :
    collected.IsClean twoDebtCollectors ∧ collected.ledger.holding "u" = -1 ∧
      ∃ st who a, collected.newest? twoDebtCollectors "u" = some st ∧ IsAbout a st ∧
        (who, a) ∈ (twoDebtCollectors.start InMemory.empty).alerts twoDebtCollectors collectMoves := by
  have hrun : collected.IsClean twoDebtCollectors ∧ (∃ st ∈ collected.posted twoDebtCollectors, st.user = "u") ∧
      (collected.ledger.account? "u").map (·.balance) = some ⟨-1, 0, by decide, by decide⟩ ∧
      ∀ i, (collected.workers i).hand.isNone := by decide +kernel
  obtain ⟨hclean, hposted, hbalance, hidle⟩ := hrun
  have hheld : collected.ledger.holding "u" = -1 := by
    obtain ⟨a, ha, hvalue⟩ := Option.map_eq_some_iff.1 hbalance
    rw [InMemory.holding, ha, Option.elim_some, hvalue]
    norm_num [Decimal.value]
  have hlawful := (Fleet.isLawful_and_accounts (s := twoDebtCollectors) InMemory.books (m := InMemory.empty)
    trivial collectMoves).1
  have halerts := (fleet_alerts_whom_it_exhausts twoDebtCollectors InMemory.books InMemory.books_readsBalances
    InMemory.empty trivial collectMoves).2
  rw [← collected] at hlawful halerts
  obtain ⟨st, who, hnewest, hcredits, hiff⟩ := halerts hclean "u" hposted
  obtain ⟨c, hc, hcaller, -⟩ := hcredits
  have hdone := (hlawful.callers c hc who hcaller).2
  rw [Worker.begun_of_hand (Option.isNone_iff_eq_none.1 (hidle who.1))] at hdone
  have hholding : ∀ m user, InMemory.books.holding m user = m.holding user := fun _ _ => rfl
  have hexhausted : InMemory.books.holding collected.ledger "u" ≤ 0 := by
    rw [hholding, hheld]
    norm_num
  obtain ⟨a, ha, habout⟩ := (hiff hdone).2 hexhausted
  exact ⟨hclean, hheld, st, who, a, hnewest, habout, ha⟩

end UsageLedger.Delivery
