import UsageLedger.Proofs.Delivery.Session

/-! The exchanges of a run: its requests with their answers, in the order in which they were answered. Of
the statements that a ledger has after a run and had not before, some were posted by requests that heard
of it; the others are lost on the consumer, which was told of a failure or of nothing at all. -/

namespace UsageLedger.Delivery

open Ledger Program

variable {σ α β : Type}

/-- A request with its answer, and where the consumer stood before it and after it. -/
structure Exchange (σ : Type) where
  request : Request
  answer : request.Answer
  before : Standing σ
  after : Standing σ

namespace Exchange

/-- The statement of a posting that was answered with success. -/
def heard? : Exchange σ → Option Statement
  | ⟨.ledger (.create s _), some (.ok _), _, _⟩ => some s
  | _ => none

/-- The statement of a posting that was answered with a failure or not at all. -/
def unheard? : Exchange σ → Option Statement
  | ⟨.ledger (.create s _), some (.error _), _, _⟩ => some s
  | ⟨.ledger (.create s _), none, _, _⟩ => some s
  | _ => none

end Exchange

/-- The statements of which a consumer has heard that they were posted. -/
def heard (exchanges : List (Exchange σ)) : List Statement := exchanges.filterMap Exchange.heard?

def unheard (exchanges : List (Exchange σ)) : List Statement := exchanges.filterMap Exchange.unheard?

/-- How often something was counted. -/
def countings (metric : Metric) (exchanges : List (Exchange σ)) : Nat :=
  exchanges.countP fun x => x.request = .count metric

section Lists

variable (xs ys : List (Exchange σ)) (x : Exchange σ) (metric : Metric)

@[simp] theorem heard_append : heard (xs ++ ys) = heard xs ++ heard ys := List.filterMap_append

@[simp] theorem unheard_append : unheard (xs ++ ys) = unheard xs ++ unheard ys := List.filterMap_append

@[simp] theorem countings_append :
    countings metric (xs ++ ys) = countings metric xs + countings metric ys := List.countP_append

@[simp] theorem heard_nil : heard ([] : List (Exchange σ)) = [] := rfl

@[simp] theorem countings_nil : countings metric ([] : List (Exchange σ)) = 0 := rfl

@[simp] theorem heard_cons : heard (x :: xs) = x.heard?.toList ++ heard xs := by
  rw [heard, heard, List.filterMap_cons]
  cases x.heard? <;> rfl

@[simp] theorem unheard_singleton : unheard [x] = x.unheard?.toList := by
  rw [unheard, List.filterMap_cons]
  cases x.unheard? <;> rfl

@[simp] theorem countings_cons :
    countings metric (x :: xs) = countings metric xs + if x.request = .count metric then 1 else 0 := by
  rw [countings, countings, List.countP_cons]
  simp only [decide_eq_true_eq]

end Lists

/-- Where a consumer stands, and the exchanges so far. -/
structure Told (σ : Type) where
  standing : Standing σ
  exchanges : List (Exchange σ)

/-- The surroundings of a program whose exchanges are told. -/
def Tells (serve : Service σ) (number : Nat) : Surroundings (Told σ) := fun r t a t' =>
  Responds serve number r t.standing a t'.standing ∧
    t'.exchanges = t.exchanges ++ [⟨r, a, t.standing, t'.standing⟩]

/-! ### Runs -/

namespace Run

variable {s : Setup σ} {m : Message} {w w' : World σ}

/-- The exchanges of a program that runs in a world, up to where it is done or ended. -/
def exchanges (s : Setup σ) (m : Message) : Program α → World σ → List (Exchange σ)
  | .done _, _ => []
  | .overflow, _ => []
  | .ask r next, w =>
    match exec (answer s m r) w with
    | (.ok a, w') => ⟨r, a, w.standing, w'.standing⟩ :: exchanges s m (next a) w'
    | (.error _, _) => []

theorem exchanges_ask {r : Request} {next : r.Answer → Program α} {a : r.Answer}
    (h : exec (answer s m r) w = (.ok a, w')) :
    exchanges s m (.ask r next) w = ⟨r, a, w.standing, w'.standing⟩ :: exchanges s m (next a) w' := by
  rw [exchanges, h]

theorem exchanges_map (f : α → β) (p : Program α) (w : World σ) :
    exchanges s m (f <$> p) w = exchanges s m p w := by
  induction p generalizing w with
  | done a => rfl
  | overflow => rfl
  | ask r next ih =>
      change exchanges s m (.ask r fun a => f <$> next a) w = _
      rcases hexec : exec (answer s m r) w with ⟨halt | a, w'⟩
      · rw [exchanges, exchanges, hexec]
      · rw [exchanges_ask hexec, exchanges_ask hexec, ih]

/-- A program that meets a contract on what is told meets it in the world, with the exchanges of its run
added to those before. -/
theorem program_tells {p : Program α} {c : Contract (Told σ) α} {before : List (Exchange σ)}
    (hp : p.Meets (Tells s.serve m.number) c ⟨w.standing, before⟩) :
    Ends (program s m p) w (fun a w' => c.ends a ⟨w'.standing, before ++ exchanges s m p w⟩)
      (fun halt w' => halt = .overflow → c.overflows ⟨w'.standing, before ++ exchanges s m p w⟩) := by
  induction p generalizing w before with
  | done a =>
      rw [exchanges, List.append_nil]
      exact hp
  | overflow =>
      rw [exchanges, List.append_nil]
      exact fun _ => hp
  | ask r next ih =>
      change Ends (answer s m r >>= fun a => program s m (next a)) w _ _
      rw [Ends, exec_bind]
      rcases hexec : exec (answer s m r) w with ⟨halt | a, w'⟩
      · obtain ⟨rfl, -⟩ := (answer_ends m r).error hexec
        intro h
        cases h
      · rw [exchanges_ask hexec, List.append_cons]
        exact ih a (hp.2 a ⟨w'.standing, _⟩ ⟨(answer_ends m r).ok hexec, rfl⟩)

end Run

/-! ### What is posted -/

variable {serve : Service σ} {books : Books serve} {number : Nat} {m m₀ : σ} {posted : List Statement}
  {t t' : Told σ} {r : Request} {a : r.Answer}

/-- Whether some statements are those that a ledger has and had not before. -/
structure Posts (books : Books serve) (m₀ m : σ) (posted : List Statement) : Prop where
  events_nodup : (posted.map (·.event)).Nodup
  fresh : ∀ st ∈ posted, ¬books.has m₀ st.event
  has_iff : ∀ id, books.has m id ↔ books.has m₀ id ∨ ∃ st ∈ posted, st.event = id

theorem Posts.refl : Posts books m m [] := ⟨List.nodup_nil, by simp, by simp⟩

theorem Posts.perm {posted' : List Statement} (h : Posts books m₀ m posted) (hperm : posted.Perm posted') :
    Posts books m₀ m posted' where
  events_nodup := (hperm.map _).nodup_iff.1 h.events_nodup
  fresh st hst := h.fresh st (hperm.mem_iff.2 hst)
  has_iff id := by simp only [h.has_iff, hperm.mem_iff]

/-- A call adds what it posts. -/
theorem Posts.called (h : Posts books m₀ m posted) (hsound : books.sound m) (call : Call) :
    Posts books m₀ (serve call m).2 (posted ++ (call.posting? serve m).toList) := by
  cases hposting : call.posting? serve m with
  | none =>
      rw [Option.toList_none, List.append_nil]
      refine ⟨h.events_nodup, h.fresh, fun id => ?_⟩
      rw [books.has_serve call id hsound, ← h.has_iff]
      simp [hposting]
  | some st =>
      have hnew : ¬books.has m st.event := books.not_has_of_posting hsound hposting
      rw [h.has_iff, not_or] at hnew
      obtain ⟨hnew, hnone⟩ := hnew
      refine ⟨?_, ?_, fun id => ?_⟩
      · rw [Option.toList_some, List.map_append, List.nodup_append]
        refine ⟨h.events_nodup, List.nodup_singleton _, ?_⟩
        intro event hevent other hother heq
        obtain ⟨st', hst', rfl⟩ := List.mem_map.1 hevent
        obtain rfl := List.mem_singleton.1 hother
        exact hnone ⟨st', hst', heq⟩
      · intro st' hst'
        rcases List.mem_append.1 hst' with hold | hlast
        · exact h.fresh st' hold
        · obtain rfl := List.mem_singleton.1 hlast
          exact hnew
      · rw [books.has_serve call id hsound, h.has_iff]
        simp [hposting, or_assoc, or_and_right, exists_or]

/-- Whether all that a ledger has and had not before was heard or lost. -/
structure Accounts (books : Books serve) (m₀ : σ) (t : Told σ) : Prop where
  sound : books.sound t.standing.ledger
  posts : ∃ lost : List Statement, lost.Sublist (unheard t.exchanges) ∧
    Posts books m₀ t.standing.ledger (heard t.exchanges ++ lost)

theorem Treatment.heard?_eq (treatment : Treatment) (call : Call) (g g' : Standing σ) :
    Exchange.heard? ⟨.ledger call, treatment.answer serve call m, g, g'⟩ =
      if treatment = .served then call.posting? serve m else none := by
  cases call with
  | create s delta =>
      cases treatment with
      | served =>
          rw [if_pos rfl, Call.posting?]
          change Exchange.heard? ⟨.ledger (.create s delta), some (serve (.create s delta) m).1, g, g'⟩ = _
          rcases (serve (.create s delta) m).1 with error | accepted <;> rfl
      | refused e => rfl
      | spoiled e => rfl
      | dropped => rfl
      | overdue => rfl
  | record e => simp [Exchange.heard?, Call.posting?]
  | find id => simp [Exchange.heard?, Call.posting?]
  | ensure user => simp [Exchange.heard?, Call.posting?]
  | balance user => simp [Exchange.heard?, Call.posting?]

theorem Treatment.unheard?_eq {treatment : Treatment} {call : Call} {st : Statement} (g g' : Standing σ)
    (hposting : call.posting? serve m = some st) (htreatment : treatment ≠ .served) :
    Exchange.unheard? ⟨.ledger call, treatment.answer serve call m, g, g'⟩ = some st := by
  obtain ⟨delta, rfl, -⟩ := Call.posting?_eq_some hposting
  cases treatment with
  | served => exact (htreatment rfl).elim
  | refused e => rfl
  | spoiled e => rfl
  | dropped => rfl
  | overdue => rfl

theorem Exchange.heard?_of_ne {g g' : Standing σ} (hr : ∀ call, r ≠ .ledger call) :
    Exchange.heard? ⟨r, a, g, g'⟩ = none := by
  cases r with
  | ledger call => exact (hr call rfl).elim
  | _ => rfl

/-- An exchange keeps the accounts: what a call has posted was heard if the call was served, and is lost
otherwise. -/
theorem Accounts.tells (h : Accounts books m₀ t) (htells : Tells serve number r t a t') :
    Accounts books m₀ t' := by
  obtain ⟨hresponds, hexchanges⟩ := htells
  obtain ⟨lost, hlost, hposts⟩ := h.posts
  refine ⟨hresponds.sound h.sound, ?_⟩
  have hheard : heard t'.exchanges =
      heard t.exchanges ++ (Exchange.heard? ⟨r, a, t.standing, t'.standing⟩).toList := by
    rw [hexchanges, heard_append, heard_cons, heard_nil, List.append_nil]
  have hunheard : unheard t'.exchanges =
      unheard t.exchanges ++ (Exchange.unheard? ⟨r, a, t.standing, t'.standing⟩).toList := by
    rw [hexchanges, unheard_append, unheard_singleton]
  have hgrown : lost.Sublist (unheard t'.exchanges) := by
    rw [hunheard]
    exact hlost.trans (List.sublist_append_left _ _)
  -- where nothing is posted and nothing heard, what is lost stays as it is
  have hsame : Posts books m₀ t'.standing.ledger (heard t.exchanges ++ lost) →
      Exchange.heard? ⟨r, a, t.standing, t'.standing⟩ = none →
      ∃ lost : List Statement, lost.Sublist (unheard t'.exchanges) ∧
        Posts books m₀ t'.standing.ledger (heard t'.exchanges ++ lost) := by
    intro hposts hnone
    refine ⟨lost, hgrown, ?_⟩
    rwa [hheard, hnone, Option.toList_none, List.append_nil]
  by_cases hcall : ∃ call, r = .ledger call
  · obtain ⟨call, rfl⟩ := hcall
    obtain ⟨treatment, hanswer, hstanding⟩ := hresponds
    obtain rfl : a = treatment.answer serve call t.standing.ledger := hanswer
    have hledger : t'.standing.ledger = treatment.ledger serve call t.standing.ledger := by rw [hstanding]
    rw [treatment.heard?_eq] at hheard hsame
    have hcalled := hposts.called h.sound call
    by_cases hexecutes : treatment.executes = true
    · rw [Treatment.ledger, if_pos hexecutes] at hledger
      rw [← hledger] at hcalled
      cases hposting : call.posting? serve t.standing.ledger with
      | none =>
          rw [hposting, Option.toList_none, List.append_nil] at hcalled
          exact hsame hcalled (by rw [hposting, ite_self])
      | some st =>
          rw [hposting, Option.toList_some] at hcalled
          by_cases hserved : treatment = .served
          · refine ⟨lost, hgrown, hcalled.perm ?_⟩
            rw [hheard, if_pos hserved, hposting, Option.toList_some, List.append_assoc, List.append_assoc]
            exact List.perm_append_comm.append_left _
          · rw [treatment.unheard?_eq _ _ hposting hserved] at hunheard
            refine ⟨lost ++ [st], ?_, ?_⟩
            · rw [hunheard]
              exact hlost.append_right _
            · rw [hheard, if_neg hserved, Option.toList_none, List.append_nil, ← List.append_assoc]
              exact hcalled
    · rw [Treatment.ledger, if_neg hexecutes] at hledger
      refine hsame (by rwa [hledger]) (if_neg ?_)
      rintro rfl
      exact hexecutes rfl
  · have hne : ∀ call, r ≠ .ledger call := fun call heq => hcall ⟨call, heq⟩
    refine hsame ?_ (Exchange.heard?_of_ne hne)
    rcases hresponds.ledger with hledger | ⟨call, heq, -⟩
    · rwa [hledger]
    · exact (hne call heq).elim

/-- Only requests to count change what is counted. -/
theorem Responds.metrics_get {g g' : Standing σ} (h : Responds serve number r g a g') (metric : Metric) :
    g'.metrics.get metric = g.metrics.get metric + if r = .count metric then 1 else 0 := by
  cases r with
  | count other =>
      obtain rfl : g' = _ := h
      rw [Metrics.get_count]
      simp only [Request.count.injEq, eq_comm]
  | ledger call =>
      obtain ⟨treatment, -, rfl⟩ := h
      simp [Standing.doing]
  | time =>
      obtain rfl : g' = _ := h
      simp
  | bound ms =>
      obtain rfl : g' = _ := h
      simp
  | alert alert =>
      obtain rfl : g' = _ := h
      simp [Standing.doing]
  | letter payload =>
      obtain rfl : g' = _ := h
      simp [Standing.doing]
  | acknowledge =>
      obtain rfl : g' = _ := h
      simp [Standing.doing]

/-- Whether a counter has counted the requests to count it. -/
def Counts (metric : Metric) (before : Nat) (t : Told σ) : Prop :=
  t.standing.metrics.get metric = before + countings metric t.exchanges

theorem Counts.tells {metric : Metric} {before : Nat} (h : Counts metric before t)
    (htells : Tells serve number r t a t') : Counts metric before t' := by
  obtain ⟨hresponds, hexchanges⟩ := htells
  rw [Counts] at h ⊢
  rw [hexchanges, countings_append, countings_cons, countings_nil, Nat.zero_add, hresponds.metrics_get, h,
    Nat.add_assoc]

/-! ### Deliveries -/

/-- Messages settled one after another, with the exchanges of their settlements. A message may be delivered
again and again; its settlement may end in an overflow. Between settlements anything may happen to a
world that touches neither its ledger nor its count of statements. -/
inductive Deliveries (s : Setup σ) (w : World σ) : List (Exchange σ) → World σ → Prop
  | start : Deliveries s w [] w
  | settled {exchanges : List (Exchange σ)} {w₁ : World σ} (m : Message) (h : Deliveries s w exchanges w₁)
      (hend : (Run.exec (Run.settle s m) w₁).1 ≠ .error .horizon) :
      Deliveries s w
        (exchanges ++ Run.exchanges s m (Delivery.settle s.rate s.attemptTimeout m.payload) w₁)
        (Run.exec (Run.settle s m) w₁).2
  | meanwhile {exchanges : List (Exchange σ)} {w₁ : World σ} (w₂ : World σ) (h : Deliveries s w exchanges w₁)
      (hledger : w₂.ledger = w₁.ledger)
      (hcount : w₂.metrics.get .statementsPosted = w₁.metrics.get .statementsPosted) :
      Deliveries s w exchanges w₂

/-- What holds of what is told at first, is kept by settlements and has nothing to do with the rest of the
world holds after deliveries. -/
theorem Deliveries.holds {s : Setup σ} {w w' : World σ} {exchanges : List (Exchange σ)}
    {kept : Told σ → Prop} (h : Deliveries s w exchanges w') (hstart : kept ⟨w.standing, []⟩)
    (hsettlement : ∀ (m : Message) t, kept t →
      (settlement s.rate s.attemptTimeout m.payload).Meets (Tells s.serve m.number)
        ⟨fun _ _ => True, fun _ t => kept t, kept⟩ t)
    (hmeanwhile : ∀ t g, kept t → g.ledger = t.standing.ledger →
      g.metrics.get .statementsPosted = t.standing.metrics.get .statementsPosted → kept ⟨g, t.exchanges⟩) :
    kept ⟨w'.standing, exchanges⟩ := by
  induction h with
  | start => exact hstart
  | @settled exchanges w₁ m h hend ih =>
      have hends := Run.program_tells (hsettlement m _ ih)
      rw [Session.exec_settle] at hend ⊢
      rw [settle_eq, Run.exchanges_map]
      rcases hexec : Run.exec (Run.program s m (settlement s.rate s.attemptTimeout m.payload)) w₁ with
        ⟨(_ | _) | result, w₂⟩
      · exact hends.error hexec rfl
      · rw [hexec] at hend
        exact (hend rfl).elim
      · exact hends.ok hexec
  | meanwhile w₂ h hledger hcount ih => exact hmeanwhile _ _ ih hledger hcount

namespace Run

variable {s : Setup σ} {w w₁ : World σ} {exchanges : List (Exchange σ)}

/-- Whether what is done after deliveries comes to deliveries, also where it ends in an overflow. -/
def Delivers (s : Setup σ) (w : World σ) (x : Run σ α) : Prop :=
  ∀ exchanges w₁, Deliveries s w exchanges w₁ →
    Ends x w₁ (fun _ w' => ∃ more, Deliveries s w (exchanges ++ more) w')
      fun halt w' => halt = .overflow → ∃ more, Deliveries s w (exchanges ++ more) w'

theorem Delivers.bind {x : Run σ α} {f : α → Run σ β} (hx : Delivers s w x) (hf : ∀ a, Delivers s w (f a)) :
    Delivers s w (x >>= f) := by
  intro exchanges w₁ h
  refine (hx exchanges w₁ h).bind ?_
  rintro a w₂ ⟨more, h₂⟩
  refine (hf a _ w₂ h₂).mono ?_ ?_
  · rintro b w' ⟨last, h'⟩
    exact ⟨more ++ last, by rwa [← List.append_assoc]⟩
  · rintro halt w' hlast hhalt
    obtain ⟨last, h'⟩ := hlast hhalt
    exact ⟨more ++ last, by rwa [← List.append_assoc]⟩

theorem delivers_pure (a : α) : Delivers s w (pure a) := fun exchanges _ h =>
  ends_pure ⟨[], by rwa [List.append_nil]⟩

/-- What leaves the ledger and the count of statements alone and does not overflow. -/
theorem delivers_of_ends {x : Run σ α}
    (hx : ∀ w₁, Ends x w₁ (fun _ w' => w'.ledger = w₁.ledger ∧
      w'.metrics.get .statementsPosted = w₁.metrics.get .statementsPosted) fun halt _ => halt = .horizon) :
    Delivers s w x := by
  intro exchanges w₁ h
  refine (hx w₁).mono ?_ ?_
  · rintro a w' ⟨hledger, hcount⟩
    exact ⟨[], by rw [List.append_nil]; exact h.meanwhile w' hledger hcount⟩
  · rintro _ w' rfl hhalt
    cases hhalt

theorem delivers_settle (m : Message) : Delivers s w (settle s m) := by
  intro exchanges w₁ h
  have hsettled := h.settled m
  rcases hexec : exec (settle s m) w₁ with ⟨halt | disposition, w'⟩
  · rw [hexec] at hsettled
    rw [Ends, hexec]
    rintro rfl
    exact ⟨_, hsettled (by simp)⟩
  · rw [hexec] at hsettled
    exact .of_exec hexec ⟨_, hsettled (by simp)⟩

theorem delivers_settleAll (messages : List Message) (r : FetchReport) :
    Delivers s w (settleAll (settle s) messages r) := by
  induction messages generalizing r with
  | nil => exact delivers_pure r
  | cons m more ih => exact (delivers_settle m).bind fun disposition => ih (r.settled disposition)

theorem delivers_note (what : Happening) : Delivers s w (note what) :=
  delivers_of_ends fun _ => ends_modify ⟨rfl, rfl⟩

theorem delivers_wait (delay : Option Nat) : Delivers s w (wait s delay) :=
  delivers_of_ends fun _ => (wait_ends delay).mono
    (fun _ _ h => ⟨congrArg Standing.ledger h, congrArg (fun g => g.metrics.get .statementsPosted) h⟩)
    fun _ _ h => h.1

theorem delivers_count : Delivers s w (count .fetchFailures) :=
  delivers_of_ends fun _ => ends_modify ⟨rfl, rfl⟩

theorem delivers_fetchLoop (f : Fetching) (source : Source) (delivered : Nat) (r : FetchReport) :
    Delivers s w (fetchLoop s f (settle s) source delivered r) := by
  induction source generalizing delivered r with
  | nil =>
      rw [fetchLoop]
      generalize f.failureThreshold - r.failures = left
      induction left generalizing r with
      | zero => exact delivers_pure r
      | succ left ih => exact (delivers_note _).bind fun _ => delivers_count.bind fun _ => ih _
  | cons step rest ih =>
      obtain ⟨delay, fetched⟩ := step
      unfold fetchLoop
      split
      · exact delivers_pure r
      · refine (delivers_note _).bind fun _ => (delivers_wait delay).bind fun _ => ?_
        rcases fetched with (_ | ⟨m, more⟩) | _ | text
        · exact delivers_count.bind fun _ => ih _ _
        · exact (delivers_settleAll _ _).bind fun _ => ih _ _
        · exact ih _ _
        · exact delivers_count.bind fun _ => ih _ _

/-- What a fetch loop does is deliveries. -/
theorem deliveries_of_fetchAll {f : Fetching} {source : Source} {r : FetchReport} {w' : World σ}
    (h : exec (fetchAll s f source) w = (.ok r, w')) : ∃ exchanges, Deliveries s w exchanges w' := by
  obtain ⟨more, hmore⟩ := (delivers_fetchLoop f source 0 FetchReport.zero [] w .start).ok h
  exact ⟨[] ++ more, hmore⟩

end Run

end UsageLedger.Delivery
