import UsageLedger.Proofs.Delivery.Billing
import UsageLedger.Proofs.Delivery.Surroundings

/-! What the handling of a message counts, acknowledges and hands over. A tally keeps the counters of a
consumer with the messages it has acknowledged and the notices that its side channels have accepted; what
an attempt adds to it depends on whether it succeeds, and what a settlement adds on its disposition. -/

namespace UsageLedger.Delivery

open Program

variable {σ α γ δ : Type}

/-! ### Views -/

/-- A contract on a view of the surroundings is one on the surroundings. -/
theorem Program.Meets.of_view {around : Surroundings γ} {seen : Surroundings δ} {c : Contract δ α} (view : γ → δ)
    (hview : ∀ r g a g', around r g a g' → seen r (view g) a (view g')) {p : Program α} {g : γ}
    (h : p.Meets seen c (view g)) :
    p.Meets around
      ⟨fun r g => c.asks r (view g), fun a g => c.ends a (view g), fun g => c.overflows (view g)⟩ g := by
  induction p generalizing g with
  | done a => exact h
  | overflow => exact h
  | ask r next ih =>
      obtain ⟨hask, hnext⟩ := h
      exact ⟨hask, fun a g' hanswer => ih a (hnext a (view g') (hview r g a g' hanswer))⟩

/-! ### Tallies -/

/-- The side channels of a consumer. -/
inductive Channel
  | alerts
  | letters
  deriving DecidableEq

def Notice.channel : Notice → Channel
  | alert _ => .alerts
  | letter _ => .letters

/-- The number of an acknowledged message. -/
def Happening.acknowledged? : Happening → Option Nat
  | acknowledged number => some number
  | _ => none

/-- The notice that a side channel has accepted. -/
def Happening.accepted? : Happening → Option Notice
  | offered notice none => some notice
  | _ => none

/-- The counters of a consumer, the messages that it has acknowledged and the notices that its side channels
have accepted, the first ones first. -/
structure Tally where
  metrics : Metrics
  acknowledged : List Nat
  accepted : List Notice

def Standing.tally (g : Standing σ) : Tally where
  metrics := g.metrics
  acknowledged := g.deeds.reverse.filterMap Happening.acknowledged?
  accepted := g.deeds.reverse.filterMap Happening.accepted?

namespace Tally

variable {t t' t'' : Tally} {number : Nat} {m : Message} {e : Event} {bound : Nat}

def count (t : Tally) (metric : Metric) : Tally := { t with metrics := t.metrics.count metric }

/-- The tally once a request has been answered with the message `number` in hand. -/
def told (t : Tally) (number : Nat) : (r : Request) → r.Answer → Tally
  | .alert a, .ok _ => { t with accepted := t.accepted ++ [.alert a] }
  | .letter payload, .ok _ => { t with accepted := t.accepted ++ [.letter payload] }
  | .acknowledge, _ => { t with acknowledged := t.acknowledged ++ [number] }
  | .count metric, _ => t.count metric
  | _, _ => t

theorem tally_doing (g : Standing σ) (deed : Happening) :
    (g.doing deed).tally =
      ⟨g.metrics, g.tally.acknowledged ++ deed.acknowledged?.toList,
        g.tally.accepted ++ deed.accepted?.toList⟩ := by
  simp only [Standing.tally, Standing.doing, List.reverse_cons, List.filterMap_append, List.filterMap_cons,
    List.filterMap_nil]
  cases deed.acknowledged? <;> cases deed.accepted? <;> rfl

theorem of_responds {serve : Ledger.Service σ} {r : Request} {g g' : Standing σ} {a : r.Answer}
    (h : Responds serve number r g a g') : g'.tally = g.tally.told number r a := by
  cases r with
  | time =>
      obtain rfl : g' = _ := h
      rfl
  | bound ms =>
      obtain rfl : g' = _ := h
      rfl
  | ledger call =>
      obtain ⟨t, -, rfl⟩ := h
      refine (tally_doing g (.called call)).trans ?_
      simp [Happening.acknowledged?, Happening.accepted?, told, Standing.tally]
  | alert alert =>
      obtain rfl : g' = _ := h
      rw [tally_doing]
      cases a with
      | ok accepted => simp [Happening.acknowledged?, Happening.accepted?, rejection?, told, Standing.tally]
      | error rejection => simp [Happening.acknowledged?, Happening.accepted?, rejection?, told, Standing.tally]
  | letter payload =>
      obtain rfl : g' = _ := h
      rw [tally_doing]
      cases a with
      | ok accepted => simp [Happening.acknowledged?, Happening.accepted?, rejection?, told, Standing.tally]
      | error rejection => simp [Happening.acknowledged?, Happening.accepted?, rejection?, told, Standing.tally]
  | acknowledge =>
      obtain rfl : g' = _ := h
      rw [tally_doing]
      simp [Happening.acknowledged?, Happening.accepted?, told, Standing.tally]
  | count metric =>
      obtain rfl : g' = _ := h
      rfl

end Tally

/-- The surroundings of a program as far as tallies go. -/
def Tallies (number : Nat) : Surroundings Tally := fun r t a t' => t' = t.told number r a

/-- A contract that says what tallies a program may end with. -/
def tallying (ends : α → Tally → Prop) (overflows : Tally → Prop) : Contract Tally α :=
  ⟨fun _ _ => True, ends, overflows⟩

/-! ### Attempts -/

/-- What attempts add to a tally: nothing is acknowledged, the notices that are accepted are the alerts that
are counted as sent, and no more alerts are offered than statements are posted. -/
structure Attempted (successes failures : Nat) (t t' : Tally) : Prop where
  acknowledged : t'.acknowledged = t.acknowledged
  accepted : ∃ alerts : List Alert, t'.accepted = t.accepted ++ alerts.map .alert ∧
    t'.metrics.alertsSent = t.metrics.alertsSent + alerts.length
  offered : t'.metrics.alertsSent + t'.metrics.alertsDropped + t.metrics.statementsPosted ≤
    t.metrics.alertsSent + t.metrics.alertsDropped + t'.metrics.statementsPosted
  succeeded : t'.metrics.statementsPosted + t'.metrics.duplicateEvents =
    t.metrics.statementsPosted + t.metrics.duplicateEvents + successes
  failed : t'.metrics.failedAttempts = t.metrics.failedAttempts + failures
  deadLettered : t'.metrics.deadLettered = t.metrics.deadLettered
  leftForRedelivery : t'.metrics.leftForRedelivery = t.metrics.leftForRedelivery
  fetchFailures : t'.metrics.fetchFailures = t.metrics.fetchFailures

namespace Attempted

variable {t t' t'' : Tally} {successes failures successes' failures' : Nat}

theorem refl (t : Tally) : Attempted 0 0 t t where
  acknowledged := rfl
  accepted := ⟨[], by simp, rfl⟩
  offered := le_rfl
  succeeded := rfl
  failed := rfl
  deadLettered := rfl
  leftForRedelivery := rfl
  fetchFailures := rfl

theorem trans (h : Attempted successes failures t t') (h' : Attempted successes' failures' t' t'') :
    Attempted (successes + successes') (failures + failures') t t'' where
  acknowledged := h'.acknowledged.trans h.acknowledged
  accepted := by
    obtain ⟨alerts, haccepted, hsent⟩ := h.accepted
    obtain ⟨alerts', haccepted', hsent'⟩ := h'.accepted
    refine ⟨alerts ++ alerts', ?_, ?_⟩
    · rw [haccepted', haccepted, List.map_append, List.append_assoc]
    · rw [hsent', hsent, List.length_append, Nat.add_assoc]
  offered := by
    have hfirst := h.offered
    have hsecond := h'.offered
    omega
  succeeded := by rw [h'.succeeded, h.succeeded, Nat.add_assoc]
  failed := by rw [h'.failed, h.failed, Nat.add_assoc]
  deadLettered := h'.deadLettered.trans h.deadLettered
  leftForRedelivery := h'.leftForRedelivery.trans h.leftForRedelivery
  fetchFailures := h'.fetchFailures.trans h.fetchFailures

theorem failure (t : Tally) : Attempted 0 1 t (t.count .failedAttempts) where
  acknowledged := rfl
  accepted := ⟨[], by simp [Tally.count], rfl⟩
  offered := le_rfl
  succeeded := rfl
  failed := rfl
  deadLettered := rfl
  leftForRedelivery := rfl
  fetchFailures := rfl

theorem duplicate (t : Tally) : Attempted 1 0 t (t.count .duplicateEvents) where
  acknowledged := rfl
  accepted := ⟨[], by simp [Tally.count], rfl⟩
  offered := le_rfl
  succeeded := rfl
  failed := rfl
  deadLettered := rfl
  leftForRedelivery := rfl
  fetchFailures := rfl

theorem posted (t : Tally) : Attempted 1 0 t (t.count .statementsPosted) where
  acknowledged := rfl
  accepted := ⟨[], by simp [Tally.count], rfl⟩
  offered := Nat.add_le_add_left (Nat.le_succ _) _
  succeeded := Nat.add_right_comm _ 1 _
  failed := rfl
  deadLettered := rfl
  leftForRedelivery := rfl
  fetchFailures := rfl

/-- An alert follows a posting. -/
theorem posted_alertSent (t : Tally) (a : Alert) :
    Attempted 1 0 t
      (({ t.count .statementsPosted with accepted := t.accepted ++ [.alert a] } : Tally).count .alertsSent) where
  acknowledged := rfl
  accepted := ⟨[a], rfl, rfl⟩
  offered := by simp only [Tally.count, Metrics.count]; omega
  succeeded := Nat.add_right_comm _ 1 _
  failed := rfl
  deadLettered := rfl
  leftForRedelivery := rfl
  fetchFailures := rfl

theorem posted_alertDropped (t : Tally) :
    Attempted 1 0 t ((t.count .statementsPosted).count .alertsDropped) where
  acknowledged := rfl
  accepted := ⟨[], by simp [Tally.count], rfl⟩
  offered := by simp only [Tally.count, Metrics.count]; omega
  succeeded := Nat.add_right_comm _ 1 _
  failed := rfl
  deadLettered := rfl
  leftForRedelivery := rfl
  fetchFailures := rfl

end Attempted

variable {number : Nat} {e : Event} {t : Tally}

/-- A posting counts nothing and hands over nothing. -/
theorem post_tallies (rate : Decimal) (e : Event) :
    (post rate e).run.Meets (Tallies number) (tallying (fun _ t' => t' = t) (fun t' => t' = t)) t := by
  rw [run_post]
  refine ⟨trivial, fun _ t₁ h₁ => Meets.proceed h₁ (fun _ => h₁) fun _ _ => ⟨trivial, fun _ t₂ h₂ => ?_⟩⟩
  obtain rfl : t₁ = t := h₁
  refine Meets.proceed h₂ (fun _ => h₂) fun found _ => ?_
  obtain rfl : t₂ = t₁ := h₂
  cases found with
  | some s => rfl
  | none =>
      refine ⟨trivial, fun _ t₃ h₃ => Meets.proceed h₃ (fun _ => h₃) fun _ _ => ?_⟩
      obtain rfl : t₃ = t₂ := h₃
      rw [postStatement]
      split
      · rfl
      · split
        · rfl
        · refine ⟨trivial, fun _ t₄ h₄ => ⟨trivial, fun _ t₅ h₅ => ?_⟩⟩
          obtain rfl : t₄ = t₃ := h₄
          obtain rfl : t₅ = t₄ := h₅
          exact Meets.proceed rfl (fun _ => rfl) fun _ _ => rfl

/-- What comes after a posting with a statement: the statement is counted, and then at most one alert. -/
theorem alertIfExhausted_tallies (e : Event) (balance : Option Decimal) :
    (alertIfExhausted e balance).Meets (Tallies number)
      (tallying (fun _ t' => Attempted 1 0 t t') fun _ => False) (t.count .statementsPosted) := by
  have hraise : (raiseAlert e).Meets (Tallies number)
      (tallying (fun _ t' => Attempted 1 0 t t') fun _ => False) (t.count .statementsPosted) := by
    rw [raiseAlert]
    apply Meets.request trivial
    rintro createdAt _ rfl
    apply Meets.request trivial
    rintro (rejection | accepted) _ rfl
    · exact ⟨trivial, fun _ t' h => h ▸ .posted_alertDropped t⟩
    · exact ⟨trivial, fun _ t' h => h ▸ .posted_alertSent t (Alert.lackOfBalance e createdAt)⟩
  unfold alertIfExhausted
  split
  · split
    · exact hraise
    · exact .posted t
  · exact .posted t

theorem currentBalance_tallies (bound : Nat) (user : String) :
    (currentBalance bound user).Meets (Tallies number) (tallying (fun _ t' => t' = t) fun _ => False) t := by
  rw [currentBalance]
  apply Meets.request trivial
  rintro _ _ rfl
  apply Meets.request trivial
  rintro (_ | (error | balance)) _ rfl <;> rfl

theorem attempt_tallies (rate : Decimal) (bound : Nat) (payload : Text.Bytes) :
    (attempt rate bound payload).Meets (Tallies number)
      (tallying (fun result t' => Attempted (if result.isOk then 1 else 0) 0 t t') (Attempted 0 0 t)) t := by
  cases hdecode : Event.decode payload with
  | error error =>
      rw [attempt_of_error hdecode]
      exact .refl t
  | ok e =>
      rw [attempt_of_ok hdecode]
      refine ⟨trivial, fun _ t₁ h₁ => ?_⟩
      obtain rfl : t₁ = t := h₁
      refine Meets.bind ((post_tallies rate e).mono (fun _ _ _ => trivial) (fun _ _ h => h)
        fun t' h => h ▸ .refl t₁) ?_
      rintro ((_ | error) | (_ | s)) t₂ h₂
      · obtain rfl : t₂ = t₁ := h₂
        exact .refl t₂
      · obtain rfl : t₂ = t₁ := h₂
        exact .refl t₂
      · obtain rfl : t₂ = t₁ := h₂
        exact Meets.request trivial fun _ t' h => h ▸ .duplicate t₂
      · obtain rfl : t₂ = t₁ := h₂
        apply Meets.request trivial
        rintro _ _ rfl
        refine Meets.bind ((currentBalance_tallies bound e.user).mono (fun _ _ _ => trivial)
          (fun _ _ h => h) fun _ h => h.elim) ?_
        rintro balance t₃ rfl
        exact Meets.bind ((alertIfExhausted_tallies e balance).mono (fun _ _ _ => trivial) (fun _ _ h => h)
          fun _ h => h.elim) fun _ _ h => h

theorem attemptResults_tallies (rate : Decimal) (bound : Nat) (payload : Text.Bytes) (n : Nat) :
    (attemptResults rate bound payload n).Meets (Tallies number)
      (tallying
        (fun results t' => ∃ failures, Attempted (if succeeded results then 1 else 0) failures t t' ∧
          if succeeded results then failures < n else failures = n)
        fun t' => ∃ failures, Attempted 0 failures t t') t := by
  induction n generalizing t with
  | zero => exact ⟨0, .refl t, rfl⟩
  | succ n ih =>
      refine Meets.bind ((attempt_tallies rate bound payload).mono (fun _ _ _ => trivial) (fun _ _ h => h)
        fun _ h => ⟨0, h⟩) ?_
      rintro (error | outcome) t₁ h₁
      · apply Meets.request trivial
        rintro _ _ rfl
        have hfailed : Attempted 0 1 t (t₁.count .failedAttempts) := Attempted.trans h₁ (.failure t₁)
        refine Meets.bind (ih.mono (fun _ _ _ => trivial) (fun _ _ h => h) ?_) ?_
        · rintro t₂ ⟨failures, h₂⟩
          exact ⟨1 + failures, by simpa using hfailed.trans h₂⟩
        · rintro results t₂ ⟨failures, h₂, hfailures⟩
          have hsucceeded : succeeded (.error error :: results) = succeeded results := rfl
          refine ⟨1 + failures, ?_, ?_⟩
          · rw [hsucceeded]
            simpa using hfailed.trans h₂
          · rw [hsucceeded]
            cases hresults : succeeded results with
            | false =>
                rw [hresults] at hfailures
                exact (congrArg (1 + ·) hfailures).trans (Nat.add_comm 1 n)
            | true =>
                rw [hresults] at hfailures
                exact (Nat.add_comm 1 failures).trans_lt (Nat.succ_lt_succ hfailures)
      · exact ⟨0, h₁, Nat.succ_pos n⟩

/-! ### Settlements -/

/-- What the disposition of a message adds to a tally after its attempts. -/
def Tally.concluded (t : Tally) (m : Message) : Disposition → Tally
  | .acknowledged => { t with acknowledged := t.acknowledged ++ [m.number] }
  | .deadLettered => { t.count .deadLettered with
      acknowledged := t.acknowledged ++ [m.number]
      accepted := t.accepted ++ [.letter m.payload] }
  | .leftForRedelivery => t.count .leftForRedelivery

/-- What the settlement of a message adds to a tally: its attempts, of which the last one succeeds if the
message is acknowledged and all fail otherwise, and its disposition. -/
def Tallied (m : Message) (d : Disposition) (t t' : Tally) : Prop :=
  ∃ failures t₁, Attempted (if d = .acknowledged then 1 else 0) failures t t₁ ∧
    (if d = .acknowledged then failures < Limits.attempts else failures = Limits.attempts) ∧
    t' = t₁.concluded m d

/-- A settlement adds to a tally what its disposition says, and one that overflows what some attempts do. -/
theorem settlement_tallies (rate : Decimal) (bound : Nat) (m : Message) :
    (settlement rate bound m.payload).Meets (Tallies m.number)
      (tallying (fun r t' => Tallied m r.disposition t t') fun t' => ∃ failures, Attempted 0 failures t t') t := by
  refine Meets.bind (attemptResults_tallies rate bound m.payload Limits.attempts) ?_
  rintro results t₁ ⟨failures, h, hfailures⟩
  unfold conclude
  split
  · rename_i hsucceeded
    rw [hsucceeded] at h hfailures
    apply Meets.request trivial
    rintro answer _ rfl
    exact ⟨failures, t₁, h, hfailures, rfl⟩
  · rename_i hfailed
    rw [if_neg hfailed] at h hfailures
    apply Meets.request trivial
    rintro (rejection | accepted) t₂ rfl
    · apply Meets.request trivial
      rintro _ _ rfl
      exact ⟨failures, _, h, hfailures, rfl⟩
    · apply Meets.request trivial
      rintro _ _ rfl
      apply Meets.request trivial
      rintro answer _ rfl
      exact ⟨failures, t₁, h, hfailures, rfl⟩

/-- What the settlement of a message in a world adds to the tally of its consumer. -/
theorem Run.settle_tallies {s : Setup σ} {w : World σ} (m : Message) :
    Ends (settle s m) w (fun d w' => Tallied m d w.standing.tally w'.standing.tally)
      (programHalted s m fun g => ∃ failures, Attempted 0 failures w.standing.tally g.tally) := by
  have hmeets : (Delivery.settle s.rate s.attemptTimeout m.payload).Meets (Responds s.serve m.number)
      ⟨fun _ _ => True, fun d g => Tallied m d w.standing.tally g.tally,
        fun g => ∃ failures, Attempted 0 failures w.standing.tally g.tally⟩ w.standing := by
    rw [settle_eq]
    exact Meets.map (Meets.of_view Standing.tally (fun _ _ _ _ h => Tally.of_responds h)
      (settlement_tallies s.rate s.attemptTimeout m))
  exact program_ends hmeets

end UsageLedger.Delivery
