import UsageLedger.Proofs.Delivery.BrokerSide
import UsageLedger.Proofs.Delivery.Conservation

/-! When a fetch loop gives up. Of the fetches from a source those count as failures that bring nothing or an
error; one that waited in vain does not count, and no success takes a failure back. The loop ends with the fetch
that brings the failures to their threshold, and what the source would bring after it makes no difference. -/

namespace UsageLedger.Delivery

variable {σ : Type} {s : Setup σ} {w w' : World σ}

/-! ### The fetch that trips a breaker -/

/-- Whether a fetch counts as a failure. -/
def Fetched.isFailure : Fetched → Bool
  | batch [] => true
  | batch (_ :: _) => false
  | elapsed => false
  | failed _ => true

/-- How many fetches from a source fail. -/
def failuresIn (source : Source) : Nat := source.countP fun entry => entry.2.isFailure

/-- How many of the first fetches from a source fail, those beyond its end included, all of which do. -/
def failuresAmong (source : Source) (fetches : Nat) : Nat :=
  failuresIn (source.take fetches) + (fetches - source.length)

/-- Whether it takes so many fetches from a source, and no fewer, for the failures to reach a threshold. -/
structure TripsAt (threshold : Nat) (source : Source) (fetches : Nat) : Prop where
  reached : failuresAmong source fetches = threshold
  first : ∀ fewer < fetches, failuresAmong source fewer < threshold

theorem failuresAmong_nil (fetches : Nat) : failuresAmong [] fetches = fetches := by
  simp [failuresAmong, failuresIn]

theorem failuresAmong_zero (source : Source) : failuresAmong source 0 = 0 := by
  simp [failuresAmong, failuresIn]

theorem failuresAmong_cons (entry : Option Nat × Fetched) (rest : Source) (fetches : Nat) :
    failuresAmong (entry :: rest) (fetches + 1) = failuresAmong rest fetches + entry.2.isFailure.toNat := by
  rw [failuresAmong, failuresAmong, failuresIn, failuresIn, List.take_succ_cons, List.countP_cons, List.length_cons,
    Nat.add_sub_add_right]
  cases entry.2.isFailure <;> simp [Nat.add_right_comm]

namespace TripsAt

variable {threshold fetches fetches' : Nat} {entry : Option Nat × Fetched} {source rest : Source}

theorem unique (h : TripsAt threshold source fetches) (h' : TripsAt threshold source fetches') :
    fetches = fetches' := by
  rcases Nat.lt_trichotomy fetches fetches' with hlt | heq | hgt
  · exact absurd h.reached (h'.first fetches hlt).ne
  · exact heq
  · exact absurd h'.reached (h.first fetches' hgt).ne

theorem zero (source : Source) : TripsAt 0 source 0 := ⟨failuresAmong_zero source, nofun⟩

theorem nil (threshold : Nat) : TripsAt threshold [] threshold :=
  ⟨failuresAmong_nil threshold, fun fewer hfewer => by rwa [failuresAmong_nil]⟩

/-- The first fetch from a source brings the threshold closer if it fails. -/
theorem cons_iff (hpos : 0 < threshold) :
    TripsAt threshold (entry :: rest) (fetches + 1) ↔ TripsAt (threshold - entry.2.isFailure.toNat) rest fetches := by
  have hle : entry.2.isFailure.toNat ≤ threshold := (Bool.toNat_le _).trans hpos
  constructor
  · rintro ⟨hreached, hfirst⟩
    rw [failuresAmong_cons] at hreached
    refine ⟨by omega, fun fewer hfewer => ?_⟩
    have hless := hfirst (fewer + 1) (by omega)
    rw [failuresAmong_cons] at hless
    omega
  · rintro ⟨hreached, hfirst⟩
    refine ⟨by rw [failuresAmong_cons]; omega, fun fewer hfewer => ?_⟩
    cases fewer with
    | zero => rwa [failuresAmong_zero]
    | succ fewer =>
        have hless := hfirst fewer (by omega)
        rw [failuresAmong_cons]
        omega

theorem exists_fetches (threshold : Nat) (source : Source) : ∃ fetches, TripsAt threshold source fetches := by
  induction source generalizing threshold with
  | nil => exact ⟨threshold, nil threshold⟩
  | cons entry rest ih =>
      rcases Nat.eq_zero_or_pos threshold with rfl | hpos
      · exact ⟨0, zero _⟩
      · obtain ⟨fetches, h⟩ := ih (threshold - entry.2.isFailure.toNat)
        exact ⟨fetches + 1, (cons_iff hpos).2 h⟩

/-- A source in which enough fetches fail trips a breaker before its end. -/
theorem le_length (h : TripsAt threshold source fetches) (hfailures : threshold ≤ failuresIn source) :
    fetches ≤ source.length := by
  by_contra hbeyond
  have hless := h.first source.length (not_le.1 hbeyond)
  rw [failuresAmong, List.take_length] at hless
  omega

end TripsAt

/-! ### Fetch loops -/

namespace BrokerSide

/-- The broker's side after some more fetches. -/
def fetched (b : BrokerSide) (f : Fetching) (fetches : Nat) : BrokerSide :=
  b.called (List.replicate fetches (.fetching f.batchSize f.maxWait))

theorem fetched_zero (b : BrokerSide) (f : Fetching) : b.fetched f 0 = b := b.called_nil

theorem fetched_fetched (b : BrokerSide) (f : Fetching) (fetches more : Nat) :
    (b.fetched f fetches).fetched f more = b.fetched f (fetches + more) := by
  rw [fetched, fetched, called_called, List.replicate_append_replicate]
  rfl

end BrokerSide

namespace Run

open BrokerSide

/-- What some fetches add to a report and to the broker's side of a world. -/
structure Fetches (f : Fetching) (w : World σ) (r : FetchReport) (made failed : Nat) (w' : World σ)
    (r' : FetchReport) : Prop where
  fetches : r'.fetches = r.fetches + made
  failures : r'.failures = r.failures + failed
  brokerSide : w'.brokerSide = w.brokerSide.fetched f made

theorem Fetches.trans {f : Fetching} {w₁ : World σ} {r r₁ r' : FetchReport} {made failed made' failed' : Nat}
    (h : Fetches f w r made failed w₁ r₁) (h' : Fetches f w₁ r₁ made' failed' w' r') :
    Fetches f w r (made + made') (failed + failed') w' r' where
  fetches := by rw [h'.fetches, h.fetches, Nat.add_assoc]
  failures := by rw [h'.failures, h.failures, Nat.add_assoc]
  brokerSide := by rw [h'.brokerSide, h.brokerSide, fetched_fetched]

theorem Fetches.refl (f : Fetching) (w : World σ) (r : FetchReport) : Fetches f w r 0 0 w r :=
  ⟨rfl, rfl, (fetched_zero _ f).symm⟩

theorem note_fetching (f : Fetching) :
    Ends (note (.fetching f.batchSize f.maxWait)) w (fun _ w' => w'.brokerSide = w.brokerSide.fetched f 1)
      fun _ _ => True :=
  ends_modify (w.brokerSide_call w.clock rfl)

theorem aside_fetchFailure : Aside (count .fetchFailures) w := aside_count nofun

theorem exhaust_fetches (f : Fetching) (left : Nat) (r : FetchReport) :
    Ends (exhaust f left r) w (fun r' w' => Fetches f w r left left w' r') fun _ _ => True := by
  induction left generalizing r w with
  | zero => exact ends_pure (.refl f w r)
  | succ left ih =>
      refine (note_fetching f).bind fun _ w₁ h₁ => aside_fetchFailure.ends.bind fun _ w₂ h₂ => ?_
      refine (ih r.fetched.failed).mono (fun r' w' h => ?_) fun _ _ h => h
      have hfirst : Fetches f w r 1 1 w₂ r.fetched.failed := ⟨rfl, rfl, h₂.trans h₁⟩
      rw [Nat.add_comm left 1]
      exact hfirst.trans h

/-- Whatever a controller does, the messages that it settles change nothing in the count of fetches and
failures. -/
theorem settleAll_counts (settle : Message → Run σ Disposition) (messages : List Message) (r : FetchReport) :
    Ends (settleAll settle messages r) w (fun r' _ => r'.fetches = r.fetches ∧ r'.failures = r.failures)
      fun _ _ => True := by
  induction messages generalizing r w with
  | nil => exact ends_pure ⟨rfl, rfl⟩
  | cons m rest ih =>
      refine Ends.bind (ends_of_ok fun _ _ _ => trivial : Ends (settle m) w (fun _ _ => True) _) fun d w₁ _ => ?_
      refine (ih (r.settled d)).mono (fun r' w' h => ?_) fun _ _ h => h
      cases d <;> exact h

theorem aside_settleAll (messages : List Message) (r : FetchReport) : Aside (settleAll (settle s) messages r) w := by
  induction messages generalizing r w with
  | nil => exact aside_pure r
  | cons m rest ih => exact (aside_settle m).bind fun d w' _ => ih (r.settled d)

theorem fetchLoop_of_tripped {f : Fetching} {r : FetchReport} (h : f.failureThreshold ≤ r.failures)
    (settle : Message → Run σ Disposition) (source : Source) (delivered : Nat) :
    fetchLoop s f settle source delivered r = pure r := by
  cases source with
  | nil =>
      rw [fetchLoop, Nat.sub_eq_zero_of_le h]
      rfl
  | cons entry rest =>
      obtain ⟨delay, fetched⟩ := entry
      unfold fetchLoop
      exact if_pos h

/-- A fetch loop that returns has made as many fetches as it takes for the failures to reach their threshold. -/
theorem fetchLoop_trips {f : Fetching} {source : Source} {delivered fetches : Nat} {r : FetchReport}
    (htrips : TripsAt (f.failureThreshold - r.failures) source fetches) :
    Ends (fetchLoop s f (settle s) source delivered r) w
      (fun r' w' => Fetches f w r fetches (f.failureThreshold - r.failures) w' r') fun _ _ => True := by
  induction source generalizing delivered fetches r w with
  | nil =>
      obtain rfl : fetches = f.failureThreshold - r.failures := htrips.unique (.nil _)
      exact exhaust_fetches f _ r
  | cons entry rest ih =>
      obtain ⟨delay, fetched⟩ := entry
      by_cases htripped : f.failureThreshold ≤ r.failures
      · rw [fetchLoop_of_tripped htripped]
        rw [Nat.sub_eq_zero_of_le htripped] at htrips ⊢
        obtain rfl : fetches = 0 := htrips.unique (.zero _)
        exact ends_pure (.refl f w r)
      · obtain ⟨more, rfl⟩ : ∃ more, fetches = more + 1 := by
          cases fetches with
          | zero => exact absurd htrips.reached (by rw [failuresAmong_zero]; omega)
          | succ more => exact ⟨more, rfl⟩
        rw [TripsAt.cons_iff (by omega)] at htrips
        -- what follows the first fetch is a loop with one failure less to go, or with as many
        have hrest : ∀ {w₁ : World σ} {r₁ : FetchReport} (delivered : Nat),
            Fetches f w r 1 fetched.isFailure.toNat w₁ r₁ →
            Ends (fetchLoop s f (settle s) rest delivered r₁) w₁
              (fun r' w' => Fetches f w r (more + 1) (f.failureThreshold - r.failures) w' r') fun _ _ => True := by
          intro w₁ r₁ delivered hfirst
          have hle : fetched.isFailure.toNat ≤ 1 := Bool.toNat_le _
          have hleft : f.failureThreshold - r₁.failures =
              f.failureThreshold - r.failures - fetched.isFailure.toNat := by
            rw [hfirst.failures, Nat.sub_add_eq]
          refine (ih (hleft ▸ htrips)).mono (fun r' w' h => ?_) fun _ _ h => h
          have hall := hfirst.trans h
          rwa [hleft, Nat.add_sub_of_le (by omega), Nat.add_comm 1 more] at hall
        unfold fetchLoop
        rw [if_neg htripped]
        refine (note_fetching f).bind fun _ w₁ h₁ => (aside_wait delay).ends.bind fun _ w₂ h₂ => ?_
        have hbegun : w₂.brokerSide = w.brokerSide.fetched f 1 := h₂.trans h₁
        split
        · exact hrest _ ⟨rfl, rfl, hbegun⟩
        · exact aside_fetchFailure.ends.bind fun _ w₃ h₃ => hrest _ ⟨rfl, rfl, h₃.trans hbegun⟩
        · exact aside_fetchFailure.ends.bind fun _ w₃ h₃ => hrest _ ⟨rfl, rfl, h₃.trans hbegun⟩
        · refine ((settleAll_counts (settle s) _ r.fetched).and (aside_settleAll _ _).ends).mono (fun _ _ h => h)
            (fun _ _ _ => trivial) |>.bind ?_
          rintro r₁ w₃ ⟨⟨hfetches, hfailures⟩, h₃⟩
          exact hrest _ ⟨hfetches, hfailures, h₃.trans hbegun⟩

theorem exec_bind_congr {α β : Type} {x : Run σ α} {f g : α → Run σ β}
    (h : ∀ a w', exec x w = (.ok a, w') → exec (f a) w' = exec (g a) w') : exec (x >>= f) w = exec (x >>= g) w := by
  rw [exec_bind, exec_bind]
  rcases hexec : exec x w with ⟨halt | a, w'⟩
  · rfl
  · exact h a w' hexec

/-- Whatever a controller does with the messages, what a source brings after the fetch that brings the failures to
their threshold makes no difference. -/
theorem fetchLoop_take (settle : Message → Run σ Disposition) {f : Fetching} {source : Source}
    {delivered fetches : Nat} {r : FetchReport} (htrips : TripsAt (f.failureThreshold - r.failures) source fetches)
    (hwithin : fetches ≤ source.length) (rest : Source) :
    exec (fetchLoop s f settle (source.take fetches ++ rest) delivered r) w =
      exec (fetchLoop s f settle source delivered r) w := by
  induction source generalizing delivered fetches r w with
  | nil =>
      obtain rfl : fetches = 0 := Nat.le_zero.1 hwithin
      have htripped : f.failureThreshold - r.failures = 0 := htrips.unique (.nil _) |>.symm
      rw [fetchLoop_of_tripped (Nat.le_of_sub_eq_zero htripped), fetchLoop_of_tripped (Nat.le_of_sub_eq_zero htripped)]
  | cons entry others ih =>
      obtain ⟨delay, fetched⟩ := entry
      by_cases htripped : f.failureThreshold ≤ r.failures
      · rw [fetchLoop_of_tripped htripped, fetchLoop_of_tripped htripped]
      · obtain ⟨more, rfl⟩ : ∃ more, fetches = more + 1 := by
          cases fetches with
          | zero => exact absurd htrips.reached (by rw [failuresAmong_zero]; omega)
          | succ more => exact ⟨more, rfl⟩
        rw [TripsAt.cons_iff (by omega)] at htrips
        have hrest : ∀ (w₁ : World σ) {r₁ : FetchReport} (delivered : Nat),
            r₁.failures = r.failures + fetched.isFailure.toNat →
            exec (fetchLoop s f settle (others.take more ++ rest) delivered r₁) w₁ =
              exec (fetchLoop s f settle others delivered r₁) w₁ := by
          intro w₁ r₁ delivered hfailures
          refine ih ?_ (Nat.le_of_succ_le_succ hwithin)
          rwa [hfailures, Nat.sub_add_eq]
        rw [List.take_succ_cons, List.cons_append]
        unfold fetchLoop
        rw [if_neg htripped, if_neg htripped]
        refine exec_bind_congr fun _ w₁ _ => exec_bind_congr fun _ w₂ _ => ?_
        split
        · exact hrest w₂ _ rfl
        · exact exec_bind_congr fun _ w₃ _ => hrest w₃ _ rfl
        · exact exec_bind_congr fun _ w₃ _ => hrest w₃ _ rfl
        · refine exec_bind_congr fun r₁ w₃ hexec => hrest w₃ _ ?_
          exact ((settleAll_counts settle _ r.fetched).ok hexec).2

/-- A fetch loop that returns has made the fetches that it takes for the failures to reach their threshold, and it
has handled what they brought. -/
theorem fetchAll_trips {f : Fetching} {source : Source} {fetches : Nat}
    (htrips : TripsAt f.failureThreshold source fetches) :
    Ends (fetchAll s f source) w
      (fun report w' => report.fetches = fetches ∧ report.failures = f.failureThreshold ∧
        w'.brokerSide = w.brokerSide.fetched f fetches ∧
        ∃ hs, Course s w hs report.failures w' ∧ Round.Complete ⟨source, report, hs⟩)
      (fetchHalted s w (Stalls source)) := by
  have hloop : Ends (fetchAll s f source) w
      (fun report w' => Fetches f w FetchReport.zero fetches f.failureThreshold w' report) fun _ _ => True :=
    fetchLoop_trips htrips
  refine (hloop.and (fetchAll_completes f source)).mono (fun report w' h => ?_) fun _ _ h => h.2
  obtain ⟨⟨hfetches, hfailures, hside⟩, hcomplete⟩ := h
  refine ⟨?_, ?_, hside, hcomplete⟩
  · rw [hfetches]
    exact Nat.zero_add _
  · rw [hfailures]
    exact Nat.zero_add _

/-- A breaker trips at its threshold. If enough of the fetches from a source fail, there is a first one that brings
the failures to the threshold, and a fetch loop on which nothing is waited for without end and nothing overflows
ends with it: it makes as many fetches as it takes to get there and counts as many failures as the threshold, it
calls the broker for these fetches and for nothing else, and the messages it handles are those of their batches, in
order, whatever the source would have brought after them. -/
theorem breaker_trips_at_threshold {f : Fetching} {source : Source}
    (hfailures : f.failureThreshold ≤ failuresIn source) :
    ∃ fetches ≤ source.length, TripsAt f.failureThreshold source fetches ∧
      ∀ (s : Setup σ) (w : World σ), s.horizon = none → ¬Stalls (source.take fetches) →
        (exec (fetchAll s f source) w).1 ≠ .error .overflow →
        ∃ report w' hs, (∀ rest, exec (fetchAll s f (source.take fetches ++ rest)) w = (.ok report, w')) ∧
          report.fetches = fetches ∧ report.failures = f.failureThreshold ∧
          w'.brokerSide = w.brokerSide.fetched f fetches ∧
          Course s w hs f.failureThreshold w' ∧ Round.Complete ⟨source, report, hs⟩ := by
  obtain ⟨fetches, htrips⟩ := TripsAt.exists_fetches f.failureThreshold source
  have hwithin := htrips.le_length hfailures
  refine ⟨fetches, hwithin, htrips, fun s w hhorizon hstalls hfits => ?_⟩
  have hleft : TripsAt (f.failureThreshold - FetchReport.zero.failures) source fetches := htrips
  have hsame : ∀ rest, exec (fetchAll s f (source.take fetches ++ rest)) w = exec (fetchAll s f source) w :=
    fun rest => fetchLoop_take (settle s) hleft hwithin rest
  have htaken : exec (fetchAll s f (source.take fetches)) w = exec (fetchAll s f source) w := by
    simpa using hsame []
  have hreturns := fetchAll_returns (w := w) f hhorizon hstalls
  rcases hexec : exec (fetchAll s f source) w with ⟨halt | report, w'⟩
  · rw [hexec] at htaken hfits
    exact absurd (congrArg Except.error (hreturns.error htaken)) hfits
  · obtain ⟨hfetches, hcount, hside, hs, hcourse, hcomplete⟩ := (fetchAll_trips htrips).ok hexec
    rw [hcount] at hcourse
    exact ⟨report, w', hs, fun rest => (hsame rest).trans hexec, hfetches, hcount, hside, hcourse, hcomplete⟩

/-- A source of which the second and the fourth fetch fail, with a message after each of them. -/
def failingTwice : Source :=
  [(some 100, .elapsed), (some 100, .batch []), (some 100, .batch [(creditPayload, Fault.none), ([], Fault.none)]),
    (some 100, .failed "down"), (some 100, .batch [(creditPayload, Fault.none)])]

def twoFailures : Fetching := ⟨10, 100, 2⟩

theorem failingTwice_trips : twoFailures.failureThreshold ≤ failuresIn failingTwice ∧
    ¬Stalls (failingTwice.take 4) ∧
    ∃ report w' hs, exec (fetchAll plainSetup twoFailures failingTwice) plainWorld = (.ok report, w') ∧
      report.fetches = 4 ∧ report.failures = 2 ∧ w'.brokerSide = plainWorld.brokerSide.fetched twoFailures 4 ∧
      Course plainSetup plainWorld hs 2 w' ∧ Round.Complete ⟨failingTwice, report, hs⟩ := by
  have hstalls : ¬Stalls (failingTwice.take 4) := by decide +kernel
  have hok : (exec (fetchAll plainSetup twoFailures failingTwice) plainWorld).1.isOk = true := by decide +kernel
  obtain ⟨fetches, -, htrips, hruns⟩ :=
    breaker_trips_at_threshold (by decide : twoFailures.failureThreshold ≤ failuresIn failingTwice)
  obtain rfl : fetches = 4 := htrips.unique ⟨by decide, by decide⟩
  obtain ⟨report, w', hs, hexec, hfetches, hcount, hside, hcourse, hcomplete⟩ := hruns plainSetup plainWorld rfl hstalls
    fun hoverflow => by rw [hoverflow] at hok; cases hok
  exact ⟨by decide, hstalls, report, w', hs, hexec (failingTwice.drop 4), hfetches, hcount, hside, hcourse,
    hcomplete⟩

end Run

end UsageLedger.Delivery
