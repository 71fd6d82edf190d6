import Mathlib.Algebra.BigOperators.Group.List.Basic
import UsageLedger.Proofs.Delivery.Passage

/-! No message is lost and none is handled twice. The course of a connection is a list of handlings, one after
another, between which only the broker is called and failed fetches are counted. What a consumer has counted
and acknowledged at the end is what its handlings come to; and a fetch loop handles the messages of its
batches in their order. -/

namespace UsageLedger.Delivery

variable {σ α : Type} {s : Setup σ} {w w₁ w' w'' : World σ}

/-! ### Courses -/

/-- A message that was handled: the world before that, the message's disposition, and the world after it. -/
structure Handled (σ : Type) where
  message : Message
  before : World σ
  disposition : Disposition
  after : World σ

/-- Whether the message was handled so: whether settling it in the world before comes to its disposition. -/
def Handled.Occurs (s : Setup σ) (h : Handled σ) : Prop :=
  Run.exec (Run.settle s h.message) h.before = (.ok h.disposition, h.after)

/-- Whether something happens with a message in hand. -/
def Happening.isHandling : Happening → Bool
  | called _ => true
  | offered _ _ => true
  | acknowledged _ => true
  | _ => false

/-- What happens between handlings: nothing is done with a message, the ledger stays as it is, and nothing but
failed fetches is counted. -/
structure Interlude (w : World σ) (failures : Nat) (w' : World σ) : Prop where
  ledger : w'.ledger = w.ledger
  handled : w'.standing.deeds.filter Happening.isHandling = w.standing.deeds.filter Happening.isHandling
  counted : ∀ m, w'.metrics.get m = w.metrics.get m + if m = .fetchFailures then failures else 0

namespace Interlude

variable {failures failures' : Nat}

theorem refl (w : World σ) : Interlude w 0 w := ⟨rfl, rfl, fun _ => by simp⟩

theorem trans (h : Interlude w failures w') (h' : Interlude w' failures' w'') :
    Interlude w (failures + failures') w'' where
  ledger := h'.ledger.trans h.ledger
  handled := h'.handled.trans h.handled
  counted m := by
    rw [h'.counted, h.counted]
    split <;> omega

theorem of_standing (h : w'.standing = w.standing) : Interlude w 0 w' where
  ledger := congrArg Standing.ledger h
  handled := by rw [h]
  counted m := by
    have hmetrics : w'.metrics = w.metrics := congrArg Standing.metrics h
    simp [hmetrics]

theorem of_deed {what : Happening} (hhandling : what.isHandling = false)
    (h : w'.standing = w.standing.doing what) : Interlude w 0 w' where
  ledger := congrArg Standing.ledger h
  handled := by rw [h, Standing.doing, List.filter_cons_of_neg (by simp [hhandling])]
  counted m := by
    have hmetrics : w'.metrics = w.metrics := congrArg Standing.metrics h
    simp [hmetrics]

theorem of_failure : Interlude w 1 { w with metrics := w.metrics.count .fetchFailures } where
  ledger := rfl
  handled := rfl
  counted m := w.metrics.get_count .fetchFailures m

theorem filterMap_deeds {β : Type} {f : Happening → Option β} (h : Interlude w failures w')
    (hf : ∀ what, what.isHandling = false → f what = none) :
    w'.standing.deeds.reverse.filterMap f = w.standing.deeds.reverse.filterMap f := by
  have hfilter : ∀ deeds : List Happening,
      deeds.reverse.filterMap f = (deeds.filter Happening.isHandling).reverse.filterMap f := by
    intro deeds
    rw [← List.filter_reverse, List.filterMap_filter]
    congr 1
    funext what
    cases hwhat : what.isHandling with
    | false => simp [hf what hwhat]
    | true => simp
  rw [hfilter, h.handled, ← hfilter]

theorem acknowledged (h : Interlude w failures w') :
    w'.standing.tally.acknowledged = w.standing.tally.acknowledged :=
  h.filterMap_deeds fun what hwhat => by cases what <;> first | rfl | cases hwhat

theorem accepted (h : Interlude w failures w') : w'.standing.tally.accepted = w.standing.tally.accepted :=
  h.filterMap_deeds fun what hwhat => by cases what <;> first | rfl | cases hwhat

end Interlude

/-- An interlude in which the world passes from step to step. -/
structure Pause (s : Setup σ) (w : World σ) (failures : Nat) (w' : World σ) : Prop where
  interlude : Interlude w failures w'
  steps : World.Lasts s w → World.Steps s w w'

theorem Pause.trans {failures failures' : Nat} (h : Pause s w failures w') (h' : Pause s w' failures' w'') :
    Pause s w (failures + failures') w'' where
  interlude := h.interlude.trans h'.interlude
  steps hlasts := (h.steps hlasts).trans (h'.steps ((h.steps hlasts).lasts hlasts))

/-- Whether what is known of a world and of the messages handled so far is kept when one more message is settled
and when nothing is done with a message. -/
structure Keeps (s : Setup σ) (kept : List Message → World σ → Prop) : Prop where
  settled : ∀ {messages m w d w'}, kept messages w → Run.exec (Run.settle s m) w = (.ok d, w') →
    kept (messages ++ [m]) w'
  paused : ∀ {messages w failures w'}, kept messages w → Pause s w failures w' → kept messages w'

theorem Keeps.trivial (s : Setup σ) : Keeps s fun _ _ => True := ⟨fun _ _ => True.intro, fun _ _ => True.intro⟩

/-- How a world passes on a connection: some messages are handled one after another, and so many fetches fail
meanwhile. -/
inductive Course (s : Setup σ) (w : World σ) : List (Handled σ) → Nat → World σ → Prop
  | start : Course s w [] 0 w
  | handled {hs : List (Handled σ)} {failures : Nat} (h : Handled σ) (hcourse : Course s w hs failures h.before)
      (hoccurs : h.Occurs s) : Course s w (hs ++ [h]) failures h.after
  | interlude {hs : List (Handled σ)} {failures more : Nat} {w₁ w₂ : World σ} (hcourse : Course s w hs failures w₁)
      (hinterlude : Interlude w₁ more w₂) : Course s w hs (failures + more) w₂

theorem Course.append {hs hs' : List (Handled σ)} {failures failures' : Nat} (h : Course s w hs failures w₁)
    (h' : Course s w₁ hs' failures' w') : Course s w (hs ++ hs') (failures + failures') w' := by
  induction h' with
  | start => simpa using h
  | handled x _ hoccurs ih =>
      rw [← List.append_assoc]
      exact .handled x ih hoccurs
  | interlude _ hinterlude ih =>
      rw [← Nat.add_assoc]
      exact ih.interlude hinterlude

theorem Course.of_interlude {failures : Nat} (h : Interlude w failures w') : Course s w [] failures w' := by
  simpa using Course.start.interlude h

/-- A course that ended in an overflow while another message was in hand. -/
def Aborted (s : Setup σ) (w : World σ) (hs : List (Handled σ)) (w' : World σ) : Prop :=
  ∃ failures w₁ m, Course s w hs failures w₁ ∧ Run.exec (Run.settle s m) w₁ = (.error .overflow, w')

theorem Aborted.after {hs hs' : List (Handled σ)} {failures : Nat} (h : Course s w hs failures w₁)
    (h' : Aborted s w₁ hs' w') : Aborted s w (hs ++ hs') w' := by
  obtain ⟨failures', w₂, m, hcourse, hexec⟩ := h'
  exact ⟨failures + failures', w₂, m, h.append hcourse, hexec⟩

/-! ### What a course comes to -/

/-- How many handlings came to a disposition. -/
def settledAs (d : Disposition) (hs : List (Handled σ)) : Nat := hs.countP (·.disposition = d)

@[simp] theorem settledAs_nil (d : Disposition) : settledAs d ([] : List (Handled σ)) = 0 := rfl

@[simp] theorem settledAs_append (d : Disposition) (hs hs' : List (Handled σ)) :
    settledAs d (hs ++ hs') = settledAs d hs + settledAs d hs' := List.countP_append

theorem settledAs_singleton (d : Disposition) (h : Handled σ) :
    settledAs d [h] = if h.disposition = d then 1 else 0 := by
  rw [settledAs, List.countP_singleton]
  simp only [decide_eq_true_eq]

/-- Whether a disposition is one of a message that is acknowledged. -/
def Disposition.acknowledges : Disposition → Bool
  | .leftForRedelivery => false
  | _ => true

/-- The acknowledgement that a handling is to make, if any. -/
def Handled.acknowledgement (h : Handled σ) : List Nat :=
  if h.disposition.acknowledges then [h.message.number] else []

theorem Handled.Occurs.tallied {h : Handled σ} (hoccurs : h.Occurs s) :
    Tallied h.message h.disposition h.before.standing.tally h.after.standing.tally :=
  (Run.settle_tallies h.message).ok hoccurs

theorem Tallied.acknowledged {m : Message} {d : Disposition} {t t' : Tally} (h : Tallied m d t t') :
    t'.acknowledged = t.acknowledged ++ if d.acknowledges then [m.number] else [] := by
  obtain ⟨failures, t₁, hattempted, -, rfl⟩ := h
  rw [← hattempted.acknowledged]
  cases d <;> simp [Tally.concluded, Tally.count, Disposition.acknowledges]

/-- What the tally of a consumer has grown by in a course. -/
structure Balances (hs : List (Handled σ)) (failures : Nat) (t t' : Tally) : Prop where
  acknowledged : t'.acknowledged = t.acknowledged ++ hs.flatMap Handled.acknowledgement
  posted : t'.metrics.get .statementsPosted + t'.metrics.get .duplicateEvents =
    t.metrics.get .statementsPosted + t.metrics.get .duplicateEvents + settledAs .acknowledged hs
  deadLettered : t'.metrics.get .deadLettered = t.metrics.get .deadLettered + settledAs .deadLettered hs
  leftForRedelivery : t'.metrics.get .leftForRedelivery =
    t.metrics.get .leftForRedelivery + settledAs .leftForRedelivery hs
  fetchFailures : t'.metrics.get .fetchFailures = t.metrics.get .fetchFailures + failures
  failedAtLeast : t.metrics.get .failedAttempts + 3 * (settledAs .deadLettered hs + settledAs .leftForRedelivery hs) ≤
    t'.metrics.get .failedAttempts
  failedAtMost : t'.metrics.get .failedAttempts ≤ t.metrics.get .failedAttempts +
    3 * (settledAs .deadLettered hs + settledAs .leftForRedelivery hs) + 2 * settledAs .acknowledged hs
  alerts : t'.metrics.get .alertsSent + t'.metrics.get .alertsDropped + t.metrics.get .statementsPosted ≤
    t.metrics.get .alertsSent + t.metrics.get .alertsDropped + t'.metrics.get .statementsPosted

theorem Balances.start (t : Tally) : Balances ([] : List (Handled σ)) 0 t t := by
  constructor <;> simp

theorem Balances.handled {hs : List (Handled σ)} {h : Handled σ} {failures : Nat} {t t₁ t₂ : Tally}
    (hbalances : Balances hs failures t t₁) (htallied : Tallied h.message h.disposition t₁ t₂) :
    Balances (hs ++ [h]) failures t t₂ := by
  have hacknowledged := htallied.acknowledged
  obtain ⟨attempts, t', hattempted, hattempts, rfl⟩ := htallied
  have hposted := hattempted.succeeded
  have hfailed := hattempted.failed
  have hdead := hattempted.deadLettered
  have hleft := hattempted.leftForRedelivery
  have hfetch := hattempted.fetchFailures
  have halerts := hattempted.offered
  obtain ⟨h₁, h₂, h₃, h₄, h₅, h₆, h₇, h₈⟩ := hbalances
  simp only [Metrics.get] at h₂ h₃ h₄ h₅ h₆ h₇ h₈
  refine ⟨?_, ?_, ?_, ?_, ?_, ?_, ?_, ?_⟩
  · rw [hacknowledged, h₁, List.flatMap_append, List.append_assoc]
    simp [Handled.acknowledgement]
  all_goals
    rcases hd : h.disposition <;> rw [hd] at hposted hattempts <;>
      simp only [settledAs_append, settledAs_singleton, hd, Tally.concluded, Tally.count, Metrics.count,
        Metrics.get, Limits.attempts, reduceCtorEq, if_true, if_false] at hposted hattempts ⊢ <;> omega

theorem Balances.interlude {hs : List (Handled σ)} {failures more : Nat} {t : Tally}
    (hbalances : Balances hs failures t w.standing.tally) (hinterlude : Interlude w more w') :
    Balances hs (failures + more) t w'.standing.tally := by
  obtain ⟨h₁, h₂, h₃, h₄, h₅, h₆, h₇, h₈⟩ := hbalances
  have hcounted : ∀ m, w'.standing.tally.metrics.get m =
      w.standing.tally.metrics.get m + if m = .fetchFailures then more else 0 := hinterlude.counted
  refine ⟨?_, ?_, ?_, ?_, ?_, ?_, ?_, ?_⟩
  · rw [hinterlude.acknowledged, h₁]
  all_goals simp only [hcounted, reduceCtorEq, if_true, if_false, Nat.add_zero]; omega

theorem Course.balances {hs : List (Handled σ)} {failures : Nat} (h : Course s w hs failures w') :
    Balances hs failures w.standing.tally w'.standing.tally := by
  induction h with
  | start => exact .start _
  | handled x _ hoccurs ih => exact ih.handled hoccurs.tallied
  | interlude _ hinterlude ih => exact ih.interlude hinterlude

/-! ### Fetch loops -/

/-- The messages that so many fetches bring from a source, in their order. -/
def fetchedMessages (source : Source) (fetches : Nat) : List Message :=
  numbered 0 ((source.take fetches).flatMap fun entry => entry.2.messages)

theorem numbered_append (delivered : Nat) (xs ys : List (Text.Bytes × Fault)) :
    numbered delivered (xs ++ ys) = numbered delivered xs ++ numbered (delivered + xs.length) ys := by
  simp only [numbered, List.mapIdx_append]
  congr 2
  funext i entry
  rw [Nat.add_comm i, ← Nat.add_assoc delivered]

/-- What a part of a fetch loop does: some messages are handled, and the report counts them and the fetches. -/
structure Advance (s : Setup σ) (w : World σ) (r : FetchReport) (fetches : Nat) (messages : List Message)
    (hs : List (Handled σ)) (w' : World σ) (r' : FetchReport) : Prop where
  course : ∃ failures, Course s w hs failures w' ∧ r'.failures = r.failures + failures
  messages : hs.map Handled.message = messages
  fetches : r'.fetches = r.fetches + fetches
  acknowledged : r'.acknowledged = r.acknowledged + settledAs .acknowledged hs
  deadLettered : r'.deadLettered = r.deadLettered + settledAs .deadLettered hs
  leftForRedelivery : r'.leftForRedelivery = r.leftForRedelivery + settledAs .leftForRedelivery hs

namespace Advance

variable {r r₁ r' : FetchReport} {k k' : Nat} {messages messages' : List Message} {hs hs' : List (Handled σ)}

theorem refl (w : World σ) (r : FetchReport) : Advance s w r 0 [] [] w r where
  course := ⟨0, .start, rfl⟩
  messages := rfl
  fetches := rfl
  acknowledged := rfl
  deadLettered := rfl
  leftForRedelivery := rfl

theorem trans (h : Advance s w r k messages hs w₁ r₁) (h' : Advance s w₁ r₁ k' messages' hs' w' r') :
    Advance s w r (k + k') (messages ++ messages') (hs ++ hs') w' r' where
  course := by
    obtain ⟨failures, hcourse, hfailures⟩ := h.course
    obtain ⟨failures', hcourse', hfailures'⟩ := h'.course
    exact ⟨failures + failures', hcourse.append hcourse', by rw [hfailures', hfailures, Nat.add_assoc]⟩
  messages := by rw [List.map_append, h.messages, h'.messages]
  fetches := by rw [h'.fetches, h.fetches, Nat.add_assoc]
  acknowledged := by rw [h'.acknowledged, h.acknowledged, settledAs_append, Nat.add_assoc]
  deadLettered := by rw [h'.deadLettered, h.deadLettered, settledAs_append, Nat.add_assoc]
  leftForRedelivery := by rw [h'.leftForRedelivery, h.leftForRedelivery, settledAs_append, Nat.add_assoc]

theorem settled {h : Handled σ} (hoccurs : h.Occurs s) (r : FetchReport) :
    Advance s h.before r 0 [h.message] [h] h.after (r.settled h.disposition) where
  course := ⟨0, .handled h .start hoccurs, by cases h.disposition <;> rfl⟩
  messages := rfl
  fetches := by cases h.disposition <;> rfl
  acknowledged := by rw [settledAs_singleton]; cases h.disposition <;> rfl
  deadLettered := by rw [settledAs_singleton]; cases h.disposition <;> rfl
  leftForRedelivery := by rw [settledAs_singleton]; cases h.disposition <;> rfl

theorem fetched (h : Interlude w 0 w') (r : FetchReport) : Advance s w r 1 [] [] w' r.fetched where
  course := ⟨0, .of_interlude h, rfl⟩
  messages := rfl
  fetches := rfl
  acknowledged := rfl
  deadLettered := rfl
  leftForRedelivery := rfl

theorem failed (h : Interlude w 1 w') (r : FetchReport) : Advance s w r 1 [] [] w' r.fetched.failed where
  course := ⟨1, .of_interlude h, rfl⟩
  messages := rfl
  fetches := rfl
  acknowledged := rfl
  deadLettered := rfl
  leftForRedelivery := rfl

end Advance

/-- Whether something that a source brings is waited for without end. -/
def Stalls (source : Source) : Prop :=
  ∃ entry ∈ source, entry.1 = none ∨ ∃ message ∈ entry.2.messages, message.2.delay = none

instance (source : Source) : Decidable (Stalls source) :=
  inferInstanceAs (Decidable (∃ entry ∈ source, entry.1 = none ∨ ∃ message ∈ entry.2.messages, message.2.delay = none))

namespace Run

/-- How a part of a fetch loop ends early: in an overflow while a message is in hand, or by waiting without
end. -/
def fetchHalted (s : Setup σ) (w : World σ) (stalls : Prop) : Halt → World σ → Prop
  | .overflow, w' => ∃ hs, Aborted s w hs w'
  | .horizon, _ => s.horizon.isSome ∨ stalls

theorem fetchHalted.after {hs : List (Handled σ)} {failures : Nat} {stalls stalls' : Prop} {halt : Halt}
    (hcourse : Course s w hs failures w₁) (h : fetchHalted s w₁ stalls halt w') (hstalls : stalls → stalls') :
    fetchHalted s w stalls' halt w' := by
  cases halt with
  | overflow =>
      obtain ⟨hs', haborted⟩ := h
      exact ⟨hs ++ hs', haborted.after hcourse⟩
  | horizon => exact Or.imp_right hstalls h

theorem settle_occurs (m : Message) :
    Ends (settle s m) w (fun d w' => Handled.Occurs s ⟨m, w, d, w'⟩)
      (fetchHalted s w (m.acknowledging.delay = none)) := by
  have hhalts := settle_tallies (s := s) (w := w) m
  rcases hexec : exec (settle s m) w with ⟨(_ | _) | d, w'⟩
  · rw [Ends, hexec]
    exact ⟨[], 0, w, m, .start, hexec⟩
  · rw [Ends, hexec]
    exact hhalts.error hexec
  · exact .of_exec hexec hexec

section Keeping

variable {kept : List Message → World σ → Prop} {before : List Message}

theorem settleAll_advances (hkeeps : Keeps s kept) (messages : List Message) (r : FetchReport) (hw : kept before w) :
    Ends (settleAll (settle s) messages r) w
      (fun r' w' => (∃ hs, Advance s w r 0 messages hs w' r') ∧ kept (before ++ messages) w')
      (fetchHalted s w (∃ m ∈ messages, m.acknowledging.delay = none)) := by
  induction messages generalizing r w before with
  | nil => exact ends_pure ⟨⟨[], .refl w r⟩, by rwa [List.append_nil]⟩
  | cons m rest ih =>
      refine ((settle_occurs m).mono (fun _ _ h => h) fun halt w' h =>
        h.after .start fun hm => ⟨m, List.mem_cons_self, hm⟩).bind fun d w₁ hoccurs => ?_
      have hfirst : Advance s w r 0 [m] [⟨m, w, d, w₁⟩] w₁ (r.settled d) := .settled hoccurs r
      obtain ⟨failures, hcourse, -⟩ := hfirst.course
      refine (ih (r.settled d) (hkeeps.settled hw hoccurs)).mono ?_ fun halt w' h => h.after hcourse
        fun ⟨m', hm', hnone⟩ => ⟨m', List.mem_cons_of_mem _ hm', hnone⟩
      rintro r' w' ⟨⟨hs, hrest⟩, hkept⟩
      rw [List.append_assoc] at hkept
      exact ⟨⟨_, hfirst.trans hrest⟩, hkept⟩

theorem Ends.pause {x : Run σ α} {failures : Nat} {halted : Halt → World σ → Prop}
    (h : Ends x w (fun _ w' => Interlude w failures w') halted) (hgoes : Goes s x w) :
    Ends x w (fun _ w' => Pause s w failures w') halted := by
  rcases hexec : exec x w with ⟨halt | a, w'⟩
  · rw [Ends, hexec]
    exact h.error hexec
  · refine .of_exec hexec ⟨h.ok hexec, fun hlasts => ?_⟩
    have hsteps := hgoes hlasts
    rwa [hexec] at hsteps

theorem note_interlude {what : Happening} (hdeed : what.isDeed = true) (hhandling : what.isHandling = false)
    {halted : Halt → World σ → Prop} : Ends (note what) w (fun _ w' => Interlude w 0 w') halted :=
  (note_ends hdeed).mono (fun _ _ h => .of_deed hhandling h) fun _ _ h => h

theorem failure_pause {halted : Halt → World σ → Prop} :
    Ends (count .fetchFailures) w (fun _ w' => Pause s w 1 w') halted :=
  Ends.pause (ends_modify .of_failure) (goes_count .fetchFailures)

theorem fetching_pause (f : Fetching) {halted : Halt → World σ → Prop} :
    Ends (note (.fetching f.batchSize f.maxWait)) w (fun _ w' => Pause s w 0 w') halted :=
  Ends.pause (note_interlude rfl rfl) (goes_note rfl rfl)

theorem exhaust_advances (hkeeps : Keeps s kept) (f : Fetching) (left : Nat) (r : FetchReport) (hw : kept before w)
    {halted : Halt → World σ → Prop} :
    Ends (exhaust f left r) w (fun r' w' => Advance s w r left [] [] w' r' ∧ kept before w') halted := by
  induction left generalizing r w with
  | zero => exact ends_pure ⟨.refl w r, hw⟩
  | succ left ih =>
      refine (fetching_pause (s := s) f).bind fun _ w₁ h₁ => (failure_pause (s := s)).bind fun _ w₂ h₂ => ?_
      have hfailed : Pause s w 1 w₂ := by simpa using h₁.trans h₂
      refine (ih r.fetched.failed (hkeeps.paused hw hfailed)).mono (fun r' w' h => ⟨?_, h.2⟩) fun _ _ h => h
      have hall := (Advance.failed hfailed.interlude r).trans h.1
      rwa [Nat.add_comm 1 left] at hall

/-- A fetch loop handles the messages of its batches in their order and counts what becomes of them. -/
theorem fetchLoop_advances (hkeeps : Keeps s kept) (f : Fetching) (source : Source) (delivered : Nat) (r : FetchReport)
    (hw : kept before w) :
    Ends (fetchLoop s f (settle s) source delivered r) w
      (fun r' w' => ∃ k, (∃ hs, Advance s w r k
        (numbered delivered ((source.take k).flatMap fun entry => entry.2.messages)) hs w' r') ∧
        kept (before ++ numbered delivered ((source.take k).flatMap fun entry => entry.2.messages)) w')
      (fetchHalted s w (Stalls source)) := by
  induction source generalizing delivered r w before with
  | nil =>
      refine (exhaust_advances hkeeps f (f.failureThreshold - r.failures) r hw).mono (fun r' w' h => ?_)
        fun _ _ h => h
      exact ⟨f.failureThreshold - r.failures, ⟨[], by simpa [numbered] using h.1⟩, by simpa [numbered] using h.2⟩
  | cons entry rest ih =>
      obtain ⟨delay, fetched⟩ := entry
      have hrest : ∀ {w₁ : World σ} {r₁ : FetchReport} {hs : List (Handled σ)},
          Advance s w r 1 (numbered delivered fetched.messages) hs w₁ r₁ →
          kept (before ++ numbered delivered fetched.messages) w₁ →
          Ends (fetchLoop s f (settle s) rest (delivered + fetched.messages.length) r₁) w₁
            (fun r' w' => ∃ k, (∃ hs, Advance s w r k (numbered delivered
              ((((delay, fetched) :: rest).take k).flatMap fun entry => entry.2.messages)) hs w' r') ∧
              kept (before ++ numbered delivered
                ((((delay, fetched) :: rest).take k).flatMap fun entry => entry.2.messages)) w')
            (fetchHalted s w (Stalls ((delay, fetched) :: rest))) := by
        intro w₁ r₁ hs hfirst hkept
        obtain ⟨failures, hcourse, -⟩ := hfirst.course
        have hlater : Stalls rest → Stalls ((delay, fetched) :: rest) := by
          rintro ⟨entry, hentry, hstalls⟩
          exact ⟨entry, List.mem_cons_of_mem _ hentry, hstalls⟩
        refine (ih (delivered + fetched.messages.length) r₁ hkept).mono ?_ fun halt w' h => h.after hcourse hlater
        rintro r' w' ⟨k, ⟨hs', hlast⟩, hkept'⟩
        rw [List.append_assoc, ← numbered_append] at hkept'
        refine ⟨1 + k, ⟨hs ++ hs', ?_⟩, ?_⟩
        · rw [Nat.add_comm 1 k, List.take_succ_cons, List.flatMap_cons, numbered_append, Nat.add_comm k 1]
          exact hfirst.trans hlast
        · rwa [Nat.add_comm 1 k, List.take_succ_cons, List.flatMap_cons]
      unfold fetchLoop
      split
      · exact ends_pure ⟨0, ⟨[], .refl w r⟩, by simpa [numbered] using hw⟩
      · refine (fetching_pause (s := s) f).bind fun _ w₁ h₁ => ?_
        have hwaits : Ends (wait s delay) w₁ (fun _ w₂ => Pause s w 0 w₂)
            (fetchHalted s w (Stalls ((delay, fetched) :: rest))) := by
          refine (Ends.pause ((wait_ends delay).mono (fun _ _ h => .of_standing h) fun _ _ h => h)
            (goes_wait delay)).mono (fun _ _ h₂ => h₁.trans h₂) ?_
          rintro halt w' ⟨rfl, -, hhorizon⟩
          exact Or.imp_right (fun hnone => ⟨_, List.mem_cons_self, .inl hnone⟩) hhorizon
        refine hwaits.bind fun _ w₂ hbegun => ?_
        have hfailing : Ends (count .fetchFailures) w₂ (fun _ w₃ => Pause s w 1 w₃)
            (fetchHalted s w (Stalls ((delay, fetched) :: rest))) :=
          failure_pause.mono (fun _ _ h₃ => by simpa using hbegun.trans h₃) fun _ _ h => h
        have hquiet : ∀ {w₃}, Pause s w 1 w₃ → kept (before ++ []) w₃ := fun h₃ => by
          rw [List.append_nil]
          exact hkeeps.paused hw h₃
        split
        · exact hrest (.fetched hbegun.interlude r) (by
            change kept (before ++ []) w₂
            rw [List.append_nil]
            exact hkeeps.paused hw hbegun)
        · exact hfailing.bind fun _ _ h₃ => hrest (.failed h₃.interlude r) (hquiet h₃)
        · exact hfailing.bind fun _ _ h₃ => hrest (.failed h₃.interlude r) (hquiet h₃)
        · rename_i m more
          have hfetched : Advance s w r 1 [] [] w₂ r.fetched := .fetched hbegun.interlude r
          obtain ⟨failures, hcourse, -⟩ := hfetched.course
          refine ((settleAll_advances hkeeps (numbered delivered (m :: more)) r.fetched
            (hkeeps.paused hw hbegun)).mono (fun _ _ h => h) fun halt w' h => h.after hcourse ?_).bind ?_
          · rintro ⟨m', hm', hnone⟩
            rw [numbered, List.mem_mapIdx] at hm'
            obtain ⟨i, hi, rfl⟩ := hm'
            exact ⟨_, List.mem_cons_self, .inr ⟨_, List.getElem_mem hi, hnone⟩⟩
          · rintro r₁ w₃ ⟨⟨hs, h₃⟩, hkept⟩
            exact hrest (hfetched.trans h₃) hkept

end Keeping

end Run

/-! ### Rounds -/

/-- A round that was provisioned: the source that it read, its report and its handlings. -/
structure Round (σ : Type) where
  source : Source
  report : FetchReport
  handlings : List (Handled σ)

/-- Whether a round handled every message that its fetches brought, in their order, and reports what became
of them. -/
structure Round.Complete (x : Round σ) : Prop where
  messages : x.handlings.map Handled.message = fetchedMessages x.source x.report.fetches
  acknowledged : x.report.acknowledged = settledAs .acknowledged x.handlings
  deadLettered : x.report.deadLettered = settledAs .deadLettered x.handlings
  leftForRedelivery : x.report.leftForRedelivery = settledAs .leftForRedelivery x.handlings

/-- What some rounds on a connection do, one after the other; one without a source of its own reads an
empty one. -/
structure Rounds (s : Setup σ) (w : World σ) (sources : List Source) (count : Nat) (xs : List (Round σ))
    (w' : World σ) : Prop where
  course : Course s w (xs.flatMap Round.handlings) (xs.map fun x => x.report.failures).sum w'
  complete : ∀ x ∈ xs, x.Complete
  sources : (xs.map Round.source).Sublist (sources ++ List.replicate count [])

namespace Rounds

variable {sources rest : List Source} {count : Nat} {xs : List (Round σ)}

theorem failed (hinterlude : Interlude w 0 w₁) (h : Rounds s w₁ rest count xs w') (hrest : rest.Sublist sources) :
    Rounds s w sources (count + 1) xs w' where
  course := by simpa using (Course.of_interlude hinterlude).append h.course
  complete := h.complete
  sources := h.sources.trans
    (hrest.append ((List.replicate_sublist_replicate _).2 (Nat.le_succ count)))

theorem fetched {x : Round σ} (hcourse : Course s w x.handlings x.report.failures w₁) (hx : x.Complete)
    (hsource : x.source = sources.headD []) (h : Rounds s w₁ sources.tail count xs w') :
    Rounds s w sources (count + 1) (x :: xs) w' where
  course := hcourse.append h.course
  complete := List.forall_mem_cons.2 ⟨hx, h.complete⟩
  sources := by
    rw [List.map_cons, hsource]
    cases sources with
    | nil => exact h.sources.cons_cons []
    | cons source rest =>
        refine (h.sources.trans ?_).cons_cons source
        exact (List.Sublist.refl rest).append ((List.replicate_sublist_replicate _).2 (Nat.le_succ count))

end Rounds

namespace Run

/-- A call on the broker is made between handlings. -/
theorem callBroker_interlude {seam : Seam} {what : Happening} {work : Run σ α} (hdeed : what.isDeed = true)
    (hhandling : what.isHandling = false)
    (hwork : ∀ w₁ : World σ, Ends work w₁ (fun _ w₂ => Interlude w₁ 0 w₂) fun _ _ => False) :
    Ends (callBroker s seam what work) w (fun _ w' => Interlude w 0 w') fun halt _ => halt = .horizon := by
  unfold callBroker
  apply (note_interlude hdeed hhandling).bind
  intro _ w₁ h₁
  apply (nextFault_ends seam).bind
  intro fault w₂ h₂
  have hbegun : Interlude w 0 w₂ := h₁.trans (.of_standing h₂)
  have hwaits : ∀ w₃, Interlude w 0 w₃ →
      Ends (wait s fault.delay) w₃ (fun _ w₄ => Interlude w 0 w₄) fun halt _ => halt = .horizon :=
    fun w₃ h₃ => (wait_ends fault.delay).mono (fun _ _ h₄ => h₃.trans (.of_standing h₄)) fun _ _ h => h.1
  have hworks : ∀ w₃, Interlude w 0 w₃ →
      Ends work w₃ (fun _ w₄ => Interlude w 0 w₄) fun halt _ => halt = .horizon :=
    fun w₃ h₃ => (hwork w₃).mono (fun _ _ h₄ => h₃.trans h₄) fun _ _ h => h.elim
  dsimp only
  split
  · exact (hworks w₂ hbegun).bind fun _ w₃ h₃ => (hwaits w₃ h₃).bind fun _ _ h₄ => ends_pure h₄
  · apply (hwaits w₂ hbegun).bind
    intro _ w₃ h₃
    split
    · exact ends_pure h₃
    · exact (hworks w₃ h₃).bind fun _ _ h₄ => ends_pure h₄

theorem provision_interlude (sub : Subscription) :
    Ends (provision s sub) w (fun _ w' => Interlude w 0 w') fun halt _ => halt = .horizon := by
  have hquiet : ∀ (seam : Seam) (what : Happening) (w₁ : World σ), what.isDeed = true → what.isHandling = false →
      Ends (callBroker s seam what (pure ())) w₁ (fun _ w' => Interlude w₁ 0 w') fun halt _ => halt = .horizon :=
    fun _ _ _ hdeed hhandling => callBroker_interlude hdeed hhandling fun w₁ => ends_pure (.refl w₁)
  have hconsumer : ∀ w₁, Interlude w 0 w₁ →
      Ends (callBroker s .createConsumer (.creatingConsumer sub) nextSource) w₁ (fun _ w' => Interlude w 0 w')
        fun halt _ => halt = .horizon := by
    intro w₁ h₁
    refine (callBroker_interlude rfl rfl fun w₂ => ?_).mono (fun _ _ h => h₁.trans h) fun _ _ h => h
    exact ⟨rfl, rfl, fun m => by simp⟩
  unfold provision
  apply (hquiet _ _ _ rfl rfl).bind
  intro created w₁ h₁
  cases created with
  | ok _ => exact hconsumer w₁ h₁
  | error _ =>
      refine ((hquiet _ _ w₁ rfl rfl).mono (fun _ _ h => h₁.trans h) fun _ _ h => h).bind
        fun updated w₂ (h₂ : Interlude w 0 w₂) => ?_
      cases updated with
      | ok _ => exact hconsumer w₂ h₂
      | error e => exact ends_pure h₂

theorem provision_pause (sub : Subscription) :
    Ends (provision s sub) w (fun _ w' => Pause s w 0 w') fun halt _ => halt = .horizon :=
  Ends.pause (provision_interlude sub) (goes_provision sub)

section Keeping

variable {kept : List Message → World σ → Prop} {before : List Message}

/-- A fetch loop makes a complete round of its source. -/
theorem fetchAll_keeps (hkeeps : Keeps s kept) (f : Fetching) (source : Source) (hw : kept before w) :
    Ends (fetchAll s f source) w
      (fun report w' => ∃ hs, Course s w hs report.failures w' ∧ Round.Complete ⟨source, report, hs⟩ ∧
        kept (before ++ hs.map Handled.message) w')
      (fetchHalted s w (Stalls source)) := by
  refine (fetchLoop_advances hkeeps f source 0 FetchReport.zero hw).mono ?_ fun _ _ h => h
  rintro report w' ⟨k, ⟨hs, hadvance⟩, hkept⟩
  obtain ⟨failures, hcourse, hfailures⟩ := hadvance.course
  obtain rfl : k = report.fetches := by simpa [FetchReport.zero] using hadvance.fetches.symm
  obtain rfl : failures = report.failures := by simpa [FetchReport.zero] using hfailures.symm
  refine ⟨hs, hcourse, ⟨hadvance.messages, by simpa [FetchReport.zero] using hadvance.acknowledged,
    by simpa [FetchReport.zero] using hadvance.deadLettered,
    by simpa [FetchReport.zero] using hadvance.leftForRedelivery⟩, ?_⟩
  rwa [hadvance.messages]

/-- The rounds on a connection handle the messages of their sources, and keep what is kept. -/
theorem rounds_keep (hkeeps : Keeps s kept) (sub : Subscription) (f : Fetching) (left : Nat) (r : ProvisionReport)
    (hw : kept before w) :
    Ends (rounds s sub f left r) w
      (fun r' w' => ∃ xs, r'.fetchReports = r.fetchReports ++ xs.map Round.report ∧
        Rounds s w w.sources left xs w' ∧ kept (before ++ (xs.flatMap Round.handlings).map Handled.message) w')
      (fun halt w' => halt = .overflow → ∃ hs, Aborted s w hs w') := by
  induction left generalizing r w before with
  | zero =>
      refine ends_pure ⟨[], by simp, ?_, by simpa using hw⟩
      exact ⟨.start, by simp, by simp⟩
  | succ left ih =>
      unfold rounds
      refine (((provision_ends sub).and (provision_pause sub)).mono (fun _ _ h => h) ?_).bind
        fun result w₁ hprovided => ?_
      · rintro halt w' ⟨-, rfl⟩ hoverflow
        cases hoverflow
      obtain ⟨hsources, hpause⟩ := hprovided
      have hinterlude := hpause.interlude
      cases result with
      | error e =>
          have hrest : w₁.sources.Sublist w.sources := by
            rcases hsources with h | h
            · rw [h]
            · rw [h]
              exact List.tail_sublist _
          refine (ih r.failed (hkeeps.paused hw hpause)).mono ?_ fun halt w' haborted hoverflow => ?_
          · rintro r' w' ⟨xs, hreports, hrounds, hkept⟩
            exact ⟨xs, hreports, hrounds.failed hinterlude hrest, hkept⟩
          · obtain ⟨hs, haborted⟩ := haborted hoverflow
            exact ⟨_, haborted.after (.of_interlude hinterlude)⟩
      | ok source =>
          obtain ⟨rfl, htail⟩ := hsources
          refine (((fetchAll_ends f (w.sources.headD [])).and
            (fetchAll_keeps hkeeps f (w.sources.headD []) (hkeeps.paused hw hpause))).mono (fun _ _ h => h) ?_).bind ?_
          · rintro halt w' ⟨-, haborted⟩ rfl
            obtain ⟨hs, haborted⟩ := haborted
            exact ⟨_, haborted.after (.of_interlude hinterlude)⟩
          · rintro report w₂ ⟨⟨hsources₂, -⟩, hs, hcourse, hcomplete, hkept⟩
            have hfirst : Course s w hs report.failures w₂ := by
              simpa using (Course.of_interlude hinterlude).append hcourse
            refine (ih (r.fetched report) hkept).mono ?_ fun halt w' haborted hoverflow => ?_
            · rintro r' w' ⟨xs, hreports, hrounds, hkept'⟩
              rw [hsources₂, htail] at hrounds
              refine ⟨⟨w.sources.headD [], report, hs⟩ :: xs, ?_, .fetched hfirst hcomplete rfl hrounds, ?_⟩
              · rw [hreports, ProvisionReport.fetched, List.append_assoc]
                rfl
              · rwa [List.append_assoc, ← List.map_append] at hkept'
            · obtain ⟨hs', haborted⟩ := haborted hoverflow
              exact ⟨_, haborted.after hfirst⟩

end Keeping

theorem fetchAll_completes (f : Fetching) (source : Source) :
    Ends (fetchAll s f source) w
      (fun report w' => ∃ hs, Course s w hs report.failures w' ∧ Round.Complete ⟨source, report, hs⟩)
      (fetchHalted s w (Stalls source)) :=
  (@fetchAll_keeps σ s w (fun _ _ => True) [] (Keeps.trivial s) f source trivial).mono
    (fun _ _ ⟨hs, hcourse, hcomplete, _⟩ => ⟨hs, hcourse, hcomplete⟩) fun _ _ h => h

/-- The rounds on a connection handle the messages of their sources. -/
theorem rounds_course (sub : Subscription) (f : Fetching) (left : Nat) (r : ProvisionReport) :
    Ends (rounds s sub f left r) w
      (fun r' w' => ∃ xs, r'.fetchReports = r.fetchReports ++ xs.map Round.report ∧
        Rounds s w w.sources left xs w')
      (fun halt w' => halt = .overflow → ∃ hs, Aborted s w hs w') :=
  (@rounds_keep σ s w (fun _ _ => True) [] (Keeps.trivial s) sub f left r trivial).mono
    (fun _ _ ⟨xs, hreports, hrounds, _⟩ => ⟨xs, hreports, hrounds⟩) fun _ _ h => h

end Run

end UsageLedger.Delivery
