import UsageLedger.Proofs.Delivery.Conservation

/-! What a side channel accepts it forwards in order, and it loses at most one notice, the last. While a
connection is used, what a channel has accepted is what it has published and the notice that waits in it;
the waiting notice is lost if its publisher is not free before the channel is closed. The letters that
are accepted are the payloads of the messages that were dead-lettered, and the alerts are those that were
counted as sent. -/

namespace UsageLedger.Delivery

open Ledger

variable {σ : Type} {s : Setup σ} {p : Plan} {c : Channel} {w₀ w w' : World σ}

/-- The subject that a side channel is published to. -/
def Plan.subject (p : Plan) : Channel → String
  | .alerts => p.alertSubject
  | .letters => p.letterSubject

/-- What a side channel has accepted, the first first. -/
def World.accepted (w : World σ) (c : Channel) : List Notice := w.standing.tally.accepted.filter (·.channel = c)

/-- Whether a side channel has forwarded `sent` since a world before and has accepted `kept` besides. -/
structure Forwards (p : Plan) (c : Channel) (w₀ : World σ) (sent kept : List Notice) (w : World σ) : Prop where
  published : w.published c = w₀.published c ++ sent.map fun notice => (p.subject c, notice.payload)
  accepted : w.accepted c = w₀.accepted c ++ (sent ++ kept)

/-- A side channel in use: what it has accepted and not forwarded waits in it. -/
structure Forwarding (p : Plan) (c : Channel) (w₀ w : World σ) : Prop where
  receiver : ∃ freeAt, (w.side c).receiver = .publisher (p.subject c) freeAt
  forwards : ∃ sent, Forwards p c w₀ sent (w.side c).slot.toList w

/-! ### Steps -/

namespace World

theorem accepted_of_standing (h : w'.standing = w.standing) : w'.accepted c = w.accepted c := by
  rw [accepted, h, accepted]

theorem accepted_note {time : Nat} {what : Happening} (hdeed : what.isDeed = true) :
    (w.note time what).accepted c = w.accepted c ++ what.accepted?.toList.filter (·.channel = c) := by
  rw [accepted, standing_note hdeed, Tally.tally_doing, List.filter_append, accepted]

theorem published_note {time : Nat} {what : Happening} (hdeed : what.isDeed = true) :
    (w.note time what).published c = w.published c := by
  have hnothing : what.published? c = none := by
    cases what with
    | published subject notice => cases hdeed
    | _ => rfl
  rw [published_of_history (rfl : (w.note time what).history = (time, what) :: w.history), hnothing]
  exact List.append_nil _

theorem side_put_of_ne {notice : Notice} (h : notice.channel ≠ c) : (w.put notice).side c = w.side c := by
  cases notice <;> cases c <;> first | rfl | exact (h rfl).elim

theorem side_put (notice : Notice) :
    (w.put notice).side notice.channel = ⟨some notice, (w.side notice.channel).receiver⟩ := by
  cases notice <;> rfl

end World

/-- The clock moves: a notice that is due is forwarded, and any other one goes on waiting. -/
theorem Forwarding.moved (h : Forwarding p c w₀ w) (time : Nat) : Forwarding p c w₀ (w.moveTo time) := by
  obtain ⟨⟨freeAt, hreceiver⟩, sent, hpublished, haccepted⟩ := h
  have hsame : (w.moveTo time).accepted c = w.accepted c := World.accepted_of_standing World.standing_moveTo
  cases hdue : World.isDue ((w.side c).takenAt? w.clock) time with
  | false =>
      obtain ⟨hside, hpublished'⟩ := World.moveTo_of_not_due hdue
      refine ⟨⟨freeAt, by rw [hside, hreceiver]⟩, sent, ?_, ?_⟩
      · rw [hpublished', hpublished]
      · rw [hsame, hside, haccepted]
  | true =>
      obtain ⟨notice, subject, freeAt', hside, -, hpublished', fault, -, hside'⟩ := World.moveTo_of_due hdue
      rw [hside] at hreceiver haccepted
      obtain ⟨rfl, -⟩ := Receiver.publisher.inj hreceiver
      refine ⟨⟨_, congrArg Queue.receiver hside'⟩, sent ++ [notice], ?_, ?_⟩
      · rw [hpublished', hpublished, List.map_append, List.append_assoc]
        rfl
      · rw [hsame, haccepted, hside']
        simp

/-- Every step on a connection keeps a side channel forwarding. -/
theorem Forwarding.step {w₁ w₂ : World σ} (hstep : World.Step s w₁ w₂) (h : Forwarding p c w₀ w₁) :
    Forwarding p c w₀ w₂ := by
  have hsame := h
  obtain ⟨⟨freeAt, hreceiver⟩, sent, hpublished, haccepted⟩ := h
  cases hstep with
  | moved time => exact hsame.moved time
  | accepted notice hroom =>
      have hpublished' : ((w₁.put notice).note w₁.clock (.offered notice none)).published c = w₁.published c := by
        rw [World.published_note rfl]
        cases notice <;> rfl
      have haccepted' : ((w₁.put notice).note w₁.clock (.offered notice none)).accepted c =
          w₁.accepted c ++ [notice].filter (·.channel = c) := by
        rw [World.accepted_note rfl]
        cases notice <;> rfl
      have hside' : ((w₁.put notice).note w₁.clock (.offered notice none)).side c = (w₁.put notice).side c := rfl
      by_cases hc : notice.channel = c
      · subst hc
        rw [World.side_put] at hside'
        refine ⟨⟨freeAt, by rw [hside', hreceiver]⟩, sent, by rw [hpublished', hpublished], ?_⟩
        rw [haccepted', haccepted, hside', hroom]
        simp
      · rw [World.side_put_of_ne hc] at hside'
        refine ⟨⟨freeAt, by rw [hside', hreceiver]⟩, sent, by rw [hpublished', hpublished], ?_⟩
        rw [haccepted', haccepted, hside']
        simp [hc]
  | noted what hdeed hrefused =>
      refine ⟨⟨freeAt, hreceiver⟩, sent, by rw [World.published_note hdeed, hpublished], ?_⟩
      rw [World.accepted_note hdeed, haccepted, hrefused]
      exact List.append_nil _
  | faulted seam => exact ⟨⟨freeAt, hreceiver⟩, sent, hpublished, haccepted⟩
  | changed deadline ledger metrics sources => exact ⟨⟨freeAt, hreceiver⟩, sent, hpublished, haccepted⟩

theorem Forwarding.steps {w₁ w₂ : World σ} (hsteps : World.Steps s w₁ w₂) (h : Forwarding p c w₀ w₁) :
    Forwarding p c w₀ w₂ :=
  hsteps.keeps (Forwarding p c w₀) (fun _ _ hstep h => h.step hstep) h

/-! ### Prompt publishers -/

/-- A side channel whose publisher is never busy for longer than the idle interval. -/
structure Prompt (p : Plan) (c : Channel) (w : World σ) : Prop where
  faults : ∀ fault ∈ w.faults.script (.publish (p.subject c)), ∃ d ≤ p.idle, fault.delay = some d
  free : ∃ freeAt ≤ w.clock + p.idle, (w.side c).receiver = .publisher (p.subject c) (some freeAt)

theorem Prompt.moved (h : Prompt p c w) {time : Nat} (hforward : w.clock ≤ time) : Prompt p c (w.moveTo time) := by
  obtain ⟨hfaults, freeAt, hfree, hreceiver⟩ := h
  refine ⟨fun fault hfault => hfaults fault ((w.script_moveTo_suffix time _).subset hfault), ?_⟩
  have hclock : (w.moveTo time).clock = time := rfl
  rw [hclock]
  cases hdue : World.isDue ((w.side c).takenAt? w.clock) time with
  | false =>
      obtain ⟨hside, -⟩ := World.moveTo_of_not_due hdue
      exact ⟨freeAt, by omega, by rw [hside, hreceiver]⟩
  | true =>
      obtain ⟨notice, subject, freeAt', hside, hby, -, fault, hfault, hside'⟩ := World.moveTo_of_due hdue
      rw [hside] at hreceiver
      obtain ⟨rfl, -⟩ := Receiver.publisher.inj hreceiver
      obtain ⟨d, hd, hdelay⟩ : ∃ d ≤ p.idle, fault.delay = some d := by
        rcases hfault with rfl | hmem
        · exact ⟨0, Nat.zero_le _, rfl⟩
        · exact hfaults fault hmem
      exact ⟨max w.clock freeAt' + d, by omega, by rw [hside', hdelay, Option.map_some]⟩

theorem Prompt.steps {w₁ w₂ : World σ} (hsteps : World.Steps s w₁ w₂) (h : Prompt p c w₁) : Prompt p c w₂ := by
  refine hsteps.keeps (Prompt p c) (fun w w' hstep h => ?_) h
  have hfaults : ∀ fault ∈ w'.faults.script (.publish (p.subject c)), ∃ d ≤ p.idle, fault.delay = some d :=
    fun fault hfault => h.faults fault
      ((World.Steps.script_suffix (Relation.ReflTransGen.single hstep) _).subset hfault)
  cases hstep with
  | moved time hforward _ => exact h.moved hforward
  | accepted notice _ =>
      obtain ⟨-, freeAt, hfree, hreceiver⟩ := h
      refine ⟨hfaults, freeAt, by cases notice <;> exact hfree, ?_⟩
      cases notice <;> cases c <;> exact hreceiver
  | noted what _ _ => exact ⟨hfaults, h.free⟩
  | faulted seam => exact ⟨hfaults, h.free⟩
  | changed deadline ledger metrics sources => exact ⟨hfaults, h.free⟩

namespace World

/-- Until when the publisher of a side channel is waited for, a limit apart. -/
def doneOf (w : World σ) (c : Channel) (limit : Nat) : Nat :=
  (doneBy? ((w.moveTo limit).side c) w.clock limit).getD limit

theorem alertsDone_eq (w : World σ) (limit : Nat) : w.alertsDone limit = w.doneOf .alerts limit := by
  rw [alertsDone, doneOf]
  change (doneBy? (w.publish limit).alerts w.clock limit).getD limit =
    (doneBy? ((w.publish limit).side .alerts) w.clock limit).getD limit
  rcases hqueue : (w.publish limit).alerts with ⟨_ | a, _ | _ | ⟨subject, _ | freeAt⟩⟩ <;>
    simp [side, hqueue, doneBy?]

theorem lettersDone_eq (w : World σ) (limit : Nat) : w.lettersDone limit = w.doneOf .letters limit := by
  rw [lettersDone, doneOf]
  change (doneBy? (w.publish limit).letters w.clock limit).getD limit =
    (doneBy? ((w.publish limit).side .letters) w.clock limit).getD limit
  rcases hqueue : (w.publish limit).letters with ⟨_ | a, _ | _ | ⟨subject, _ | freeAt⟩⟩ <;>
    simp [side, hqueue, doneBy?]

/-- A publisher is not done before the time at which it is free. -/
theorem le_doneOf {limit time : Nat} (htime : time ≤ limit)
    (hfree : ∀ subject freeAt, (w.moveTo limit).side c = ⟨none, .publisher subject (some freeAt)⟩ →
      time ≤ max w.clock freeAt) : time ≤ w.doneOf c limit := by
  rw [doneOf]
  rcases hside : (w.moveTo limit).side c with ⟨_ | notice, _ | _ | ⟨subject, _ | freeAt⟩⟩ <;>
    simp only [doneBy?, Option.getD_none, htime]
  split
  · exact hfree subject freeAt hside
  · exact htime

theorem clock_le_doneOf (w : World σ) (c : Channel) (idle : Nat) : w.clock ≤ w.doneOf c (w.clock + idle) :=
  le_doneOf (Nat.le_add_right _ _) fun _ _ _ => Nat.le_max_left _ _

end World

/-- A prompt publisher takes the last notice while it is waited for. -/
theorem Prompt.slot_moveTo_doneOf (h : Prompt p c w) :
    ((w.moveTo (w.doneOf c (w.clock + p.idle))).side c).slot = none := by
  obtain ⟨-, freeAt, hfree, hreceiver⟩ := h
  rcases hside : w.side c with ⟨_ | notice, receiver⟩
  · have hdue : World.isDue ((w.side c).takenAt? w.clock) (w.doneOf c (w.clock + p.idle)) = false := by
      rw [hside]
      rfl
    rw [(World.moveTo_of_not_due hdue).1, hside]
  · rw [hside] at hreceiver
    obtain rfl := hreceiver
    have htaken : (w.side c).takenAt? w.clock = some (max w.clock freeAt) := by rw [hside]; rfl
    have hdue : ∀ time, max w.clock freeAt ≤ time → World.isDue ((w.side c).takenAt? w.clock) time = true := by
      intro time htime
      rw [htaken]
      exact decide_eq_true htime
    have hlimit : max w.clock freeAt ≤ w.clock + p.idle := by omega
    obtain ⟨notice', subject', freeAt', hside₁, -, -, fault, -, hside'⟩ := World.moveTo_of_due (hdue _ hlimit)
    have hdone : max w.clock freeAt ≤ w.doneOf c (w.clock + p.idle) := by
      refine World.le_doneOf hlimit fun subject free hmoved => ?_
      obtain rfl : freeAt' = freeAt := by
        rw [hside] at hside₁
        exact (Option.some.inj (Receiver.publisher.inj (congrArg Queue.receiver hside₁)).2).symm
      rw [hside'] at hmoved
      obtain ⟨d, -, hd⟩ := Option.map_eq_some_iff.1 (Receiver.publisher.inj (congrArg Queue.receiver hmoved)).2
      omega
    obtain ⟨_, _, _, _, _, _, _, _, hslot⟩ := World.moveTo_of_due (hdue _ hdone)
    rw [hslot]

/-! ### Closing -/

theorem Forwards.of_same {sent kept : List Notice} (h : Forwards p c w₀ sent kept w)
    (hpublished : w'.published c = w.published c) (haccepted : w'.accepted c = w.accepted c) :
    Forwards p c w₀ sent kept w' :=
  ⟨hpublished.trans h.published, haccepted.trans h.accepted⟩

theorem Forwarding.of_same (h : Forwarding p c w₀ w) (hside : w'.side c = w.side c)
    (hpublished : w'.published c = w.published c) (haccepted : w'.accepted c = w.accepted c) :
    Forwarding p c w₀ w' := by
  obtain ⟨hreceiver, sent, hforwards⟩ := h
  refine ⟨hside ▸ hreceiver, sent, ?_⟩
  rw [hside]
  exact hforwards.of_same hpublished haccepted

/-- Nothing leaves a channel that is closed. -/
theorem Forwards.moved {sent kept : List Notice} (h : Forwards p c w₀ sent kept w)
    (hclosed : w.side c = Queue.closed) (time : Nat) : Forwards p c w₀ sent kept (w.moveTo time) := by
  have hdue : World.isDue ((w.side c).takenAt? w.clock) time = false := by
    rw [hclosed]
    rfl
  exact h.of_same (World.moveTo_of_not_due hdue).2 (World.accepted_of_standing World.standing_moveTo)

/-- Whether a side channel has forwarded all that it accepted but one notice at most, and that one too if a
condition holds. -/
def ForwardsBut (p : Plan) (c : Channel) (w₀ : World σ) (complete : Prop) (w : World σ) : Prop :=
  ∃ sent lost, Forwards p c w₀ sent lost w ∧ lost.length ≤ 1 ∧ (complete → lost = [])

theorem Forwarding.forwardsBut (h : Forwarding p c w₀ w) {complete : Prop}
    (hcomplete : complete → (w.side c).slot = none) : ForwardsBut p c w₀ complete w := by
  obtain ⟨-, sent, hforwards⟩ := h
  refine ⟨sent, _, hforwards, ?_, fun h => ?_⟩
  · cases (w.side c).slot <;> simp
  · rw [hcomplete h]
    rfl

/-- The world when the alerts have been given up: their channel is closed, and the letters are forwarded on. -/
structure HalfClosed (p : Plan) (w₀ w w' : World σ) : Prop where
  closed : w'.side .alerts = Queue.closed
  alerts : ForwardsBut p .alerts w₀ (Prompt p .alerts w) w'
  letters : Forwarding p .letters w₀ w'
  prompt : Prompt p .letters w → Prompt p .letters w'

theorem halfClosed (h : ∀ c, Forwarding p c w₀ w) :
    HalfClosed p w₀ w { w.moveTo (w.doneOf .alerts (w.clock + p.idle)) with alerts := Queue.closed } := by
  have halerts := ((h .alerts).moved (w.doneOf .alerts (w.clock + p.idle))).forwardsBut
    (Prompt.slot_moveTo_doneOf (c := .alerts))
  obtain ⟨sent, lost, hforwards, hlength, hprompt⟩ := halerts
  refine ⟨rfl, ⟨sent, lost, hforwards.of_same rfl rfl, hlength, hprompt⟩, ?_, fun hletters => ?_⟩
  · exact ((h .letters).moved _).of_same rfl rfl rfl
  · have hmoved := hletters.moved (w.clock_le_doneOf .alerts p.idle)
    exact ⟨hmoved.faults, hmoved.free⟩

theorem HalfClosed.moved (h : HalfClosed p w₀ w w') (time : Nat) :
    ForwardsBut p .alerts w₀ (Prompt p .alerts w) (w'.moveTo time) := by
  obtain ⟨sent, lost, hforwards, hlost⟩ := h.alerts
  exact ⟨sent, lost, hforwards.moved h.closed time, hlost⟩

theorem HalfClosed.finished (h : HalfClosed p w₀ w w') (c : Channel) :
    ForwardsBut p c w₀ (Prompt p c w)
      { w'.moveTo (w'.doneOf .letters (w'.clock + p.idle)) with letters := Queue.closed } := by
  cases c with
  | alerts =>
      obtain ⟨sent, lost, hforwards, hlost⟩ := h.moved (w'.doneOf .letters (w'.clock + p.idle))
      exact ⟨sent, lost, hforwards.of_same rfl rfl, hlost⟩
  | letters =>
      obtain ⟨sent, lost, hforwards, hlost⟩ :=
        (h.letters.moved (w'.doneOf .letters (w'.clock + p.idle))).forwardsBut fun hprompt : Prompt p .letters w =>
          (h.prompt hprompt).slot_moveTo_doneOf
      exact ⟨sent, lost, hforwards.of_same rfl rfl, hlost⟩

namespace Run

theorem waitUntil_moves (time : Nat) :
    Ends (waitUntil s time) w (fun _ w' => w' = w.moveTo time) fun _ w' => ∃ t, w' = w.moveTo t := by
  unfold waitUntil
  cases s.horizon with
  | none => exact ends_modify rfl
  | some last =>
      dsimp only
      split
      · exact ⟨last, rfl⟩
      · exact ends_modify rfl

/-- A side channel that is given up has lost the notice that waited in it, and a prompt publisher leaves none. -/
theorem finishSideChannels_forwards (h : ∀ c, Forwarding p c w₀ w) :
    Ends (finishSideChannels s p.idle) w (fun _ w' => ∀ c, ForwardsBut p c w₀ (Prompt p c w) w')
      (fun _ w' => ∀ c, ForwardsBut p c w₀ False w') := by
  unfold finishSideChannels
  refine ends_get_bind (((waitUntil_moves _).mono (fun _ _ h => h) ?_).bind ?_)
  · rintro halt _ ⟨t, rfl⟩ c
    exact ((h c).moved t).forwardsBut False.elim
  rintro - _ rfl
  rw [World.alertsDone_eq]
  refine Ends.bind (ends_modify (halfClosed h) : Ends _ _ (fun _ w₂ => HalfClosed p w₀ w w₂) _)
    fun _ w₂ hhalf => ends_get_bind (((waitUntil_moves _).mono (fun _ _ h => h) ?_).bind ?_)
  · rintro halt _ ⟨t, rfl⟩ c
    cases c with
    | alerts =>
        obtain ⟨sent, lost, hforwards, hlength, -⟩ := hhalf.moved t
        exact ⟨sent, lost, hforwards, hlength, False.elim⟩
    | letters => exact (hhalf.letters.moved t).forwardsBut False.elim
  · rintro - _ rfl
    rw [World.lettersDone_eq]
    exact ends_modify hhalf.finished

end Run

/-! ### What is offered -/

/-- What a consumer has handed over: some letters in order, and as many alerts as it has counted as sent. -/
def Offers (letters : List Text.Bytes) (t t' : Tally) : Prop :=
  ∃ added : List Notice, t'.accepted = t.accepted ++ added ∧
    added.filter (·.channel = .letters) = letters.map .letter ∧
    t'.metrics.alertsSent = t.metrics.alertsSent + (added.filter (·.channel = .alerts)).length

theorem Offers.trans {letters letters' : List Text.Bytes} {t t' t'' : Tally} (h : Offers letters t t')
    (h' : Offers letters' t' t'') : Offers (letters ++ letters') t t'' := by
  obtain ⟨added, haccepted, hletters, hsent⟩ := h
  obtain ⟨added', haccepted', hletters', hsent'⟩ := h'
  refine ⟨added ++ added', ?_, ?_, ?_⟩
  · rw [haccepted', haccepted, List.append_assoc]
  · rw [List.filter_append, hletters, hletters', List.map_append]
  · rw [hsent', hsent, List.filter_append, List.length_append, Nat.add_assoc]

theorem Attempted.offers {successes failures : Nat} {t t' : Tally} (h : Attempted successes failures t t') :
    Offers [] t t' := by
  obtain ⟨alerts, haccepted, hsent⟩ := h.accepted
  have hchannel : ∀ a : Alert, (Notice.alert a).channel = .alerts := fun _ => rfl
  refine ⟨alerts.map .alert, haccepted, ?_, ?_⟩
  · simp [List.filter_map, Function.comp_def, hchannel]
  · simpa [List.filter_map, Function.comp_def, hchannel] using hsent

/-- The payload of a message that was dead-lettered. -/
def Handled.letter? (h : Handled σ) : List Text.Bytes :=
  if h.disposition = .deadLettered then [h.message.payload] else []

theorem Handled.Occurs.offers {h : Handled σ} (hoccurs : h.Occurs s) :
    Offers h.letter? h.before.standing.tally h.after.standing.tally := by
  obtain ⟨failures, t₁, hattempted, -, hafter⟩ := hoccurs.tallied
  have hconcluded : Offers h.letter? t₁ (t₁.concluded h.message h.disposition) := by
    unfold Handled.letter?
    cases h.disposition with
    | acknowledged => exact ⟨[], by simp [Tally.concluded], by simp, by simp [Tally.concluded]⟩
    | deadLettered =>
        exact ⟨[.letter h.message.payload], by simp [Tally.concluded], by simp [Notice.channel],
          by simp [Tally.concluded, Tally.count, Metrics.count, Notice.channel]⟩
    | leftForRedelivery =>
        exact ⟨[], by simp [Tally.concluded, Tally.count], by simp,
          by simp [Tally.concluded, Tally.count, Metrics.count]⟩
  rw [hafter]
  simpa using hattempted.offers.trans hconcluded

theorem Course.offers {hs : List (Handled σ)} {failures : Nat} (h : Course s w hs failures w') :
    Offers (hs.flatMap Handled.letter?) w.standing.tally w'.standing.tally := by
  induction h with
  | start => exact ⟨[], by simp, by simp, by simp⟩
  | handled x _ hoccurs ih =>
      rw [List.flatMap_append]
      simpa using ih.trans hoccurs.offers
  | @interlude hs failures more w₁ w₂ _ hinterlude ih =>
      have hsent : w₂.standing.tally.metrics.alertsSent = w₁.standing.tally.metrics.alertsSent :=
        hinterlude.counted .alertsSent
      have hquiet : Offers [] w₁.standing.tally w₂.standing.tally :=
        ⟨[], by rw [hinterlude.accepted, List.append_nil], rfl, hsent⟩
      simpa using ih.trans hquiet

theorem Aborted.offers {hs : List (Handled σ)} (h : Aborted s w hs w') :
    Offers (hs.flatMap Handled.letter?) w.standing.tally w'.standing.tally := by
  obtain ⟨failures, w₁, m, hcourse, hexec⟩ := h
  obtain ⟨failures', hattempted⟩ : ∃ failures, Attempted 0 failures w₁.standing.tally w'.standing.tally :=
    (Run.settle_tallies m).error hexec
  simpa using hcourse.offers.trans hattempted.offers

/-! ### Connections -/

/-- Messages handled one after another on a connection, also one on which an overflow ended the rounds while
another message was in hand. -/
def Settles (s : Setup σ) (w : World σ) (hs : List (Handled σ)) (w' : World σ) : Prop :=
  ∃ w₁, ((∃ failures, Course s w hs failures w₁) ∨ Aborted s w hs w₁) ∧ w'.standing = w₁.standing

theorem Settles.offers {hs : List (Handled σ)} (h : Settles s w hs w') :
    Offers (hs.flatMap Handled.letter?) w.standing.tally w'.standing.tally := by
  obtain ⟨w₁, hcourse | haborted, hstanding⟩ := h
  · obtain ⟨failures, hcourse⟩ := hcourse
    rw [hstanding]
    exact hcourse.offers
  · rw [hstanding]
    exact haborted.offers

/-- Whether every publication to a subject that is scripted takes no longer than the idle interval. -/
def PublishesPromptly (p : Plan) (c : Channel) (faults : Faults) : Prop :=
  ∀ fault ∈ faults.script (.publish (p.subject c)), ∃ d ≤ p.idle, fault.delay = some d

namespace Run

theorem opened_forwarding (p : Plan) (sources : List Source) (w : World σ) (c : Channel) :
    Forwarding p c w (w.opened p sources) := by
  cases c with
  | alerts => exact ⟨⟨_, rfl⟩, [], (List.append_nil _).symm, (List.append_nil _).symm⟩
  | letters => exact ⟨⟨_, rfl⟩, [], (List.append_nil _).symm, (List.append_nil _).symm⟩

theorem opened_prompt {sources : List Source} (h : PublishesPromptly p c w.faults) :
    Prompt p c (w.opened p sources) := by
  refine ⟨h, w.clock, Nat.le_add_right _ _, ?_⟩
  cases c <;> rfl

/-- The rounds on a connection, whether or not one overflows: its side channels are forwarding then, its
publishers as prompt as in the beginning, and its messages are settled. -/
theorem provisionAll_forwards (sources : List Source) (hlasts : World.Lasts s w) :
    Ends (orElseOverflow (provisionAll s p.subscription p.fetching) ProvisionReport.zero) (w.opened p sources)
      (fun _ w₁ => (∀ c, Forwarding p c w w₁) ∧ (∀ c, PublishesPromptly p c w.faults → Prompt p c w₁) ∧
        ∃ hs, Settles s w hs w₁)
      (fun _ w₁ => ∀ c, Forwarding p c w w₁) := by
  have hsteps := goes_provisionAll p.subscription p.fetching ProvisionReport.zero (s := s) (w := w.opened p sources)
    hlasts
  have hopened : Course s w [] 0 (w.opened p sources) :=
    .of_interlude ⟨rfl, rfl, fun m => by simp [World.opened]⟩
  have hcourse := rounds_course p.subscription p.fetching Limits.provisionRounds ProvisionReport.zero
    (s := s) (w := w.opened p sources)
  have hforwards : ∀ c, Forwarding p c w (exec (orElseOverflow (provisionAll s p.subscription p.fetching)
      ProvisionReport.zero) (w.opened p sources)).2 := fun c => (opened_forwarding p sources w c).steps hsteps
  have hprompt : ∀ c, PublishesPromptly p c w.faults → Prompt p c (exec (orElseOverflow
      (provisionAll s p.subscription p.fetching) ProvisionReport.zero) (w.opened p sources)).2 :=
    fun c h => (opened_prompt h).steps hsteps
  rw [exec_orElseOverflow] at hforwards hprompt
  rw [Ends, exec_orElseOverflow]
  rcases hexec : exec (provisionAll s p.subscription p.fetching) (w.opened p sources) with
    ⟨(_ | _) | report, w₁⟩ <;> rw [hexec] at hforwards hprompt
  · obtain ⟨hs, haborted⟩ := hcourse.error hexec rfl
    exact ⟨hforwards, hprompt, _, w₁, .inr (haborted.after hopened), rfl⟩
  · exact hforwards
  · obtain ⟨xs, -, hrounds⟩ := hcourse.ok hexec
    exact ⟨hforwards, hprompt, _, w₁, .inl ⟨_, hopened.append hrounds.course⟩, rfl⟩

/-- Wherever a connection ends, each side channel has published to its own subject what it accepted, in that
order, but for one notice at most, the last. Once the connection is given up, nothing is missing where the
publisher was never busy for longer than the idle interval; the letters that were accepted are the payloads
of the dead-lettered messages, and there are as many alerts as were counted as sent. -/
theorem generation_forwards (sources : List Source) (hlasts : World.Lasts s w) :
    ∃ result w', exec (generation s p sources) w = (result, w') ∧ ∃ sent lost : Channel → List Notice,
      (∀ c, Forwards p c w (sent c) (lost c) w' ∧ (lost c).length ≤ 1) ∧
      ∀ report, result = .ok report →
        (∀ c, PublishesPromptly p c w.faults → lost c = []) ∧
        ∃ hs, Settles s w hs w' ∧
          sent .letters ++ lost .letters = (hs.flatMap Handled.letter?).map .letter ∧
          w'.metrics.get .alertsSent = w.metrics.get .alertsSent + (sent .alerts ++ lost .alerts).length := by
  have hends : Ends (generation s p sources) w
      (fun _ w' => (∀ c, ForwardsBut p c w (PublishesPromptly p c w.faults) w') ∧ ∃ hs, Settles s w hs w')
      (fun _ w' => ∀ c, ForwardsBut p c w False w') := by
    change Ends (orElseOverflow (provisionAll s p.subscription p.fetching) ProvisionReport.zero >>= fun report =>
      finishSideChannels s p.idle >>= fun _ => pure report) (w.opened p sources) _ _
    refine ((provisionAll_forwards sources hlasts).mono (fun _ _ h => h) fun _ _ h c =>
      (h c).forwardsBut False.elim).bind ?_
    rintro report w₁ ⟨hforwards, hprompt, hs, w₂, hsettled, hstanding⟩
    refine (((finishSideChannels_forwards hforwards).and (finishSideChannels_standing p.idle)).mono
      (fun _ _ h => h) fun _ _ h => h.1).bind ?_
    rintro _ w' ⟨hbut, hsame⟩
    refine ends_pure ⟨fun c => ?_, hs, w₂, hsettled, hsame.trans hstanding⟩
    obtain ⟨sent, lost, hforwards', hlength, hlost⟩ := hbut c
    exact ⟨sent, lost, hforwards', hlength, fun h => hlost (hprompt c h)⟩
  rcases hexec : exec (generation s p sources) w with ⟨halt | report, w'⟩
  · choose sent lost hforwards hlength _ using hends.error hexec
    exact ⟨.error halt, w', rfl, sent, lost, fun c => ⟨hforwards c, hlength c⟩, nofun⟩
  · obtain ⟨hbut, hs, hsettles⟩ := hends.ok hexec
    choose sent lost hforwards hlength hlost using hbut
    refine ⟨.ok report, w', rfl, sent, lost, fun c => ⟨hforwards c, hlength c⟩, fun _ _ => ⟨hlost, hs, hsettles, ?_⟩⟩
    obtain ⟨added, haccepted, hletters, hsent⟩ := hsettles.offers
    have hadded : ∀ c, sent c ++ lost c = added.filter (·.channel = c) := by
      intro c
      have hall := (hforwards c).accepted
      rw [World.accepted, haccepted, List.filter_append] at hall
      exact (List.append_cancel_left hall).symm
    rw [hadded .letters, hadded .alerts]
    exact ⟨hletters, hsent⟩

/-- A world whose first dead letter is published without end. -/
def stuckWorld : World InMemory :=
  World.start InMemory.empty Queue.undrained Queue.undrained
    [(.publish plainPlan.letterSubject, [⟨none, none, false⟩])] [] []

/-- Three messages that cannot be read. -/
def unreadableSource : Source := [(some 0, .batch (List.replicate 3 ([], Fault.none)))]

def stuckWorldAfter : World InMemory := (exec (generation plainSetup plainPlan [unreadableSource]) stuckWorld).2

/-- Of the three messages one is published, one is accepted and lost, and one is left for redelivery. -/
theorem stuckWorld_loses_one :
    World.Lasts plainSetup stuckWorld ∧
      ((stuckWorldAfter.published .letters).length = 1 ∧ (stuckWorldAfter.accepted .letters).length = 2 ∧
        stuckWorldAfter.metrics.get .deadLettered = 2 ∧ stuckWorldAfter.metrics.get .leftForRedelivery = 1) ∧
      ∃ result w', exec (generation plainSetup plainPlan [unreadableSource]) stuckWorld = (result, w') ∧
        ∃ sent lost : Channel → List Notice,
          ∀ c, Forwards plainPlan c stuckWorld (sent c) (lost c) w' ∧ (lost c).length ≤ 1 := by
  have hlasts : World.Lasts plainSetup stuckWorld := fun last hlast => by cases hlast
  refine ⟨hlasts, by decide +kernel, ?_⟩
  obtain ⟨result, w', hexec, sent, lost, hforwards, -⟩ :=
    generation_forwards (p := plainPlan) [unreadableSource] hlasts
  exact ⟨result, w', hexec, sent, lost, hforwards⟩

end Run

end UsageLedger.Delivery
