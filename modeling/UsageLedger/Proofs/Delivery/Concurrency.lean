import UsageLedger.Proofs.Delivery.Fleet
import UsageLedger.Proofs.Delivery.Rivalry
import UsageLedger.Proofs.Ledger.Posting

/-! Concurrent consumers bill an event once. Whatever the moves, at most one posting of an event succeeds;
and where nothing fails but postings of duplicates, every delivery of the event is acknowledged after two
attempts at most, and one of them, no more, has posted it. -/

namespace UsageLedger.Delivery

open Ledger Program

variable {ι σ : Type} [DecidableEq ι] {s : FleetSetup ι σ} {books : Books s.serve} {f f' : Fleet ι σ}
  {m : σ} {e : Event} {id : Uuid} {i : ι} {who : ι × Nat}

def FleetSetup.Brings (s : FleetSetup ι σ) (e : Event) (who : ι × Nat) : Prop :=
  ∃ payload, (s.deliveries who.1)[who.2]? = some payload ∧ Event.decode payload = .ok e

/-- An event that can be billed whoever it is delivered to: nothing else is delivered under its identifier,
and it has details and an amount. -/
structure FleetSetup.IsBillable (s : FleetSetup ι σ) (e : Event) : Prop where
  same : ∀ who e', s.Brings e' who → e'.id = e.id → e' = e
  details : ∃ x, e.details = .ok x
  amount : ∀ who, s.Brings e who → ∃ amount, Credit.amount? (s.rate who.1) e = some amount

/-- Whether no call has failed, other than postings of duplicates. -/
def Fleet.IsClean (s : FleetSetup ι σ) (f : Fleet ι σ) : Prop :=
  ∀ c ∈ f.crossings, c.treatment = .served ∧ Delivery.IsClean s.serve c.call c.found

instance : Decidable (f.IsClean s) := List.decidableBAll _ _

/-- Whether the settlement of a delivery has posted an event. -/
def Fleet.Credits (s : FleetSetup ι σ) (f : Fleet ι σ) (id : Uuid) (who : ι × Nat) : Prop :=
  ∃ c ∈ f.crossings, c.caller? = some who ∧ ∃ t, c.posting? s.serve = some t ∧ t.event = id

/-- The race for an event: settlements of it that are under way are going to end as they have to among
rivals, and those that are finished did. -/
structure Fleet.Races (books : Books s.serve) (e : Event) (f : Fleet ι σ) : Prop where
  hands : ∀ i h, (f.workers i).hand = some h → s.Brings e (i, (f.workers i).finished.length) →
    ∃ m, (books.has m e.id → books.has f.ledger e.id) ∧
      h.rest.Meets (Rivals books e.id)
        ⟨fun _ _ => True, fun t g => books.has g.ledger e.id ∧ t.Ends e.id g.credited, fun _ => False⟩
        ⟨m, f.Credits s e.id (i, (f.workers i).finished.length)⟩
  finished : ∀ i k t, (f.workers i).finished[k]? = some t → s.Brings e (i, k) →
    books.has f.ledger e.id ∧ t.Ends e.id (f.Credits s e.id (i, k))

/-! ### What a move leaves as it is -/

theorem Fleet.Step.has (h : f.Step s f') (hsound : books.sound f.ledger) (hhas : books.has f.ledger id) :
    books.has f'.ledger id := by
  cases h with
  | rest => exact hhas
  | take hhand hpayload => exact hhas
  | finish hhand => exact hhas
  | @ask i asked r next chance hhand =>
      cases r with
      | ledger call =>
          change books.has (chance.treatment.ledger s.serve call f.ledger) id
          rcases chance.treatment.ledger_eq s.serve call f.ledger with hsame | hserved
          · rwa [hsame]
          · rw [hserved]
            exact (books.has_serve call id hsound).2 (.inl hhas)
      | _ => exact hhas
  | late hcall => exact (books.has_serve _ id hsound).2 (.inl hhas)

theorem Fleet.Step.crossings_subset (h : f.Step s f') : f.crossings ⊆ f'.crossings := by
  cases h with
  | rest => exact List.Subset.refl _
  | take hhand hpayload => exact List.Subset.refl _
  | finish hhand => exact List.Subset.refl _
  | ask chance hhand => exact List.subset_append_right _ _
  | late hcall => exact List.subset_cons_self _ _

theorem Fleet.Step.isClean (h : f.Step s f') (hclean : f'.IsClean s) : f.IsClean s :=
  fun c hc => hclean c (h.crossings_subset hc)

theorem Fleet.credits_ask_of_ne {chance : Chance} {asked : Nat} {r : Request}
    {next : r.Answer → Program Settlement} (hne : who ≠ (i, (f.workers i).finished.length)) :
    (f.ask s i chance asked r next).Credits s id who ↔ f.Credits s id who := by
  constructor
  · rintro ⟨c, hc, hcaller, hposted⟩
    rcases List.mem_append.1 hc with hnew | hold
    · rw [(Chance.of_mem_crossing hnew).2] at hcaller
      exact (hne (Option.some.inj hcaller).symm).elim
    · exact ⟨c, hold, hcaller, hposted⟩
  · rintro ⟨c, hc, hcaller, hposted⟩
    exact ⟨c, List.mem_append_right _ hc, hcaller, hposted⟩

theorem Fleet.credits_ask_ledger {chance : Chance} {asked : Nat} {call : Call}
    {next : (Request.ledger call).Answer → Program Settlement} (hserved : chance.treatment = .served) :
    (f.ask s i chance asked (.ledger call) next).Credits s id (i, (f.workers i).finished.length) ↔
      f.Credits s id (i, (f.workers i).finished.length) ∨
        ∃ t, call.posting? s.serve f.ledger = some t ∧ t.event = id := by
  have hposting : Crossing.posting? s.serve
      (⟨some (i, (f.workers i).finished.length), call, chance.treatment, f.ledger⟩ : Crossing ι σ) =
        call.posting? s.serve f.ledger := by
    rw [Crossing.posting?, hserved]
    rfl
  constructor
  · rintro ⟨c, hc, hcaller, t, ht, hevent⟩
    rcases List.mem_cons.1 hc with rfl | hold
    · rw [hposting] at ht
      exact .inr ⟨t, ht, hevent⟩
    · exact .inl ⟨c, hold, hcaller, t, ht, hevent⟩
  · rintro (⟨c, hc, hcaller, hposted⟩ | ⟨t, ht, hevent⟩)
    · exact ⟨c, List.mem_cons_of_mem _ hc, hcaller, hposted⟩
    · exact ⟨_, List.mem_cons_self, rfl, t, hposting.trans ht, hevent⟩

/-! ### The race for an event -/

omit [DecidableEq ι] in
theorem Fleet.IsLawful.not_credits (hf : f.IsLawful s) (hwho : (f.workers who.1).begun ≤ who.2) :
    ¬f.Credits s id who := by
  rintro ⟨c, hc, hcaller, -⟩
  exact absurd (hf.callers c hc who hcaller).2 (not_lt.2 hwho)

omit [DecidableEq ι] in
theorem Fleet.races_start (s : FleetSetup ι σ) (books : Books s.serve) (e : Event) (m : σ) :
    (s.start m).Races books e where
  hands _ _ h := by cases h
  finished i k t h := by simp [FleetSetup.start] at h

theorem Fleet.Races.take {payload : Text.Bytes} (hf : f.Races books e) (hbillable : s.IsBillable e)
    (hlawful : f.IsLawful s) (hhand : (f.workers i).hand = none)
    (hpayload : (s.deliveries i)[(f.workers i).finished.length]? = some payload) :
    (f.put i ⟨(f.workers i).finished,
      some ⟨0, settlement (s.rate i) (s.attemptTimeout i) payload⟩⟩).Races books e := by
  constructor
  · intro j h hj hbrings
    by_cases hji : j = i
    · subst hji
      simp only [put, Function.update_self, Option.some.injEq] at hj hbrings ⊢
      subst hj
      obtain ⟨x, hdetails⟩ := hbillable.details
      obtain ⟨amount, hamount⟩ := hbillable.amount _ hbrings
      obtain ⟨payload', hpayload', hdecode⟩ := hbrings
      obtain rfl := Option.some.inj (hpayload.symm.trans hpayload')
      refine ⟨f.ledger, id, settlement_races books _ hdecode hdetails hamount ?_⟩
      exact hlawful.not_credits (by simp [Worker.begun, hhand])
    · simp only [put, Function.update_of_ne hji] at hj hbrings ⊢
      exact hf.hands j h hj hbrings
  · intro j k t hj hbrings
    by_cases hji : j = i
    · subst hji
      simp only [put, Function.update_self] at hj
      exact hf.finished j k t hj hbrings
    · simp only [put, Function.update_of_ne hji] at hj
      exact hf.finished j k t hj hbrings

theorem Fleet.Races.finish {asked : Nat} {t : Settlement} (hf : f.Races books e)
    (hhand : (f.workers i).hand = some ⟨asked, .done t⟩) :
    (f.put i ⟨(f.workers i).finished ++ [t], none⟩).Races books e := by
  constructor
  · intro j h hj hbrings
    by_cases hji : j = i
    · subst hji
      simp [put] at hj
    · simp only [put, Function.update_of_ne hji] at hj hbrings ⊢
      exact hf.hands j h hj hbrings
  · intro j k u hj hbrings
    by_cases hji : j = i
    · subst hji
      simp only [put, Function.update_self] at hj
      rw [List.getElem?_append] at hj
      split at hj
      · exact hf.finished j k u hj hbrings
      · rename_i hle
        rw [List.getElem?_singleton] at hj
        split at hj
        · rename_i hzero
          obtain rfl := Option.some.inj hj
          obtain rfl : k = (f.workers j).finished.length := by omega
          obtain ⟨m, hhas, hends⟩ := hf.hands j _ hhand hbrings
          exact ⟨hhas hends.1, hends.2⟩
        · cases hj
    · simp only [put, Function.update_of_ne hji] at hj
      exact hf.finished j k u hj hbrings

theorem Fleet.hand_ask (chance : Chance) (asked : Nat) {r : Request} {next : r.Answer → Program Settlement}
    {c : Contract (Stake σ) Settlement} (hsound : books.sound f.ledger)
    (hserved : ∀ call, r = .ledger call → chance.treatment = .served ∧ Delivery.IsClean s.serve call f.ledger)
    (hhas : books.has m e.id → books.has f.ledger e.id)
    (hmeets : (Program.ask r next).Meets (Rivals books e.id) c
      ⟨m, f.Credits s e.id (i, (f.workers i).finished.length)⟩) :
    ∃ m', (books.has m' e.id → books.has (f.ask s i chance asked r next).ledger e.id) ∧
      (next (chance.answer s.serve f.ledger r)).Meets (Rivals books e.id) c
        ⟨m', (f.ask s i chance asked r next).Credits s e.id (i, (f.workers i).finished.length)⟩ := by
  cases r with
  | ledger call =>
      obtain ⟨htreatment, hclean⟩ := hserved call rfl
      have hledger : (f.ask s i chance asked (.ledger call) next).ledger = (s.serve call f.ledger).2 := by
        change chance.treatment.ledger s.serve call f.ledger = _
        rw [htreatment]
        rfl
      have hanswer : chance.answer s.serve f.ledger (.ledger call) = some (s.serve call f.ledger).1 := by
        change chance.treatment.answer s.serve call f.ledger = _
        rw [htreatment]
        rfl
      refine ⟨(s.serve call f.ledger).2, fun h => by rwa [hledger], ?_⟩
      rw [propext (credits_ask_ledger htreatment)]
      exact hmeets.2 _ _ ⟨f.ledger, hsound, hhas, hclean, hanswer, rfl⟩
  | _ => exact ⟨m, hhas, hmeets.2 _ _ rfl⟩

theorem Fleet.Races.ask {chance : Chance} {asked : Nat} {r : Request} {next : r.Answer → Program Settlement}
    (hf : f.Races books e) (hsound : books.sound f.ledger)
    (hgrown : books.has f.ledger e.id → books.has (f.ask s i chance asked r next).ledger e.id)
    (hserved : ∀ call, r = .ledger call → chance.treatment = .served ∧ Delivery.IsClean s.serve call f.ledger)
    (hhand : (f.workers i).hand = some ⟨asked, .ask r next⟩) :
    (f.ask s i chance asked r next).Races books e := by
  have hother : ∀ {j k}, (j, k) ≠ (i, (f.workers i).finished.length) →
      (f.ask s i chance asked r next).Credits s e.id (j, k) = f.Credits s e.id (j, k) :=
    fun hne => propext (credits_ask_of_ne hne)
  constructor
  · intro j h hj hbrings
    by_cases hji : j = i
    · subst hji
      simp only [Fleet.ask, Function.update_self, Option.some.injEq] at hj hbrings
      subst hj
      obtain ⟨m, hhas, hmeets⟩ := hf.hands j _ hhand hbrings
      have hgoes := hand_ask chance asked hsound hserved hhas hmeets
      simpa only [Fleet.ask, Function.update_self] using hgoes
    · have hworker : (f.ask s i chance asked r next).workers j = f.workers j := Function.update_of_ne hji _ _
      rw [hworker] at hj hbrings ⊢
      obtain ⟨m, hhas, hmeets⟩ := hf.hands j h hj hbrings
      refine ⟨m, fun hm => hgrown (hhas hm), ?_⟩
      rw [hother fun heq => hji (congrArg Prod.fst heq)]
      exact hmeets
  · intro j k t hj hbrings
    have hfinished : ((f.ask s i chance asked r next).workers j).finished = (f.workers j).finished := by
      by_cases hji : j = i
      · subst hji
        simp [Fleet.ask]
      · simp [Fleet.ask, hji]
    rw [hfinished] at hj
    have hne : (j, k) ≠ (i, (f.workers i).finished.length) := by
      rintro heq
      obtain ⟨rfl, rfl⟩ := Prod.mk.inj heq
      rw [List.getElem?_eq_none le_rfl] at hj
      cases hj
    rw [hother hne]
    exact ⟨hgrown (hf.finished j k t hj hbrings).1, (hf.finished j k t hj hbrings).2⟩

theorem Fleet.Step.races (h : f.Step s f') (hbillable : s.IsBillable e) (hlawful : f.IsLawful s)
    (hsound : books.sound f.ledger) (hclean : f'.IsClean s) (hf : f.Races books e) : f'.Races books e := by
  have hgrown : books.has f.ledger e.id → books.has f'.ledger e.id := h.has hsound
  cases h with
  | rest => exact hf
  | take hhand hpayload => exact hf.take hbillable hlawful hhand hpayload
  | finish hhand => exact hf.finish hhand
  | ask chance hhand =>
      refine hf.ask hsound hgrown ?_ hhand
      rintro call rfl
      exact hclean _ List.mem_cons_self
  | late hcall =>
      have hserved := (hclean _ List.mem_cons_self).1
      cases hserved

/-- In a run without failures the race goes as it has to. -/
theorem Fleet.races_after (books : Books s.serve) (hbillable : s.IsBillable e) (hsound : books.sound m)
    (moves : List (Move ι)) (hclean : ((s.start m).after s moves).IsClean s) :
    ((s.start m).after s moves).Races books e := by
  induction moves with
  | nil => exact races_start s books e m
  | cons move before ih =>
      have hstep := next_step s ((s.start m).after s before) move
      obtain ⟨hlawful, haccounts⟩ := isLawful_and_accounts books hsound before
      exact hstep.races hbillable hlawful haccounts.sound hclean (ih (hstep.isClean hclean))

/-! ### The winner -/

omit [DecidableEq ι] in
/-- Two settlements do not both post an event. -/
theorem Fleet.Accounts.credits_unique {who' : ι × Nat} (hf : f.Accounts books m)
    (h : f.Credits s id who) (h' : f.Credits s id who') : who = who' := by
  obtain ⟨c, hc, hcaller, t, ht, hevent⟩ := h
  obtain ⟨c', hc', hcaller', t', ht', hevent'⟩ := h'
  let differs (c c' : Crossing ι σ) : Prop :=
    ∀ t, c.posting? s.serve = some t → ∀ t', c'.posting? s.serve = some t' → t.event ≠ t'.event
  have hpairwise : f.crossings.Pairwise differs :=
    List.pairwise_filterMap.1 (List.pairwise_map.1 hf.once)
  have : Std.Symm differs := ⟨fun _ _ h t ht t' ht' heq => h t' ht' t ht heq.symm⟩
  by_cases heq : c = c'
  · subst heq
    exact Option.some.inj (hcaller.symm.trans hcaller')
  · exact (hpairwise.forall hc hc' heq t ht t' ht' (hevent.trans hevent'.symm)).elim

omit [DecidableEq ι] in
/-- A posting of an event, if nothing was late, was made by a settlement of one of its deliveries. -/
theorem Fleet.credits_of_posted {t : Statement} (hbillable : s.IsBillable e) (hlawful : f.IsLawful s)
    (hclean : f.IsClean s) (ht : t ∈ f.posted s) (hevent : t.event = e.id) :
    ∃ who, s.Brings e who ∧ f.Credits s e.id who ∧ who.2 < (f.workers who.1).begun := by
  obtain ⟨c, hc, hposting⟩ := List.mem_filterMap.1 ht
  cases hcaller : c.caller? with
  | none =>
      have hoverdue := hlawful.overdue c hc hcaller
      rw [(hclean c hc).1] at hoverdue
      cases hoverdue
  | some who =>
      obtain ⟨⟨payload, hpayload, hbills⟩, hbegun⟩ := hlawful.callers c hc who hcaller
      have hcall : c.call.posting? s.serve c.found = some t := by
        rw [Crossing.posting?, (hclean c hc).1] at hposting
        exact hposting
      obtain ⟨delta, hcreate, -⟩ := Call.posting?_eq_some hcall
      obtain ⟨⟨e', x, amount, hdecode, -, -, ht'⟩, -⟩ := hbills t delta hcreate
      have hid : e'.id = e.id := by
        rw [← hevent, ht']
        rfl
      have hbrings : s.Brings e' who := ⟨payload, hpayload, hdecode⟩
      obtain rfl := hbillable.same who e' hbrings hid
      exact ⟨who, hbrings, ⟨c, hc, hcaller, t, hposting, hevent⟩, hbegun⟩

theorem Settlement.Ends.hasPosted_iff {t : Settlement} {credited : Prop} (h : t.Ends id credited) :
    t.HasPosted ↔ credited := by
  obtain ⟨-, ⟨hposted, hcredited⟩ | ⟨hduplicate, hcredited⟩⟩ := h
  · exact iff_of_true hposted hcredited
  · refine iff_of_false ?_ hcredited
    rintro ⟨statement, balance, hposted⟩
    rcases hduplicate with hfirst | hsecond
    · rw [hfirst] at hposted
      cases hposted
    · rw [hsecond] at hposted
      cases hposted

/-! ### Settlements come to their end -/

def Move.isTurnOf (i : ι) : Move ι → Bool
  | .turn j _ => j = i
  | .late _ => false

/-- How far a consumer has come with the delivery in hand. -/
def Worker.progress (w : Worker) : Nat := w.hand.elim 0 fun h => h.asked + 1

theorem Fleet.next_workers_of_not_isTurnOf {move : Move ι} (h : move.isTurnOf i = false) :
    (f.next s move).workers i = f.workers i := by
  cases move with
  | turn j chance =>
      have hji : i ≠ j := by
        intro heq
        simp [Move.isTurnOf, heq] at h
      change (f.turn s j chance).workers i = f.workers i
      unfold turn
      split
      · split
        · rfl
        · exact Function.update_of_ne hji _ _
      · exact Function.update_of_ne hji _ _
      · rfl
      · exact Function.update_of_ne hji _ _
  | late n =>
      change (f.late s n).workers i = f.workers i
      unfold late
      split <;> rfl

/-- A turn of a consumer that has a delivery of an event before it brings it further. -/
theorem Fleet.Races.turn (hf : f.Races books e) (chance : Chance)
    (hbrings : s.Brings e (i, (f.workers i).finished.length)) :
    let w := (f.turn s i chance).workers i
    (f.workers i).finished.length < w.finished.length ∨
      w.finished.length = (f.workers i).finished.length ∧ w.progress = (f.workers i).progress + 1 := by
  unfold Fleet.turn
  split
  · rename_i hhand
    obtain ⟨payload, hpayload, -⟩ := hbrings
    dsimp only at hpayload ⊢
    rw [hpayload]
    simp [put, Worker.progress, hhand]
  · rename_i hhand
    simp [put]
  · rename_i hhand
    obtain ⟨m, -, hmeets⟩ := hf.hands i _ hhand hbrings
    exact hmeets.elim
  · rename_i hhand
    simp [Fleet.ask, Worker.progress, hhand]

theorem Fleet.Step.finished_le (h : f.Step s f') (i : ι) :
    (f.workers i).finished.length ≤ (f'.workers i).finished.length := by
  cases h with
  | rest => exact le_rfl
  | @take j payload hhand hpayload =>
      by_cases hij : i = j
      · subst hij
        simp [put]
      · simp [put, hij]
  | @finish j asked t hhand =>
      by_cases hij : i = j
      · subst hij
        simp [put]
      · simp [put, hij]
  | @ask j asked r next chance hhand =>
      by_cases hij : i = j
      · subst hij
        simp [Fleet.ask]
      · simp [Fleet.ask, hij]
  | late hcall => exact le_rfl

theorem Fleet.after_append (later moves : List (Move ι)) :
    f.after s (later ++ moves) = (f.after s moves).after s later := by
  induction later with
  | nil => rfl
  | cons move later ih => rw [List.cons_append, after, after, ih]

/-- Every turn brings a consumer further with its next delivery of an event, until that is settled. -/
theorem Fleet.progress_after (hbillable : s.IsBillable e) (hsound : books.sound m)
    (moves later : List (Move ι))
    (hbrings : s.Brings e (i, (((s.start m).after s moves).workers i).finished.length))
    (hclean : ((s.start m).after s (later ++ moves)).IsClean s) :
    let w := ((s.start m).after s (later ++ moves)).workers i
    (((s.start m).after s moves).workers i).finished.length < w.finished.length ∨
      w.finished.length = (((s.start m).after s moves).workers i).finished.length ∧
        later.countP (Move.isTurnOf i) ≤ w.progress := by
  induction later with
  | nil => exact .inr ⟨rfl, Nat.zero_le _⟩
  | cons move later ih =>
      have hstep := next_step s ((s.start m).after s (later ++ moves)) move
      have hbefore := hstep.isClean hclean
      intro w
      rcases ih hbefore with hsettled | ⟨hsame, hprogress⟩
      · exact .inl (hsettled.trans_le (hstep.finished_le i))
      · cases hturn : move.isTurnOf i with
        | false =>
            have hw : w = ((s.start m).after s (later ++ moves)).workers i :=
              next_workers_of_not_isTurnOf hturn
            rw [List.countP_cons_of_neg (by simp [hturn]), hw]
            exact .inr ⟨hsame, hprogress⟩
        | true =>
            obtain ⟨chance, rfl⟩ : ∃ chance, move = .turn i chance := by
              cases move with
              | turn j chance => exact ⟨chance, by rw [of_decide_eq_true hturn]⟩
              | late n => cases hturn
            have hraces := races_after books hbillable hsound (later ++ moves) hbefore
            rw [← hsame] at hbrings ⊢
            rw [List.countP_cons_of_pos hturn]
            rcases hraces.turn chance hbrings with hsettled | ⟨hlength, hfurther⟩
            · exact .inl hsettled
            · refine .inr ⟨hlength, ?_⟩
              exact (Nat.add_le_add_right hprogress 1).trans_eq hfurther.symm

omit [DecidableEq ι] in
theorem Fleet.IsLawful.progress_le (hf : f.IsLawful s) (i : ι) :
    (f.workers i).progress ≤ mostRequests + 1 := by
  unfold Worker.progress
  cases hhand : (f.workers i).hand with
  | none => exact Nat.zero_le _
  | some h =>
      obtain ⟨payload, -, -, hasked, -⟩ := hf.hands i h hhand
      exact Nat.succ_le_succ hasked

/-! ### Exactly once -/

def Fleet.settlement? (f : Fleet ι σ) (who : ι × Nat) : Option Settlement :=
  (f.workers who.1).finished[who.2]?

/-- Whether a delivery of an event was settled by posting the event. -/
def Fleet.HasWon (s : FleetSetup ι σ) (f : Fleet ι σ) (e : Event) (who : ι × Nat) : Prop :=
  s.Brings e who ∧ ∃ t, f.settlement? who = some t ∧ t.HasPosted

omit [DecidableEq ι] in
/-- When an event that had no statement has been settled and nobody is at it, its only winner is known. -/
theorem Fleet.existsUnique_winner (hbillable : s.IsBillable e) (hlawful : f.IsLawful s)
    (haccounts : f.Accounts books m) (hclean : f.IsClean s) (hraces : f.Races books e)
    (hnew : ¬books.has m e.id) (hsettled : ∃ who, s.Brings e who ∧ (f.settlement? who).isSome)
    (hidle : ∀ i, s.Brings e (i, (f.workers i).finished.length) → (f.workers i).hand = none) :
    ∃! who, f.HasWon s e who := by
  have hcredits : ∀ who, f.HasWon s e who → f.Credits s e.id who := by
    rintro who ⟨hbrings, t, ht, hposted⟩
    exact ((hraces.finished who.1 who.2 t ht hbrings).2.hasPosted_iff).1 hposted
  obtain ⟨who, hbrings, hsome⟩ := hsettled
  obtain ⟨t, ht⟩ := Option.isSome_iff_exists.1 hsome
  have hhas := (hraces.finished who.1 who.2 t ht hbrings).1
  obtain ⟨posted, hposted, hevent⟩ := ((haccounts.has e.id).1 hhas).resolve_left hnew
  obtain ⟨winner, hwinner, hcredited, hbegun⟩ := credits_of_posted hbillable hlawful hclean hposted hevent
  have hlt : winner.2 < (f.workers winner.1).finished.length := by
    cases hhand : (f.workers winner.1).hand with
    | none => simpa [Worker.begun, hhand] using hbegun
    | some h =>
        have hle : winner.2 ≤ (f.workers winner.1).finished.length := by
          simpa [Worker.begun, hhand, Nat.lt_succ_iff] using hbegun
        rcases hle.lt_or_eq with hlt | heq
        · exact hlt
        · have hfree := hidle winner.1 (by rw [← heq]; exact hwinner)
          rw [hhand] at hfree
          cases hfree
  have hfinished : (f.workers winner.1).finished[winner.2]? = some (f.workers winner.1).finished[winner.2] :=
    List.getElem?_eq_getElem hlt
  refine ⟨winner, ⟨hwinner, _, hfinished, ?_⟩, fun other hother => ?_⟩
  · exact (hraces.finished winner.1 winner.2 _ hfinished hwinner).2.hasPosted_iff.2 hcredited
  · exact haccounts.credits_unique (hcredits other hother) hcredited

/-- However the moves come and whatever goes wrong, no event is posted twice, what is posted is stored, and
holdings have moved by what was posted and by nothing else, as far as single postings are exact. Where
nothing has failed but postings of duplicates, every settled delivery of a billable event is acknowledged, by
posting the event or as a duplicate found in one of two attempts; a delivery that its consumer has before it
is settled after so many turns of the consumer; nobody posts an event that had its statement; and of the
deliveries of an event that had none exactly one has posted it, as soon as one is settled and none is in
hand. -/
theorem fleet_bills_exactly_once (s : FleetSetup ι σ) (books : Books s.serve) (m : σ) (hsound : books.sound m)
    (moves : List (Move ι)) :
    let f := (s.start m).after s moves
    f.Accounts books m ∧
    ∀ e, s.IsBillable e → f.IsClean s →
      (∀ who t, s.Brings e who → f.settlement? who = some t →
        t.disposition = .acknowledged ∧ (t.HasPosted ∨ t.IsDuplicate e.id)) ∧
      (∀ later i, s.Brings e (i, (f.workers i).finished.length) → (f.after s later).IsClean s →
        mostRequests + 2 ≤ later.countP (Move.isTurnOf i) →
        ((f.after s later).settlement? (i, (f.workers i).finished.length)).isSome) ∧
      (books.has m e.id → ∀ who, ¬f.HasWon s e who) ∧
      (¬books.has m e.id → (∃ who, s.Brings e who ∧ (f.settlement? who).isSome) →
        (∀ i, s.Brings e (i, (f.workers i).finished.length) → (f.workers i).hand = none) →
        ∃! who, f.HasWon s e who) := by
  intro f
  obtain ⟨hlawful, haccounts⟩ := Fleet.isLawful_and_accounts books hsound moves
  refine ⟨haccounts, fun e hbillable hclean => ?_⟩
  have hraces : f.Races books e := Fleet.races_after books hbillable hsound moves hclean
  refine ⟨?_, ?_, ?_, Fleet.existsUnique_winner hbillable hlawful haccounts hclean hraces⟩
  · intro who t hbrings ht
    obtain ⟨hdisposition, hresults⟩ := (hraces.finished who.1 who.2 t ht hbrings).2
    exact ⟨hdisposition, hresults.imp And.left And.left⟩
  · intro later i hbrings hlater hturns
    rw [← Fleet.after_append] at hlater ⊢
    have hbound := ((Fleet.isLawful_and_accounts books hsound (later ++ moves)).1).progress_le i
    rcases Fleet.progress_after hbillable hsound moves later hbrings hlater with hsettled | ⟨-, hprogress⟩
    · rw [Fleet.settlement?, List.getElem?_eq_getElem hsettled]
      rfl
    · omega
  · rintro hold who ⟨hbrings, t, ht, hposted⟩
    have hcredited := ((hraces.finished who.1 who.2 t ht hbrings).2.hasPosted_iff).1 hposted
    obtain ⟨c, hc, -, posted, hposting, hevent⟩ := hcredited
    refine haccounts.fresh posted (List.mem_filterMap.2 ⟨c, hc, hposting⟩) ?_
    rwa [hevent]

/-- Two consumers at the default rate, to each of which the same event is delivered. -/
def twoConsumers : FleetSetup Bool InMemory :=
  ⟨InMemory.serve, fun _ => Credit.defaultRate, fun _ => Limits.attemptTimeout, fun _ => [creditPayload]⟩

def goodChance : Chance := ⟨.served, Instant.epoch, .ok (), .ok ()⟩

/-- The moves, the last one first, by which both consumers look for the statement before either posts it. -/
def raceMoves : List (Move Bool) :=
  List.replicate 20 (.turn true goodChance) ++ List.replicate 20 (.turn false goodChance) ++
    List.replicate 6 (.turn true goodChance) ++ List.replicate 6 (.turn false goodChance)

def raced : Fleet Bool InMemory := (twoConsumers.start InMemory.empty).after twoConsumers raceMoves

/-- In this race one of the two consumers posts, both are done, and every user holds what was billed. -/
theorem twoConsumers_bill_once :
    (∀ user, raced.ledger.holding user = InMemory.empty.holding user + billed (raced.posted twoConsumers) user) ∧
      ∃ e, Event.decode creditPayload = .ok e ∧ twoConsumers.IsBillable e ∧ raced.IsClean twoConsumers ∧
        ∃! who, raced.HasWon twoConsumers e who := by
  obtain ⟨haccounts, hrace⟩ :=
    fleet_bills_exactly_once twoConsumers InMemory.books InMemory.empty trivial raceMoves
  refine ⟨haccounts.holding fun c hc _ => ?_, ?_⟩
  · have hall : raced.crossings.all (fun c => c.found.accounts.all (·.balance.scale ≤ amountPlaces) &&
        c.call.delta?.all (·.scale ≤ amountPlaces) && (InMemory.serve c.call c.found).2.accounts.all fun a =>
          a.balance.coefficient.natAbs * 10 ^ amountPlaces < 2 ^ 96) = true := by decide +kernel
    have hcoefficients := List.all_eq_true.1 hall c hc
    simp only [Bool.and_eq_true, List.all_eq_true, Option.all_eq_true, decide_eq_true_eq] at hcoefficients
    obtain ⟨⟨hfound, hdelta⟩, hafter⟩ := hcoefficients
    exact isExact_of_coefficients (by decide) hfound hdelta hafter
  have hdecodes : (Event.decode creditPayload).isOk = true := by decide +kernel
  have hbills : ((Event.decode creditPayload).toOption.all fun e =>
      e.details.isOk && (Credit.amount? Credit.defaultRate e).isSome) = true := by decide +kernel
  have hclean : raced.IsClean twoConsumers := by decide +kernel
  have hdone : ∀ i, (raced.workers i).hand.isNone ∧ (raced.workers i).finished.length = 1 := by decide +kernel
  cases hdecode : Event.decode creditPayload with
  | error error =>
      rw [hdecode] at hdecodes
      cases hdecodes
  | ok e =>
      simp only [hdecode, Except.toOption, Option.all_some, Bool.and_eq_true] at hbills
      have honly : ∀ who e', twoConsumers.Brings e' who → e' = e := by
        rintro who e' ⟨payload, hpayload, hdecode'⟩
        have hmem : payload ∈ [creditPayload] := List.mem_of_getElem? hpayload
        rw [List.mem_singleton.1 hmem, hdecode] at hdecode'
        exact (Except.ok.inj hdecode').symm
      have hbillable : twoConsumers.IsBillable e := by
        refine ⟨fun who e' h _ => honly who e' h, ?_, fun _ _ => Option.isSome_iff_exists.1 hbills.2⟩
        cases hdetails : e.details with
        | ok x => exact ⟨x, rfl⟩
        | error error =>
            rw [hdetails] at hbills
            cases hbills.1
      refine ⟨e, rfl, hbillable, hclean, ?_⟩
      refine (hrace e hbillable hclean).2.2.2 (fun hold => by cases hold)
        ⟨(false, 0), ⟨creditPayload, rfl, hdecode⟩, ?_⟩ fun i _ => Option.isNone_iff_eq_none.1 (hdone i).1
      change (raced.settlement? (false, 0)).isSome
      rw [Fleet.settlement?, List.getElem?_eq_getElem (by rw [(hdone false).2]; exact Nat.one_pos)]
      rfl

end UsageLedger.Delivery
