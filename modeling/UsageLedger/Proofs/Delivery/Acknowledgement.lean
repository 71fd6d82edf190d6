import UsageLedger.Proofs.Delivery.Billing
import UsageLedger.Proofs.Delivery.Session
import UsageLedger.Proofs.Ledger.Posting

/-! No acknowledged message is lost. A message is acknowledged at most once in a settlement, and only
when its event has a statement in the ledger or when the dead letters have taken its payload in this very
settlement; a message that is not acknowledged is left for redelivery. -/

namespace UsageLedger.Delivery

open Ledger Program

variable {σ : Type} {s : Setup σ} {serve : Service σ} {books : Books serve} {number : Nat}
  {payload : Text.Bytes} {before deeds : List Happening} {g g' : Standing σ}

/-- The dead letters that were accepted, the newest first. -/
def acceptedLetters (deeds : List Happening) : List Text.Bytes :=
  deeds.filterMap fun deed =>
    match deed with
    | .offered (.letter payload) none => some payload
    | _ => none

def acknowledgements (number : Nat) (deeds : List Happening) : Nat := deeds.count (.acknowledged number)

/-- Whether the event of a payload has a statement in a ledger. -/
def IsSettled (books : Books serve) (payload : Text.Bytes) (m : σ) : Prop :=
  ∃ e, Event.decode payload = .ok e ∧ books.has m e.id

/-! ### What a ledger keeps -/

theorem has_after (books : Books s.serve) {x : Session σ} {id : Uuid} (hsound : books.sound x.world.ledger)
    (hhas : books.has x.world.ledger id) (k : Nat) :
    books.sound (x.after s k).world.ledger ∧ books.has (x.after s k).world.ledger id := by
  induction k with
  | zero => exact ⟨hsound, hhas⟩
  | succ k ih =>
      rw [Session.after_succ]
      rcases Session.step_standing s (x.after s k) with hsame | ⟨m, r, a, -, hresponds⟩
      · rw [show ((x.after s k).step s).world.ledger = _ from congrArg Standing.ledger hsame]
        exact ih
      · exact ⟨hresponds.sound ih.1, hresponds.has ih.1 ih.2⟩

/-! ### Attempts that succeed -/

/-- A posting that succeeds leaves a statement of its event. -/
theorem post_stores (books : Books serve) (rate : Decimal) (e : Event) (hsound : books.sound g.ledger) :
    (post rate e).run.Meets (Responds serve number)
      ⟨fun _ _ => True, fun posted g => books.sound g.ledger ∧ (posted.isOk → books.has g.ledger e.id),
        fun _ => True⟩ g := by
  have hset : ∀ {g : Standing σ} {posted : Except Setback (Option Statement)}, books.sound g.ledger →
      posted.isOk = false → books.sound g.ledger ∧ (posted.isOk → books.has g.ledger e.id) :=
    fun hsound hfails => ⟨hsound, fun hok => by simp [hfails] at hok⟩
  rw [run_post]
  refine ⟨trivial, fun _ g₁ h₁ => ?_⟩
  have hsound₁ : books.sound g₁.ledger := Responds.sound (r := .ledger (.record e)) h₁ hsound
  apply Meets.proceed (hset hsound₁ rfl) (fun _ => hset hsound₁ rfl)
  intro _ _
  refine ⟨trivial, fun answer g₂ h₂ => ?_⟩
  have hsound₂ : books.sound g₂.ledger := Responds.sound (r := .ledger (.find e.id)) h₂ hsound₁
  apply Meets.proceed (hset hsound₂ rfl) (fun _ => hset hsound₂ rfl)
  intro found hanswer
  cases found with
  | some statement =>
      refine ⟨hsound₂, fun _ => ?_⟩
      obtain ⟨t, ht, rfl⟩ := h₂
      obtain ⟨rfl, hfound⟩ := Treatment.answer_eq_ok (ht.symm.trans hanswer)
      exact (books.has_serve _ _ hsound₁).2 (.inl ((books.has_of_find hsound₁ hfound).1 rfl))
  | none =>
      refine ⟨trivial, fun _ g₃ h₃ => ?_⟩
      have hsound₃ : books.sound g₃.ledger := Responds.sound (r := .ledger (.ensure e.user)) h₃ hsound₂
      apply Meets.proceed (hset hsound₃ rfl) (fun _ => hset hsound₃ rfl)
      intro _ _
      rw [postStatement]
      split
      · exact hset hsound₃ rfl
      · rename_i x _
        split
        · trivial
        · rename_i amount _
          refine ⟨trivial, fun createdAt g₄ h₄ => ⟨trivial, fun answer g₅ h₅ => ?_⟩⟩
          obtain rfl : g₄ = g₃ := h₄
          have hsound₅ : books.sound g₅.ledger :=
            Responds.sound (r := .ledger (.create (Statement.ofEvent e x amount createdAt) amount)) h₅ hsound₃
          apply Meets.proceed (hset hsound₅ rfl) (fun _ => hset hsound₅ rfl)
          intro _ hanswer
          refine ⟨hsound₅, fun _ => ?_⟩
          obtain ⟨t, ht, rfl⟩ := h₅
          obtain ⟨rfl, hposted⟩ := Treatment.answer_eq_ok (ht.symm.trans hanswer)
          refine (books.has_serve _ _ hsound₃).2 (.inr ⟨Statement.ofEvent e x amount createdAt, ?_, rfl⟩)
          rw [Call.posting?, hposted]

theorem attempt_stores (books : Books serve) (rate : Decimal) (bound : Nat) (payload : Text.Bytes)
    (hsound : books.sound g.ledger) :
    (attempt rate bound payload).Meets (Responds serve number)
      ⟨fun _ _ => True,
        fun result g => books.sound g.ledger ∧ (result.isOk → IsSettled books payload g.ledger),
        fun _ => True⟩ g := by
  cases hdecode : Event.decode payload with
  | error error =>
      rw [attempt_of_error hdecode]
      exact ⟨hsound, fun hok => by cases hok⟩
  | ok e =>
      rw [attempt_of_ok hdecode]
      refine ⟨trivial, fun _ g₁ h₁ => Meets.bind (post_stores books rate e ?_) fun posted g₂ hposted => ?_⟩
      · exact Responds.sound (r := .bound bound) h₁ hsound
      · have hkept : ∀ r (g : Standing σ) (a : r.Answer) g', r.IsAside →
            (books.sound g.ledger ∧ (posted.isOk → books.has g.ledger e.id)) →
            Responds serve number r g a g' →
            books.sound g'.ledger ∧ (posted.isOk → books.has g'.ledger e.id) :=
          fun r g a g' _ h hresponds =>
            ⟨hresponds.sound h.1, fun hok => hresponds.has h.1 (h.2 hok)⟩
        refine ((attemptPosted_meets bound e posted).frame hkept hposted).mono (fun _ _ _ => trivial) ?_
          fun _ _ => trivial
        rintro result g₃ ⟨hconcludes, hsound₃, hhas⟩
        refine ⟨hsound₃, fun hok => ⟨e, hdecode, hhas ?_⟩⟩
        rcases posted with (_ | error) | statement
        · rw [show result = _ from hconcludes] at hok
          cases hok
        · rw [show result = _ from hconcludes] at hok
          cases hok
        · rfl

/-- If one of some attempts succeeds, the event of the payload has its statement. -/
theorem attemptResults_stores (books : Books serve) (number : Nat) (rate : Decimal) (bound : Nat)
    (payload : Text.Bytes) (n : Nat) (hsound : books.sound g.ledger) :
    (attemptResults rate bound payload n).Meets (Responds serve number)
      ⟨fun _ _ => True,
        fun results g => books.sound g.ledger ∧ (succeeded results → IsSettled books payload g.ledger),
        fun _ => True⟩ g := by
  induction n generalizing g with
  | zero => exact ⟨hsound, fun h => by cases h⟩
  | succ n ih =>
      apply Meets.bind (attempt_stores books rate bound payload hsound)
      intro result g₁ h₁
      cases result with
      | ok outcome => exact ⟨h₁.1, fun _ => h₁.2 rfl⟩
      | error error =>
          apply Meets.request trivial
          intro _ g₂ h₂
          have hsound₂ : books.sound g₂.ledger := Responds.sound (r := .count .failedAttempts) h₂ h₁.1
          refine Meets.bind (ih hsound₂) fun results g₃ h₃ => ⟨h₃.1, fun h => h₃.2 ?_⟩
          exact h

/-! ### What a settlement has done -/

/-- What a settlement has done since it began: so many acknowledgements, and these dead letters accepted. -/
def HasDone (number : Nat) (before : List Happening) (count : Nat) (letters : List Text.Bytes)
    (deeds : List Happening) : Prop :=
  ∃ done, deeds = done ++ before ∧ acknowledgements number done = count ∧ acceptedLetters done = letters

theorem hasDone_nothing (number : Nat) (deeds : List Happening) : HasDone number deeds 0 [] deeds :=
  ⟨[], rfl, rfl, rfl⟩

/-- An attempt neither acknowledges nor writes dead letters. -/
theorem HasDone.attempt {rate : Decimal} {r : Request} {a : r.Answer} {count : Nat}
    {letters : List Text.Bytes} (h : HasDone number before count letters g.deeds)
    (hasks : AttemptAsks rate payload r) (hresponds : Responds serve number r g a g') :
    HasDone number before count letters g'.deeds := by
  obtain ⟨done, hdeeds, hcount, hletters⟩ := h
  cases r with
  | ledger call =>
      obtain ⟨t, -, rfl⟩ := hresponds
      exact ⟨.called call :: done, by simp [Standing.doing, hdeeds], by simpa [acknowledgements] using hcount,
        hletters⟩
  | alert alert =>
      obtain rfl : g' = _ := hresponds
      exact ⟨.offered (.alert alert) _ :: done, by simp [Standing.doing, hdeeds]; rfl,
        by simpa [acknowledgements] using hcount, hletters⟩
  | letter letter => exact hasks.elim
  | acknowledge => exact hasks.elim
  | time =>
      obtain rfl : g' = _ := hresponds
      exact ⟨done, hdeeds, hcount, hletters⟩
  | bound ms =>
      obtain rfl : g' = _ := hresponds
      exact ⟨done, hdeeds, hcount, hletters⟩
  | count metric =>
      obtain rfl : g' = _ := hresponds
      exact ⟨done, hdeeds, hcount, hletters⟩

theorem HasDone.acknowledged {count : Nat} {letters : List Text.Bytes}
    (h : HasDone number before count letters deeds) :
    HasDone number before (count + 1) letters (.acknowledged number :: deeds) := by
  obtain ⟨done, rfl, hcount, hletters⟩ := h
  refine ⟨.acknowledged number :: done, rfl, ?_, hletters⟩
  rw [acknowledgements, List.count_cons_self, ← hcount, acknowledgements]

theorem HasDone.accepted {count : Nat} {letters : List Text.Bytes}
    (h : HasDone number before count letters deeds) (payload : Text.Bytes) :
    HasDone number before count (payload :: letters) (.offered (.letter payload) none :: deeds) := by
  obtain ⟨done, rfl, hcount, rfl⟩ := h
  exact ⟨.offered (.letter payload) none :: done, rfl, by simpa [acknowledgements] using hcount, rfl⟩

theorem HasDone.rejected {count : Nat} {letters : List Text.Bytes}
    (h : HasDone number before count letters deeds) (payload : Text.Bytes) (rejection : Rejection) :
    HasDone number before count letters (.offered (.letter payload) (some rejection) :: deeds) := by
  obtain ⟨done, rfl, hcount, rfl⟩ := h
  exact ⟨.offered (.letter payload) (some rejection) :: done, rfl,
    by simpa [acknowledgements] using hcount, rfl⟩

/-- What was done since the beginning is known once and for all. -/
theorem HasDone.unique {count count' : Nat} {letters letters' : List Text.Bytes}
    (h : HasDone number before count letters deeds) (h' : HasDone number before count' letters' deeds) :
    count = count' ∧ letters = letters' := by
  obtain ⟨done, rfl, rfl, rfl⟩ := h
  obtain ⟨done', hdone, rfl, rfl⟩ := h'
  obtain rfl := List.append_cancel_right hdone
  exact ⟨rfl, rfl⟩

/-- The contract of a settlement: it acknowledges at most once, and only when the payload's event has its
statement or the dead letters have accepted the payload. -/
def safely (books : Books serve) (m : Message) (before : List Happening) :
    Contract (Standing σ) Settlement where
  asks r g := ∃ letters, HasDone m.number before 0 letters g.deeds ∧
    (r = .acknowledge → letters = [] ∧ IsSettled books m.payload g.ledger ∨ letters = [m.payload])
  ends result g :=
    match result.disposition with
    | .acknowledged => HasDone m.number before 1 [] g.deeds ∧ IsSettled books m.payload g.ledger
    | .deadLettered => HasDone m.number before 1 [m.payload] g.deeds
    | .leftForRedelivery => HasDone m.number before 0 [] g.deeds
  overflows g := HasDone m.number before 0 [] g.deeds

theorem conclude_safely (books : Books serve) (m : Message) (results : List (Except Error Outcome))
    (hdone : HasDone m.number before 0 [] g.deeds)
    (hsettled : succeeded results → IsSettled books m.payload g.ledger) :
    (conclude m.payload results).Meets (Responds serve m.number) (safely books m before) g := by
  unfold conclude
  split
  · rename_i hsucceeded
    refine Meets.request ⟨[], hdone, fun _ => .inl ⟨rfl, hsettled hsucceeded⟩⟩ fun _ g' h => ?_
    obtain rfl : g' = _ := h
    exact ⟨hdone.acknowledged, hsettled hsucceeded⟩
  · refine Meets.request ⟨[], hdone, fun heq => by cases heq⟩ fun outcome g₁ h₁ => ?_
    obtain rfl : g₁ = _ := h₁
    cases outcome with
    | error rejection =>
        refine Meets.request ⟨[], hdone.rejected _ _, fun heq => by cases heq⟩ fun _ g₂ h₂ => ?_
        obtain rfl : g₂ = _ := h₂
        exact hdone.rejected m.payload rejection
    | ok accepted =>
        have haccepted := hdone.accepted m.payload
        refine Meets.request ⟨[m.payload], haccepted, fun heq => by cases heq⟩ fun _ g₂ h₂ => ?_
        obtain rfl : g₂ = _ := h₂
        refine Meets.request ⟨[m.payload], haccepted, fun _ => .inr rfl⟩ fun _ g₃ h₃ => ?_
        obtain rfl : g₃ = _ := h₃
        exact haccepted.acknowledged

theorem settlement_safely (books : Books serve) (rate : Decimal) (bound : Nat) (m : Message)
    (hsound : books.sound g.ledger) :
    (settlement rate bound m.payload).Meets (Responds serve m.number) (safely books m g.deeds) g := by
  have hstores := attemptResults_stores books m.number rate bound m.payload Limits.attempts hsound
  have hkept : ∀ r (g₁ : Standing σ) (a : r.Answer) g₂, AttemptAsks rate m.payload r →
      HasDone m.number g.deeds 0 [] g₁.deeds → Responds serve m.number r g₁ a g₂ →
      HasDone m.number g.deeds 0 [] g₂.deeds := fun _ _ _ _ hasks h hresponds => h.attempt hasks hresponds
  have hquiet := (attemptResults_meets rate bound m.payload Limits.attempts).frame hkept
    (hasDone_nothing m.number g.deeds)
  refine Meets.bind ((hstores.and hquiet).mono ?_ (fun _ _ h => h) ?_) fun results g' h => ?_
  · rintro r g' ⟨-, hasks, hdone⟩
    refine ⟨[], hdone, fun heq => ?_⟩
    rw [heq] at hasks
    exact hasks.elim
  · exact fun _ h => h.2.2
  · obtain ⟨⟨-, hsettled⟩, -, hdone⟩ := h
    exact conclude_safely books m results hdone hsettled

/-- The invariant of sessions that settle safely. -/
def safety (books : Books serve) : Session.Invariant σ where
  kept _ g := books.sound g.ledger
  contract m before := safely books m before

theorem safety_sustained (books : Books s.serve) :
    Session.Sustains s (fun _ => True) (safety books) where
  deliver _ _ _ h := h
  take _ m _ hsound := settlement_safely books s.rate s.attemptTimeout m hsound
  answer _ _ _ _ _ _ _ _ hsound _ hresponds _ := hresponds.sound hsound

theorem step_acknowledge_ledger {x : Session σ} {m : Message}
    {next : Request.acknowledge.Answer → Program Settlement}
    (h : x.hand = .busy m before (.ask .acknowledge next)) : (x.step s).world.ledger = x.world.ledger := by
  rcases x with ⟨w, hand, delivered, waiting⟩
  obtain rfl : hand = _ := h
  rcases hexec : Run.exec (Run.answer s m .acknowledge) w with ⟨halt | a, w'⟩
  · rw [Session.step_halt hexec]
    exact congrArg Standing.ledger ((Run.acknowledge_ends m).error hexec).2.1
  · rw [Session.step_answer hexec]
    exact congrArg Standing.ledger ((Run.acknowledge_ends m).ok hexec)

/-- After its acknowledgement a settlement is done, and how the acknowledgement went makes no difference. -/
theorem done_of_acknowledge {m : Message} {next : Request.acknowledge.Answer → Program Settlement}
    (h : (ask .acknowledge next).Meets (Responds serve m.number) (safely books m before) g) :
    ∃ disposition, disposition ≠ .leftForRedelivery ∧
      ∀ a, ∃ result, next a = .done result ∧ result.disposition = disposition := by
  obtain ⟨⟨letters, hdone, -⟩, hnext⟩ := h
  have hacknowledged : HasDone m.number before 1 letters (g.doing (.acknowledged m.number)).deeds :=
    hdone.acknowledged
  refine ⟨if letters = [] then .acknowledged else .deadLettered, by split <;> simp, fun a => ?_⟩
  have hafter := hnext a (g.doing (.acknowledged m.number)) rfl
  cases hrest : next a with
  | overflow =>
      rw [hrest] at hafter
      cases (hacknowledged.unique hafter).1
  | ask r next' =>
      rw [hrest] at hafter
      obtain ⟨⟨letters', hnone, -⟩, -⟩ := hafter
      cases (hacknowledged.unique hnone).1
  | done result =>
      refine ⟨result, rfl, ?_⟩
      rw [hrest] at hafter
      simp only [meets_done, safely] at hafter
      cases hdisposition : result.disposition with
      | acknowledged =>
          rw [hdisposition] at hafter
          rw [if_pos (hacknowledged.unique hafter.1).2]
      | deadLettered =>
          rw [hdisposition] at hafter
          rw [(hacknowledged.unique hafter).2]
          rfl
      | leftForRedelivery =>
          rw [hdisposition] at hafter
          cases (hacknowledged.unique hafter).1

/-- No acknowledged message is lost. Whatever the messages, the faults and the state of the dead letters:
when a message is acknowledged, its event has a statement then and ever after, or this settlement has had
its payload accepted as a dead letter, once; the acknowledgement changes neither the disposition nor the
ledger, however it goes; a settlement that is done has acknowledged its message once, or not at all if it
leaves it for redelivery; and one that overflows has not acknowledged it. -/
theorem acknowledged_is_never_lost (s : Setup σ) (books : Books s.serve) (w : World σ)
    (messages : List Message) (n : Nat) (hsound : books.sound w.ledger) :
    let x := (Session.begin w messages).after s n
    (∀ m before next, x.hand = .busy m before (.ask .acknowledge next) →
      ((∃ e, Event.decode m.payload = .ok e ∧ ∀ k, books.has (x.after s k).world.ledger e.id) ∨
        HasDone m.number before 0 [m.payload] x.world.standing.deeds) ∧
      (∃ disposition, disposition ≠ .leftForRedelivery ∧
        ∀ a, ∃ result, next a = .done result ∧ result.disposition = disposition) ∧
      (x.step s).world.ledger = x.world.ledger) ∧
    (∀ m before result, x.hand = .busy m before (.done result) →
      HasDone m.number before (if result.disposition = .leftForRedelivery then 0 else 1)
        (if result.disposition = .deadLettered then [m.payload] else []) x.world.standing.deeds) ∧
    ∀ m before, x.hand = .busy m before .overflow →
      HasDone m.number before 0 [] x.world.standing.deeds := by
  intro x
  have hbegin : Session.Carries s (safety books) (Session.begin w messages) :=
    Session.carries_begin messages hsound
  obtain ⟨hsound', hhand⟩ := hbegin.after (safety_sustained books) n fun _ _ => trivial
  refine ⟨fun m before next h => ?_, fun m before result h => ?_, fun m before h => ?_⟩
  · obtain ⟨-, hmeets⟩ := hhand m before _ h
    refine ⟨?_, done_of_acknowledge hmeets, step_acknowledge_ledger h⟩
    obtain ⟨⟨letters, hdone, hsafe⟩, -⟩ := hmeets
    rcases hsafe rfl with ⟨-, e, hdecode, hhas⟩ | rfl
    · exact .inl ⟨e, hdecode, fun k => (has_after books hsound' hhas k).2⟩
    · exact .inr hdone
  · obtain ⟨-, hends⟩ := hhand m before _ h
    simp only [meets_done, safety, safely] at hends
    cases hdisposition : result.disposition with
    | acknowledged =>
        rw [hdisposition] at hends
        exact hends.1
    | deadLettered =>
        rw [hdisposition] at hends
        exact hends
    | leftForRedelivery =>
        rw [hdisposition] at hends
        exact hends
  · exact (hhand m before _ h).2

def unreadableSession : Session InMemory :=
  Session.begin (World.start InMemory.empty Queue.undrained Queue.undrained [] [] []) [⟨1, [], Fault.none⟩]

/-- It is acknowledged, and safe by then. -/
theorem unreadable_is_never_lost :
    let x := unreadableSession.after (Setup.inMemory Credit.defaultRate 5000 1000 none) 6
    ∃ m before next, x.hand = .busy m before (.ask .acknowledge next) ∧
      ((∃ e, Event.decode m.payload = .ok e ∧
          ∀ k, ((x.after (Setup.inMemory Credit.defaultRate 5000 1000 none) k).world.ledger.find? e.id).isSome) ∨
        HasDone m.number before 0 [m.payload] x.world.standing.deeds) := by
  intro x
  have hasks : (unreadableSession.after
      (Setup.inMemory Credit.defaultRate 5000 1000 none) 6).hand.isAcknowledging = true := by decide +kernel
  obtain ⟨m, before, next, h⟩ := Hand.exists_of_isAcknowledging hasks
  exact ⟨m, before, next, h, ((acknowledged_is_never_lost (Setup.inMemory Credit.defaultRate 5000 1000 none)
    InMemory.books _ _ 6 trivial).1 m before next h).1⟩

end UsageLedger.Delivery
