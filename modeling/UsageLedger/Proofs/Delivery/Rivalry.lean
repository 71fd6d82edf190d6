import UsageLedger.Proofs.Delivery.Billing
import UsageLedger.Proofs.Ledger.Books

/-! Rivalry. A settlement has a ledger to share with others, who may do anything between two of its calls
as long as statements stay. No call fails, except that a posting is refused where its event has a statement
already. Then a settlement that does not find the statement of its event either posts it or loses the race
for it, and after a race lost it finds the statement in its next attempt. -/

namespace UsageLedger.Delivery

open Ledger Program

variable {σ α β γ : Type} {serve : Service σ} {m : σ} {call : Call} {id : Uuid}

def isDuplicateRefusal : Call → Error → Bool
  | .create t _, error => error = .duplicateEvent t.event
  | _, _ => false

/-- Whether a ledger answers a call, other than that it refuses a posting as a duplicate. -/
def IsClean (serve : Service σ) (call : Call) (m : σ) : Prop :=
  ∀ error, (serve call m).1 = .error error → isDuplicateRefusal call error = true

instance : Decidable (IsClean serve call m) :=
  match h : (serve call m).1 with
  | .ok reply => isTrue fun error herror => by rw [h] at herror; cases herror
  | .error error =>
    decidable_of_iff (isDuplicateRefusal call error = true)
      ⟨fun hduplicate other hother => by rw [h] at hother; rwa [← Except.error.inj hother],
        fun hclean => hclean error h⟩

theorem create_of_isDuplicateRefusal {error : Error} (h : isDuplicateRefusal call error = true) :
    ∃ t delta, call = .create t delta ∧ error = .duplicateEvent t.event := by
  cases call with
  | create t delta => exact ⟨t, delta, rfl, by simpa [isDuplicateRefusal] using h⟩
  | _ => cases h

/-- What is at stake for a settlement: the ledger it knows, and whether it has posted an event itself. -/
structure Stake (σ : Type) where
  ledger : σ
  credited : Prop

/-- Rivals for an event: before a call they may change the ledger, but not take away the statement. -/
def Rivals (books : Books serve) (id : Uuid) : Surroundings (Stake σ)
  | .ledger call, g, answer, g' => ∃ m, books.sound m ∧ (books.has g.ledger id → books.has m id) ∧
      IsClean serve call m ∧ answer = some (serve call m).1 ∧
      g' = ⟨(serve call m).2, g.credited ∨ ∃ t, call.posting? serve m = some t ∧ t.event = id⟩
  | _, g, _, g' => g' = g

/-- How a race ends: the statement was there, or else it was posted, or else another posted it. -/
inductive Raced (books : Books serve) (id : Uuid) (duplicate posted lost : Prop) (before after : Stake σ) :
    Prop
  | found (hduplicate : duplicate) (hcredited : ¬after.credited)
  | won (hnew : ¬books.has before.ledger id) (hposted : posted) (hcredited : after.credited)
  | missed (hnew : ¬books.has before.ledger id) (hlost : lost) (hcredited : ¬after.credited)

variable {books : Books serve} {g g' g'' : Stake σ}

theorem Rivals.reply {answer : Option (Except Error call.Reply)}
    (h : Rivals books id (.ledger call) g answer g')
    (hcall : ∀ t delta, call ≠ .create t delta) :
    ∃ m reply, books.sound m ∧ (books.has g.ledger id → books.has m id) ∧
      answer = some (.ok reply) ∧ (serve call m).1 = .ok reply ∧
      (books.has m id ↔ books.has g'.ledger id) ∧ (g.credited ↔ g'.credited) := by
  obtain ⟨m, hsound, hgrown, hclean, hanswer, rfl⟩ := h
  have hquiet : call.posting? serve m = none := by
    cases hposting : call.posting? serve m with
    | none => rfl
    | some t =>
        obtain ⟨delta, hcreate, -⟩ := Call.posting?_eq_some hposting
        exact (hcall t delta hcreate).elim
  cases hserved : (serve call m).1 with
  | error error =>
      obtain ⟨t, delta, hcreate, -⟩ := create_of_isDuplicateRefusal (hclean error hserved)
      exact (hcall t delta hcreate).elim
  | ok reply =>
      refine ⟨m, reply, hsound, hgrown, by rw [hanswer, hserved], hserved, ?_, ?_⟩
      · rw [books.has_serve call id hsound, hquiet]
        simp
      · simp [hquiet]

theorem post_races (books : Books serve) {rate amount : Decimal} {e : Event} {x : Extra}
    (hdetails : e.details = .ok x) (hamount : Credit.amount? rate e = some amount) (hfree : ¬g.credited) :
    (post rate e).run.Meets (Rivals books e.id)
      ⟨fun _ _ => True, fun posted g' => books.has g'.ledger e.id ∧
        Raced books e.id (posted = .ok none) (∃ t, posted = .ok (some t))
          (posted = .error (.failed (.duplicateEvent e.id))) g g',
        fun _ => False⟩ g := by
  rw [run_post]
  refine ⟨trivial, fun answer g₁ h₁ => ?_⟩
  obtain ⟨m₁, reply, hsound₁, hgrown₁, rfl, -, hkept₁, hcredited₁⟩ := Rivals.reply h₁ (by simp)
  refine ⟨trivial, fun answer g₂ h₂ => ?_⟩
  obtain ⟨m₂, found, hsound₂, hgrown₂, rfl, hfound, hkept₂, hcredited₂⟩ := Rivals.reply h₂ (by simp)
  have hhas : found.isSome ↔ books.has m₂ e.id := books.has_of_find hsound₂ hfound
  cases found with
  | some statement =>
      refine ⟨hkept₂.1 (hhas.1 rfl), .found rfl ?_⟩
      rwa [← hcredited₂, ← hcredited₁]
  | none =>
      have hnew : ¬books.has g.ledger e.id := by
        intro hold
        have hsome := hhas.2 (hgrown₂ (hkept₁.1 (hgrown₁ hold)))
        cases hsome
      refine ⟨trivial, fun answer g₃ h₃ => ?_⟩
      obtain ⟨m₃, reply, hsound₃, hgrown₃, rfl, -, hkept₃, hcredited₃⟩ := Rivals.reply h₃ (by simp)
      change (postStatement rate e).Meets _ _ g₃
      rw [postStatement, hdetails, hamount]
      refine ⟨trivial, fun createdAt g₄ h₄ => ⟨trivial, fun answer g₅ h₅ => ?_⟩⟩
      obtain rfl : g₄ = g₃ := h₄
      obtain ⟨m₄, hsound₄, -, hclean, rfl, rfl⟩ := h₅
      have hfree₄ : ¬g₄.credited := by rwa [← hcredited₃, ← hcredited₂, ← hcredited₁]
      cases hserved : (serve (.create (Statement.ofEvent e x amount createdAt) amount) m₄).1 with
      | ok reply =>
          have hposting : Call.posting? serve m₄ (.create (Statement.ofEvent e x amount createdAt) amount) =
              some (Statement.ofEvent e x amount createdAt) := by
            rw [Call.posting?, hserved]
          refine ⟨(books.has_serve _ _ hsound₄).2 (.inr ⟨_, hposting, rfl⟩), .won hnew ⟨_, rfl⟩ ?_⟩
          exact .inr ⟨_, hposting, rfl⟩
      | error error =>
          obtain ⟨t, delta, hcreate, rfl⟩ := create_of_isDuplicateRefusal (hclean error hserved)
          obtain ⟨rfl, rfl⟩ := Call.create.inj hcreate
          have hhas₄ := books.has_of_duplicate hsound₄ hserved
          refine ⟨(books.has_serve _ _ hsound₄).2 (.inl hhas₄), .missed hnew rfl ?_⟩
          rintro (hcredited | ⟨t, hposting, -⟩)
          · exact hfree₄ hcredited
          · rw [Call.posting?, hserved] at hposting
            cases hposting

/-! ### Attempts -/

theorem Rivals.aside {r : Request} {a : r.Answer} (h : Rivals books id r g a g') (hr : r.IsAside)
    (hhas : books.has g.ledger id) : books.has g'.ledger id ∧ (g.credited ↔ g'.credited) := by
  cases r with
  | ledger call =>
      cases call with
      | balance user =>
          obtain ⟨m, reply, -, hgrown, -, -, hkept, hcredited⟩ := Rivals.reply h (by simp)
          exact ⟨hkept.1 (hgrown hhas), hcredited⟩
      | _ => exact hr.elim
  | letter letter => exact hr.elim
  | acknowledge => exact hr.elim
  | time =>
      obtain rfl : g' = _ := h
      exact ⟨hhas, Iff.rfl⟩
  | bound ms =>
      obtain rfl : g' = _ := h
      exact ⟨hhas, Iff.rfl⟩
  | alert alert =>
      obtain rfl : g' = _ := h
      exact ⟨hhas, Iff.rfl⟩
  | count metric =>
      obtain rfl : g' = _ := h
      exact ⟨hhas, Iff.rfl⟩

theorem attempt_races (books : Books serve) {rate amount : Decimal} {payload : Text.Bytes} {e : Event}
    {x : Extra} (bound : Nat) (hdecode : Event.decode payload = .ok e) (hdetails : e.details = .ok x)
    (hamount : Credit.amount? rate e = some amount) (hfree : ¬g.credited) :
    (attempt rate bound payload).Meets (Rivals books e.id)
      ⟨fun _ _ => True, fun result g' => books.has g'.ledger e.id ∧
        Raced books e.id (result = .ok .duplicate) (∃ t balance, result = .ok (.posted t balance))
          (result = .error (.duplicateEvent e.id)) g g',
        fun _ => False⟩ g := by
  rw [attempt_of_ok hdecode]
  refine ⟨trivial, fun _ g₁ h₁ => ?_⟩
  obtain rfl : g₁ = g := h₁
  apply Meets.bind (post_races books hdetails hamount hfree)
  intro posted g₂ h₂
  obtain ⟨hhas₂, hraced⟩ := h₂
  have hkept : ∀ r (g : Stake σ) (a : r.Answer) g', r.IsAside →
      books.has g.ledger e.id ∧ (g₂.credited ↔ g.credited) → Rivals books e.id r g a g' →
      books.has g'.ledger e.id ∧ (g₂.credited ↔ g'.credited) := by
    intro r g a g' hr h hrivals
    obtain ⟨hhas, hcredited⟩ := hrivals.aside hr h.1
    exact ⟨hhas, h.2.trans hcredited⟩
  refine ((attemptPosted_meets bound e posted).frame hkept ⟨hhas₂, Iff.rfl⟩).mono (fun _ _ _ => trivial) ?_
    fun _ h => h.1
  rintro result g₃ ⟨hconcludes, hhas₃, hcredited₃⟩
  refine ⟨hhas₃, ?_⟩
  cases hraced with
  | found hduplicate hcredited =>
      subst hduplicate
      exact .found hconcludes (hcredited₃.not.1 hcredited)
  | won hnew hposted hcredited =>
      obtain ⟨t, rfl⟩ := hposted
      exact .won hnew ⟨t, hconcludes⟩ (hcredited₃.1 hcredited)
  | missed hnew hlost hcredited =>
      subst hlost
      exact .missed hnew hconcludes (hcredited₃.not.1 hcredited)

/-! ### Settlements -/

/-- Whether the only attempt of a settlement posted. -/
def Settlement.HasPosted (t : Settlement) : Prop :=
  ∃ statement balance, t.results = [.ok (.posted statement balance)]

/-- Whether a settlement came to a duplicate in its first attempt, or in its second one after the first lost
the race. -/
def Settlement.IsDuplicate (id : Uuid) (t : Settlement) : Prop :=
  t.results = [.ok .duplicate] ∨ t.results = [.error (.duplicateEvent id), .ok .duplicate]

/-- How a settlement ends among rivals: the message is acknowledged, and it is known who posted. -/
def Settlement.Ends (id : Uuid) (t : Settlement) (credited : Prop) : Prop :=
  t.disposition = .acknowledged ∧ (t.HasPosted ∧ credited ∨ t.IsDuplicate id ∧ ¬credited)

/-- Two attempts decide it. -/
theorem attemptResults_race (books : Books serve) {rate amount : Decimal} {payload : Text.Bytes} {e : Event}
    {x : Extra} (bound n : Nat) (hdecode : Event.decode payload = .ok e) (hdetails : e.details = .ok x)
    (hamount : Credit.amount? rate e = some amount) (hfree : ¬g.credited) :
    (attemptResults rate bound payload (n + 2)).Meets (Rivals books e.id)
      ⟨fun _ _ => True, fun results g' => books.has g'.ledger e.id ∧
        Settlement.Ends e.id ⟨.acknowledged, results⟩ g'.credited ∧ succeeded results,
        fun _ => False⟩ g := by
  apply Meets.bind (attempt_races books bound hdecode hdetails hamount hfree)
  intro result g₁ h₁
  obtain ⟨hhas₁, hraced₁⟩ := h₁
  cases hraced₁ with
  | found hduplicate hcredited =>
      subst hduplicate
      exact ⟨hhas₁, ⟨rfl, .inr ⟨.inl rfl, hcredited⟩⟩, rfl⟩
  | won _ hposted hcredited =>
      obtain ⟨t, balance, rfl⟩ := hposted
      exact ⟨hhas₁, ⟨rfl, .inl ⟨⟨t, balance, rfl⟩, hcredited⟩⟩, rfl⟩
  | missed _ hlost hcredited =>
      subst hlost
      apply Meets.request trivial
      intro _ g₂ h₂
      obtain rfl : g₂ = g₁ := h₂
      have hsecond : (attemptResults rate bound payload (n + 1)).Meets (Rivals books e.id)
          ⟨fun _ _ => True, fun results g' => books.has g'.ledger e.id ∧ results = [.ok .duplicate] ∧
            ¬g'.credited, fun _ => False⟩ g₂ := by
        refine Meets.bind (attempt_races books bound hdecode hdetails hamount hcredited)
          fun result g₃ h₃ => ?_
        obtain ⟨hhas₃, hraced₃⟩ := h₃
        cases hraced₃ with
        | found hduplicate hcredited₃ =>
            subst hduplicate
            exact ⟨hhas₃, rfl, hcredited₃⟩
        | won hnew => exact (hnew hhas₁).elim
        | missed hnew => exact (hnew hhas₁).elim
      apply Meets.bind hsecond
      intro results g₃ h₃
      obtain ⟨hhas₃, rfl, hcredited₃⟩ := h₃
      exact ⟨hhas₃, ⟨rfl, .inr ⟨.inr rfl, hcredited₃⟩⟩, rfl⟩

/-- A settlement of an event that has details and an amount ends acknowledged, with a statement of the event
in the ledger. -/
theorem settlement_races (books : Books serve) {rate amount : Decimal} {payload : Text.Bytes} {e : Event}
    {x : Extra} (bound : Nat) (hdecode : Event.decode payload = .ok e) (hdetails : e.details = .ok x)
    (hamount : Credit.amount? rate e = some amount) (hfree : ¬g.credited) :
    (settlement rate bound payload).Meets (Rivals books e.id)
      ⟨fun _ _ => True, fun t g' => books.has g'.ledger e.id ∧ t.Ends e.id g'.credited, fun _ => False⟩ g := by
  refine Meets.bind (attemptResults_race books bound 1 hdecode hdetails hamount hfree)
    fun results g₁ h₁ => ?_
  obtain ⟨hhas, hends, hsucceeded⟩ := h₁
  unfold conclude
  rw [if_pos hsucceeded]
  apply Meets.request trivial
  intro _ g₂ h₂
  obtain rfl : g₂ = g₁ := h₂
  exact ⟨hhas, hends⟩

end UsageLedger.Delivery
