import UsageLedger.Proofs.Delivery.Desk
import UsageLedger.Proofs.Ledger.Posting

/-! Postings on a ledger in memory that answers every call. An event that has its statement is a duplicate;
the account of any other one is opened, and the event is posted unless it has no details or the ledger
refuses its statement. -/

namespace UsageLedger.Delivery

open Ledger Program

variable {σ : Type} {rate : Decimal} {e : Event}

namespace Desk

variable {d d' : Desk σ} {serve : Service σ}

/-- Whether no fault is left for any call. -/
def IsCalm (d : Desk σ) : Prop := ∀ call, d.script call = []

theorem IsCalm.sameBut (h : d.IsCalm) (hsame : d.SameBut d') : d'.IsCalm := by
  intro call
  rw [hsame.2]
  exact h call

/-- A call on a calm desk is served at once. -/
theorem call_of_isCalm (hcalm : d.IsCalm) (hleft : 0 ≤ d.left) (call : Call) :
    d.call serve call = (some (serve call d.ledger).1, { d with ledger := (serve call d.ledger).2 }) := by
  have hfault : d.begin call = (Fault.none, d) := by
    rw [Desk.begin, hcalm call]
    refine congrArg (Fault.none, ·) (Desk.ext rfl ?_ rfl)
    funext other
    simp [hcalm other]
  have htimely : d.inTime (some 0) = true := by simpa [inTime] using hleft
  have hwaited : d.waited (some 0) = d := by
    rw [waited, htimely]
    simp
  rw [Desk.call, hfault]
  simp [Fault.none, htimely, hwaited]

theorem Around.served {call : Call} {a : Option (Except Error call.Reply)} {answer : Except Error call.Reply} {m : σ}
    (h : Around serve (.ledger call) d a d') (hcalm : d.IsCalm) (hleft : 0 ≤ d.left)
    (hserve : serve call d.ledger = (answer, m)) : a = some answer ∧ d' = { d with ledger := m } := by
  have hcall : (a, d') = d.call serve call := h
  rw [call_of_isCalm hcalm hleft, hserve] at hcall
  exact Prod.mk.inj hcall

/-- Whatever is asked, a calm desk stays calm. -/
theorem Around.isCalm {r : Request} {a : r.Answer} (h : Around serve r d a d') (hcalm : d.IsCalm) : d'.IsCalm := by
  cases r with
  | time =>
      obtain rfl : d' = _ := h
      exact hcalm
  | bound ms =>
      obtain rfl : d' = _ := h
      exact hcalm
  | ledger call =>
      obtain rfl : d' = _ := congrArg Prod.snd h
      intro other
      simp [Desk.call, begin, waited, hcalm other]
  | alert a => exact hcalm.sameBut h
  | letter payload => exact hcalm.sameBut h
  | acknowledge => exact hcalm.sameBut h
  | count metric =>
      obtain rfl : d' = _ := h
      exact hcalm

/-- A request leaves the ledger alone or is a call on it that it executes. -/
theorem Around.ledger {r : Request} {a : r.Answer} (h : Around serve r d a d') :
    d'.ledger = d.ledger ∨ ∃ call, r = .ledger call ∧ d'.ledger = (serve call d.ledger).2 := by
  cases r with
  | time =>
      obtain rfl : d' = _ := h
      exact .inl rfl
  | bound ms =>
      obtain rfl : d' = _ := h
      exact .inl rfl
  | ledger call =>
      obtain rfl : d' = _ := congrArg Prod.snd h
      simp only [Desk.call]
      split
      · exact .inr ⟨call, rfl, rfl⟩
      · exact .inl rfl
  | alert a => exact .inl h.1
  | letter payload => exact .inl h.1
  | acknowledge => exact .inl h.1
  | count metric =>
      obtain rfl : d' = _ := h
      exact .inl rfl

theorem Around.ledger_of_isAside {d d' : Desk InMemory} {r : Request} {a : r.Answer}
    (h : Around InMemory.serve r d a d') (hr : r.IsAside) : d'.ledger = d.ledger := by
  rcases h.ledger with hsame | ⟨call, rfl, hserved⟩
  · exact hsame
  · cases call with
    | balance user => exact hserved
    | _ => exact hr.elim

end Desk

/-- What the posting of an event comes to and leaves, on a ledger in memory that answers every call. -/
inductive Booked (rate : Decimal) (e : Event) (m : InMemory) : Except Setback (Option Statement) → InMemory → Prop
  | duplicate {t : Statement} (hfind : m.find? e.id = some t) : Booked rate e m (.ok none) (m.record e)
  | unread {error : Error} (hnew : m.find? e.id = none) (hdetails : e.details = .error error) :
      Booked rate e m (.error (.failed error)) ((m.record e).ensure e.user)
  | refused {x : Extra} {amount : Decimal} {createdAt : Instant} {error : Error} (hnew : m.find? e.id = none)
      (hdetails : e.details = .ok x) (hamount : Credit.amount? rate e = some amount)
      (hcreate : ((m.record e).ensure e.user).create (Statement.ofEvent e x amount createdAt) amount = .error error) :
      Booked rate e m (.error (.failed error)) ((m.record e).ensure e.user)
  | posted {x : Extra} {amount : Decimal} {createdAt : Instant} {m' : InMemory} (hnew : m.find? e.id = none)
      (hdetails : e.details = .ok x) (hamount : Credit.amount? rate e = some amount)
      (hcreate : ((m.record e).ensure e.user).create (Statement.ofEvent e x amount createdAt) amount = .ok m') :
      Booked rate e m (.ok (some (Statement.ofEvent e x amount createdAt))) m'

/-- Whether an event has details and yet no amount. -/
def LacksAmount (rate : Decimal) (e : Event) : Prop := ∃ x, e.details = .ok x ∧ Credit.amount? rate e = none

/-- A contract on desks that stay calm. -/
def calmly {α : Type} (ends : α → InMemory → Prop) (overflows : Prop) : Contract (Desk InMemory) α :=
  ⟨fun _ _ => True, fun a d => d.IsCalm ∧ ends a d.ledger, fun _ => overflows⟩

theorem postStatement_booked {m : InMemory} {d : Desk InMemory} (hcalm : d.IsCalm) (hleft : 0 ≤ d.left)
    (hnew : m.find? e.id = none) (hledger : d.ledger = (m.record e).ensure e.user) :
    (postStatement rate e).Meets (Desk.Around InMemory.serve) (calmly (Booked rate e m) (LacksAmount rate e)) d := by
  rw [postStatement]
  cases hdetails : e.details with
  | error error => exact ⟨hcalm, hledger ▸ .unread hnew hdetails⟩
  | ok x =>
      cases hamount : Credit.amount? rate e with
      | none => exact ⟨x, hdetails, hamount⟩
      | some amount =>
          refine ⟨trivial, fun (createdAt : Instant) d₁ h₁ => ⟨trivial, fun a d₂ h₂ => ?_⟩⟩
          obtain rfl : d₁ = d := h₁
          cases hcreate : ((m.record e).ensure e.user).create (Statement.ofEvent e x amount createdAt) amount with
          | error error =>
              obtain ⟨rfl, rfl⟩ := Desk.Around.served h₂ hcalm hleft (hledger ▸ serve_create_error hcreate)
              exact ⟨hcalm, hledger ▸ .refused hnew hdetails hamount hcreate⟩
          | ok m' =>
              obtain ⟨rfl, rfl⟩ := Desk.Around.served h₂ hcalm hleft (hledger ▸ serve_create_eq hcreate)
              exact ⟨hcalm, .posted hnew hdetails hamount hcreate⟩

/-- On a calm desk an event is posted as the ledger says, unless it has details and no amount. -/
theorem post_booked (rate : Decimal) (e : Event) {d : Desk InMemory} (hcalm : d.IsCalm) (hleft : 0 ≤ d.left) :
    (post rate e).run.Meets (Desk.Around InMemory.serve) (calmly (Booked rate e d.ledger) (LacksAmount rate e)) d := by
  rw [run_post]
  refine ⟨trivial, fun a d₁ h₁ => ?_⟩
  obtain ⟨rfl, rfl⟩ := Desk.Around.served h₁ hcalm hleft (rfl : InMemory.serve (.record e) _ = _)
  refine ⟨trivial, fun a d₂ h₂ => ?_⟩
  obtain ⟨rfl, rfl⟩ := Desk.Around.served h₂ hcalm hleft (rfl : InMemory.serve (.find e.id) _ = _)
  change (Posting.proceed _ (some (.ok (d.ledger.find? e.id)))).Meets _ _ _
  cases hfind : d.ledger.find? e.id with
  | some t => exact ⟨hcalm, .duplicate hfind⟩
  | none =>
      refine ⟨trivial, fun a d₃ h₃ => ?_⟩
      obtain ⟨rfl, rfl⟩ := Desk.Around.served h₃ hcalm hleft (rfl : InMemory.serve (.ensure e.user) _ = _)
      exact postStatement_booked hcalm hleft hfind rfl

/-- On a calm desk an attempt leaves what its posting left, and comes to what the posting came to. -/
theorem attempt_booked {payload : Text.Bytes} (hdecode : Event.decode payload = .ok e) (rate : Decimal) (bound : Nat)
    {d : Desk InMemory} (hcalm : d.IsCalm) : (attempt rate bound payload).Meets (Desk.Around InMemory.serve)
      (calmly (fun result m' => ∃ posted, Concludes bound e posted result ∧ Booked rate e d.ledger posted m')
        (LacksAmount rate e)) d := by
  rw [attempt_of_ok hdecode]
  refine ⟨trivial, fun _ d₁ h₁ => ?_⟩
  obtain rfl : d₁ = { d with left := bound } := h₁
  have hposting := post_booked rate e (d := { d with left := bound }) hcalm (Int.natCast_nonneg bound)
  refine Meets.bind hposting fun posted d₂ ⟨hcalm₂, hbooked⟩ => ?_
  -- what follows a posting reads the balance at most
  have hkept : ∀ r (d₃ : Desk InMemory) (a : r.Answer) d₄, r.IsAside → (d₃.IsCalm ∧ d₃.ledger = d₂.ledger) →
      Desk.Around InMemory.serve r d₃ a d₄ → d₄.IsCalm ∧ d₄.ledger = d₂.ledger :=
    fun r d₃ a d₄ haside h haround => ⟨haround.isCalm h.1, (haround.ledger_of_isAside haside).trans h.2⟩
  refine ((attemptPosted_meets bound e posted).frame hkept ⟨hcalm₂, rfl⟩).mono (fun _ _ _ => trivial) ?_ fun _ h =>
    h.1.elim
  rintro result d₃ ⟨hconcludes, hcalm₃, hsame⟩
  exact ⟨hcalm₃, posted, hconcludes, hsame ▸ hbooked⟩

end UsageLedger.Delivery
