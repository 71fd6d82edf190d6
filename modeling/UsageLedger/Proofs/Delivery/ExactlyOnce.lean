import UsageLedger.Proofs.Delivery.Billing
import UsageLedger.Proofs.Delivery.Session
import UsageLedger.Proofs.Ledger.Posting

/-! One consumer on a ledger in memory bills every event at most once, whatever goes wrong on the way. A
call may fail before or after its effect and an attempt may be given up in between; still every statement
is a bill of a message that was delivered, and every account has moved by its bills and by nothing else. -/

namespace UsageLedger.Delivery

open Ledger

/-- Whether all balances stay below the coefficient bound at the places of amounts. -/
def IsSmall (m : InMemory) : Prop :=
  ∀ user a, m.account? user = some a → |a.balance.value| * 10 ^ amountPlaces < 2 ^ 96

theorem isSmall_of_coefficients {m : InMemory}
    (h : ∀ a ∈ m.accounts, a.balance.coefficient.natAbs * 10 ^ amountPlaces < 2 ^ 96) : IsSmall m := by
  intro user a ha
  exact_mod_cast Decimal.abs_value_mul_lt (h a (InMemory.account?_eq_some_iff.1 ha).1)

/-- How a ledger has grown out of another: by statements that are bills, each account by what they bill,
and with no more places than amounts have. -/
structure Grown (bill : Statement → Prop) (m₀ m : InMemory) : Prop where
  statements : ∃ new, m.statements = m₀.statements ++ new ∧ (∀ s ∈ new, bill s) ∧
    ∀ user, m.holding user = m₀.holding user + billed new user
  places : m.HasPlaces amountPlaces

namespace Grown

variable {bill bill' : Statement → Prop} {m₀ m : InMemory}

theorem start (hplaces : m.HasPlaces amountPlaces) : Grown bill m m :=
  ⟨⟨[], by simp⟩, hplaces⟩

theorem mono (h : Grown bill m₀ m) (hbill : ∀ s, bill s → bill' s) : Grown bill' m₀ m := by
  obtain ⟨⟨new, hnew, hbills, hholding⟩, hplaces⟩ := h
  exact ⟨⟨new, hnew, fun s hs => hbill s (hbills s hs), hholding⟩, hplaces⟩

/-- A call that posts nothing but bills makes a ledger grow, as long as the balances stay small. -/
theorem serve {call : Call} (h : Grown bill m₀ m)
    (hcall : ∀ s delta, call = .create s delta → bill s ∧ delta = s.amount ∧ s.amount.scale ≤ amountPlaces)
    (hsmall : IsSmall (InMemory.serve call m).2) : Grown bill m₀ (InMemory.serve call m).2 := by
  obtain ⟨⟨new, hnew, hbills, hholding⟩, hplaces⟩ := h
  have hdelta : ∀ s delta, call = .create s delta → delta.scale ≤ amountPlaces := by
    intro s delta heq
    obtain ⟨-, rfl, hscale⟩ := hcall s delta heq
    exact hscale
  have hexact : InMemory.books.IsExact call m := isExact_of_small (by decide) hplaces hdelta hsmall
  refine ⟨⟨new ++ (call.posting? InMemory.serve m).toList, ?_, ?_, ?_⟩, serve_hasPlaces hplaces hdelta⟩
  · rw [serve_statements, hnew, List.append_assoc]
  · intro s hs
    rcases List.mem_append.1 hs with hold | hposted
    · exact hbills s hold
    · obtain ⟨delta, heq, -⟩ := Call.posting?_eq_some (Option.mem_toList.1 hposted)
      exact (hcall s delta heq).1
  · intro user
    have hmoved := InMemory.books.holding_of_isExact trivial hexact
      (fun s delta heq => (hcall s delta heq).2.1) user
    rw [billed_append, ← add_assoc, ← hholding]
    exact hmoved

end Grown

/-- What a session keeps of its ledger: it has grown by bills of delivered messages. -/
def growth (rate : Decimal) (m₀ : InMemory) : Session.Invariant InMemory where
  kept delivered g := Grown (fun s => ∃ m ∈ delivered, IsBill rate m.payload s) m₀ g.ledger
  contract m _ := ⟨fun r _ => SettlementAsks rate m.payload r, fun _ _ => True, fun _ => True⟩

theorem growth_sustained (rate : Decimal) (attemptTimeout handoff : Nat) (horizon : Option Nat)
    (m₀ : InMemory) :
    Session.Sustains (Setup.inMemory rate attemptTimeout handoff horizon) (fun g => IsSmall g.ledger)
      (growth rate m₀) where
  deliver delivered m g h := by
    refine h.mono ?_
    rintro s ⟨m', hm', hbill⟩
    exact ⟨m', List.mem_append_left _ hm', hbill⟩
  take delivered m g _ :=
    ((settlement_meets rate attemptTimeout m.payload).anywhere _ g).mono (fun _ _ h => h)
      (fun _ _ h => h) fun _ _ => trivial
  answer delivered m before r g a g' hm hkept hasks hresponds hsmall := by
    change Grown _ m₀ g'.ledger
    rcases hresponds.ledger with hsame | ⟨call, rfl, hserved⟩
    · rw [hsame]
      exact hkept
    · have hbills : Bills rate m.payload call := hasks
      rw [hserved] at hsmall ⊢
      refine hkept.serve (fun s delta heq => ?_) hsmall
      obtain ⟨hbill, hdelta⟩ := hbills s delta heq
      exact ⟨⟨m, hm, hbill⟩, hdelta, hbill.scale_le⟩

/-- Whatever the messages and whatever the faults: in every state that a session reaches from a ledger
without statements, every statement is the bill of a delivered message and is found under its event, no
event has two, and every account has moved from its opening balance by its statements and by nothing
else. Balances have at most the places of amounts and stay small enough for these places. -/
theorem session_bills_exactly_once (rate : Decimal) (attemptTimeout handoff : Nat) (horizon : Option Nat)
    (w : World InMemory) (messages : List Message) (n : Nat) (hempty : w.ledger.statements = [])
    (hopening : w.ledger.HasPlaces amountPlaces)
    (hrunning : ∀ k ≤ n, IsSmall ((Session.begin w messages).after
      (Setup.inMemory rate attemptTimeout handoff horizon) k).world.ledger) :
    let x := (Session.begin w messages).after (Setup.inMemory rate attemptTimeout handoff horizon) n
    (∀ s ∈ x.world.ledger.statements, (∃ m ∈ x.delivered, IsBill rate m.payload s) ∧
      x.world.ledger.find? s.event = some s) ∧
    (x.world.ledger.statements.map (·.event)).Nodup ∧
    ∀ user, x.world.ledger.holding user =
      w.ledger.holding user + billed x.world.ledger.statements user := by
  intro x
  have hbegin : Session.Carries (Setup.inMemory rate attemptTimeout handoff horizon)
      (growth rate w.ledger) (Session.begin w messages) :=
    Session.carries_begin messages (Grown.start hopening)
  have hgrown := (hbegin.after (growth_sustained rate attemptTimeout handoff horizon w.ledger) n
    hrunning).kept
  obtain ⟨new, hnew, hbills, hholding⟩ := hgrown.statements
  have hstatements : x.world.ledger.statements = new := by
    change x.world.ledger.statements = w.ledger.statements ++ new at hnew
    rw [hnew, hempty, List.nil_append]
  rw [hstatements]
  refine ⟨fun s hs => ⟨hbills s hs, ?_⟩, ?_, hholding⟩
  · exact InMemory.find?_eq_some_iff.2 ⟨hstatements ▸ hs, rfl⟩
  · rw [← hstatements]
    exact x.world.ledger.events_nodup

/-- A world in which the first posting is done but its reply is lost. -/
def lostReply : World InMemory :=
  World.start InMemory.empty Queue.undrained Queue.undrained
    [(.create, [⟨some 0, some "connection reset", true⟩])] [] []

/-- A message that is delivered twice in that world. -/
def lostReplySession : Session InMemory :=
  Session.begin lostReply [⟨1, creditPayload, Fault.none⟩, ⟨2, creditPayload, Fault.none⟩]

/-- The lost reply costs an attempt and no second posting. -/
theorem lostReply_bills_once :
    let x := lostReplySession.after (Setup.inMemory Credit.defaultRate 5000 1000 none) 21
    x.world.ledger.statements.length = 1 ∧ x.waiting = [] ∧ x.delivered.length = 2 ∧
      ∀ user, x.world.ledger.holding user =
        lostReply.ledger.holding user + billed x.world.ledger.statements user := by
  refine ⟨by decide +kernel, by decide +kernel, by decide +kernel, ?_⟩
  have hrunning : ∀ k ≤ 21, IsSmall
      (lostReplySession.after (Setup.inMemory Credit.defaultRate 5000 1000 none) k).world.ledger := by
    have hall : (List.range 22).all (fun k =>
        (lostReplySession.after (Setup.inMemory Credit.defaultRate 5000 1000 none) k).world.ledger.accounts.all
          fun a => a.balance.coefficient.natAbs * 10 ^ amountPlaces < 2 ^ 96) = true := by decide +kernel
    intro k hk
    have hsmall := List.all_eq_true.1 hall k (List.mem_range.2 (by omega))
    exact isSmall_of_coefficients fun a ha => by simpa using List.all_eq_true.1 hsmall a ha
  exact (session_bills_exactly_once Credit.defaultRate 5000 1000 none lostReply _ 21 rfl
    (fun _ _ h => by cases h) hrunning).2.2

end UsageLedger.Delivery
