import UsageLedger.Proofs.Delivery.Unreadable
import UsageLedger.Proofs.Json.Substitution

/-! Which messages are billed and which are put aside. A ledger in memory that answers every call decides on a
payload at the first attempt. If the event has its statement, or has details and a balance with room for its amount,
the attempt succeeds and the message is acknowledged. Otherwise the attempt fails and leaves the ledger such that
each further attempt fails likewise, so all attempts are used up and the payload is offered to the dead letters. -/

namespace UsageLedger

/-- What a user has to spend; a user without an account has nothing. -/
def Ledger.InMemory.held (m : Ledger.InMemory) (user : String) : Decimal :=
  ((m.account? user).map (·.balance)).getD Decimal.zero

namespace Delivery

open Ledger Program

variable {rate : Decimal} {e : Event} {m m' : InMemory} {payload : Text.Bytes} {error : Error} {bound : Nat}

theorem held_after_trace (m : InMemory) (e : Event) (user : String) :
    ((m.record e).ensure e.user).held user = m.held user := by
  rw [InMemory.held, InMemory.account?_ensure, InMemory.held]
  change Option.getD (Option.map _ (if _ then some ((m.account? e.user).getD _) else m.account? user)) _ = _
  split
  · rename_i huser
    rw [huser]
    cases m.account? e.user <;> rfl
  · rfl

theorem statements_after_trace (m : InMemory) (e : Event) :
    ((m.record e).ensure e.user).statements = m.statements := by
  unfold InMemory.ensure
  split <;> rfl

/-! ### Refusals -/

/-- Whether an event has an amount that its user's balance has room for. -/
def HasRoom (rate : Decimal) (m : InMemory) (e : Event) : Prop :=
  ∃ amount balance, Credit.amount? rate e = some amount ∧ (m.held e.user).add? amount = some balance

/-- Why an event without a statement is refused: it has no readable details, or its user's balance has no room for
its amount. -/
inductive Refusal (rate : Decimal) (m : InMemory) (e : Event) : Error → Prop
  | unread {error : Error} (hdetails : e.details = .error error) : Refusal rate m e error
  | noRoom {x : Extra} {amount : Decimal} (hdetails : e.details = .ok x) (hamount : Credit.amount? rate e = some amount)
      (hroom : (m.held e.user).add? amount = none) : Refusal rate m e (.backend (.overflow e.user amount))

/-- Recording an event and opening its account does not make it acceptable. -/
theorem Refusal.trace (h : Refusal rate m e error) : Refusal rate ((m.record e).ensure e.user) e error := by
  cases h with
  | unread hdetails => exact .unread hdetails
  | noRoom hdetails hamount hroom =>
      refine .noRoom hdetails hamount ?_
      rw [held_after_trace]
      exact hroom

/-- An event is refused for one reason. -/
theorem Refusal.unique {error' : Error} (h : Refusal rate m e error) (h' : Refusal rate m e error') :
    error = error' := by
  cases h with
  | unread hunread =>
      cases h' with
      | unread hunread' => exact Except.error.inj (hunread.symm.trans hunread')
      | noRoom hdetails => cases hunread.symm.trans hdetails
  | noRoom hdetails hamount =>
      cases h' with
      | unread hunread => cases hunread.symm.trans hdetails
      | noRoom _ hamount' => rw [Option.some.inj (hamount.symm.trans hamount')]

/-- An event that has details and room is not refused. -/
theorem Refusal.not_hasRoom {details : Extra} (h : Refusal rate m e error) (hdetails : e.details = .ok details) :
    ¬HasRoom rate m e := by
  rintro ⟨amount, balance, hamount, hadd⟩
  cases h with
  | unread hunread => cases hunread.symm.trans hdetails
  | noRoom _ hamount' hroom =>
      obtain rfl := Option.some.inj (hamount.symm.trans hamount')
      cases hroom.symm.trans hadd

section Postings

variable {x : Extra} {amount : Decimal} {createdAt : Instant}

/-- A posting that succeeds has had room on the account, and leaves the statement and the balance there. -/
theorem room_of_create
    (h : ((m.record e).ensure e.user).create (Statement.ofEvent e x amount createdAt) amount = .ok m') :
    ∃ balance, (m.held e.user).add? amount = some balance ∧
      m'.statements = m.statements ++ [Statement.ofEvent e x amount createdAt] ∧
      ∀ user, m'.account? user = if user = e.user then some ⟨e.user, balance⟩ else m.account? user := by
  obtain ⟨-, a, balance, ha, hadd, hstatements, haccounts⟩ := InMemory.create_eq_ok h
  have hheld : m.held e.user = a.balance := by
    rw [← held_after_trace m e e.user, InMemory.held, show InMemory.account? _ e.user = some a from ha]
    rfl
  refine ⟨balance, hheld ▸ hadd, ?_, fun user => (haccounts user).trans ?_⟩
  · rw [hstatements, statements_after_trace]
  · change (if user = e.user then _ else _) = _
    split
    · rfl
    · rename_i huser
      rw [InMemory.account?_ensure, if_neg huser]
      rfl

/-- A posting of a new event that fails has had no room. -/
theorem no_room_of_create (hnew : m.find? e.id = none)
    (h : ((m.record e).ensure e.user).create (Statement.ofEvent e x amount createdAt) amount = .error error) :
    (m.held e.user).add? amount = none ∧ error = .backend (.overflow e.user amount) := by
  obtain ⟨a, ha⟩ : ∃ a, ((m.record e).ensure e.user).account? e.user = some a := by
    rw [InMemory.account?_ensure, if_pos rfl]
    exact ⟨_, rfl⟩
  have hheld : a.balance = m.held e.user := by
    rw [← held_after_trace m e e.user, InMemory.held, ha]
    rfl
  have hfind := find?_after_trace hnew
  cases hadd : (m.held e.user).add? amount with
  | some balance =>
      obtain ⟨m', hm'⟩ := InMemory.create_of_add? (s := Statement.ofEvent e x amount createdAt) hfind ha (hheld ▸ hadd)
      cases h.symm.trans hm'
  | none =>
      have hrefused := InMemory.create_of_add?_eq_none (s := Statement.ofEvent e x amount createdAt) hfind ha
        (hheld ▸ hadd)
      exact ⟨rfl, Except.error.inj (h.symm.trans hrefused)⟩

end Postings

/-! ### One attempt -/

/-- What an attempt at an event comes to and leaves on a ledger that answers every call. -/
inductive Tried (rate : Decimal) (e : Event) (m : InMemory) : Except Error Outcome → InMemory → Prop
  | duplicate (hstored : (m.find? e.id).isSome) : Tried rate e m (.ok .duplicate) (m.record e)
  | posted {x : Extra} {amount : Decimal} {createdAt : Instant} {read : Option Decimal} {m' : InMemory}
      (hnew : m.find? e.id = none) (hdetails : e.details = .ok x) (hamount : Credit.amount? rate e = some amount)
      (hcreate : ((m.record e).ensure e.user).create (Statement.ofEvent e x amount createdAt) amount = .ok m') :
      Tried rate e m (.ok (.posted (Statement.ofEvent e x amount createdAt) read)) m'
  | refused {error : Error} (hnew : m.find? e.id = none) (hrefusal : Refusal rate m e error) :
      Tried rate e m (.error error) ((m.record e).ensure e.user)

theorem Booked.tried {posted : Except Setback (Option Statement)} {result : Except Error Outcome}
    (h : Booked rate e m posted m') (hconcludes : Concludes bound e posted result) : Tried rate e m result m' := by
  cases h with
  | duplicate hfind =>
      obtain rfl : result = _ := hconcludes
      exact .duplicate (by rw [hfind]; rfl)
  | unread hnew hdetails =>
      obtain rfl : result = _ := hconcludes
      exact .refused hnew (.unread hdetails)
  | refused hnew hdetails hamount hcreate =>
      obtain rfl : result = _ := hconcludes
      obtain ⟨hroom, rfl⟩ := no_room_of_create hnew hcreate
      exact .refused hnew (.noRoom hdetails hamount hroom)
  | posted hnew hdetails hamount hcreate =>
      obtain ⟨read, rfl⟩ := hconcludes
      exact .posted hnew hdetails hamount hcreate

theorem attempt_tried (hdecode : Event.decode payload = .ok e) (rate : Decimal) (bound : Nat) {d : Desk InMemory}
    (hcalm : d.IsCalm) : (attempt rate bound payload).Meets (Desk.Around InMemory.serve)
      (calmly (Tried rate e d.ledger) (LacksAmount rate e)) d := by
  refine (attempt_booked hdecode rate bound hcalm).mono (fun _ _ h => h) ?_ fun _ h => h
  rintro result d' ⟨hcalm', posted, hconcludes, hbooked⟩
  exact ⟨hcalm', hbooked.tried hconcludes⟩

/-- An attempt at an event that is refused fails for that reason. -/
theorem Tried.of_refusal {result : Except Error Outcome} (h : Tried rate e m result m') (hnew : m.find? e.id = none)
    (hrefusal : Refusal rate m e error) : result = .error error ∧ m' = (m.record e).ensure e.user := by
  cases h with
  | duplicate hstored =>
      rw [hnew] at hstored
      cases hstored
  | posted _ hdetails hamount hcreate =>
      obtain ⟨balance, hadd, -⟩ := room_of_create hcreate
      exact (hrefusal.not_hasRoom hdetails ⟨_, balance, hamount, hadd⟩).elim
  | refused _ hrefusal' => exact ⟨congrArg Except.error (hrefusal'.unique hrefusal), rfl⟩

theorem attempt_of_refusal (hdecode : Event.decode payload = .ok e) (rate : Decimal) (bound : Nat) {d : Desk InMemory}
    (hcalm : d.IsCalm) (hnew : d.ledger.find? e.id = none) (hrefusal : Refusal rate d.ledger e error) :
    (attempt rate bound payload).Meets (Desk.Around InMemory.serve)
      (calmly (fun result m' => result = .error error ∧ m' = (d.ledger.record e).ensure e.user) False) d := by
  refine (attempt_tried hdecode rate bound hcalm).mono (fun _ _ h => h) ?_ ?_
  · exact fun _ _ ⟨hcalm', htried⟩ => ⟨hcalm', htried.of_refusal hnew hrefusal⟩
  · rintro - ⟨x, hdetails, hamount⟩
    cases hrefusal with
    | unread hunread => cases hunread.symm.trans hdetails
    | noRoom _ hamount' => cases hamount.symm.trans hamount'

/-! ### All attempts -/

/-- What the attempts at a payload come to and leave on a ledger that answers every call. -/
inductive Judged (rate : Decimal) (payload : Text.Bytes) (m : InMemory) :
    List (Except Error Outcome) → InMemory → Prop
  | duplicate {e : Event} (hdecode : Event.decode payload = .ok e) (hstored : (m.find? e.id).isSome) :
      Judged rate payload m [.ok .duplicate] (m.record e)
  | posted {e : Event} {x : Extra} {amount : Decimal} {createdAt : Instant} {read : Option Decimal} {m' : InMemory}
      (hdecode : Event.decode payload = .ok e) (hnew : m.find? e.id = none) (hdetails : e.details = .ok x)
      (hamount : Credit.amount? rate e = some amount)
      (hcreate : ((m.record e).ensure e.user).create (Statement.ofEvent e x amount createdAt) amount = .ok m') :
      Judged rate payload m [.ok (.posted (Statement.ofEvent e x amount createdAt) read)] m'
  | unreadable {error : Error} (hdecode : Event.decode payload = .error error) :
      Judged rate payload m (List.replicate Limits.attempts (.error error)) m
  | refused {e : Event} {error : Error} (hdecode : Event.decode payload = .ok e) (hnew : m.find? e.id = none)
      (hrefusal : Refusal rate m e error) :
      Judged rate payload m (List.replicate Limits.attempts (.error error))
        ((fun m : InMemory => (m.record e).ensure e.user)^[Limits.attempts] m)

theorem attemptResults_unreadable (hdecode : Event.decode payload = .error error) (rate : Decimal) (bound n : Nat)
    {d : Desk InMemory} (hcalm : d.IsCalm) :
    (attemptResults rate bound payload n).Meets (Desk.Around InMemory.serve)
      (calmly (fun results m' => results = List.replicate n (.error error) ∧ m' = d.ledger) False) d := by
  have hattempt : ∀ d : Desk InMemory, d.IsCalm → True →
      (attempt rate bound payload).Meets (Desk.Around InMemory.serve)
        (calmly (fun result m' => result = .error error ∧ m' = id d.ledger) False) d := by
    intro d hcalm _
    rw [attempt_of_error hdecode]
    exact ⟨hcalm, rfl, rfl⟩
  have hall : (attemptResults rate bound payload n).Meets (Desk.Around InMemory.serve)
      (calmly (fun results m' => results = List.replicate n (.error error) ∧ m' = id^[n] d.ledger) False) d :=
    attemptResults_fail (fun _ _ => trivial : ∀ m : InMemory, True → True) hattempt n hcalm trivial
  rwa [Function.iterate_id] at hall

theorem attemptResults_of_refusal (hdecode : Event.decode payload = .ok e) (rate : Decimal) (bound n : Nat)
    {d : Desk InMemory} (hcalm : d.IsCalm) (hnew : d.ledger.find? e.id = none)
    (hrefusal : Refusal rate d.ledger e error) :
    (attemptResults rate bound payload n).Meets (Desk.Around InMemory.serve)
      (calmly (fun results m' => results = List.replicate n (.error error) ∧
        m' = (fun m : InMemory => (m.record e).ensure e.user)^[n] d.ledger) False) d := by
  have hkept : ∀ m, m.find? e.id = none ∧ Refusal rate m e error →
      ((m.record e).ensure e.user).find? e.id = none ∧ Refusal rate ((m.record e).ensure e.user) e error :=
    fun m h => ⟨find?_after_trace h.1, h.2.trace⟩
  exact attemptResults_fail hkept (fun d hcalm h => attempt_of_refusal hdecode rate bound hcalm h.1 h.2) n hcalm
    ⟨hnew, hrefusal⟩

theorem attemptResults_judged (rate : Decimal) (bound : Nat) (payload : Text.Bytes) {d : Desk InMemory}
    (hcalm : d.IsCalm) :
    (attemptResults rate bound payload Limits.attempts).Meets (Desk.Around InMemory.serve)
      (calmly (Judged rate payload d.ledger) (Overflows rate payload)) d := by
  cases hdecode : Event.decode payload with
  | error error =>
      refine (attemptResults_unreadable hdecode rate bound _ hcalm).mono (fun _ _ h => h) ?_ fun _ h => h.elim
      rintro results d' ⟨hcalm', rfl, hledger⟩
      exact ⟨hcalm', hledger ▸ .unreadable hdecode⟩
  | ok e =>
      have hoverflows : LacksAmount rate e → Overflows rate payload :=
        fun ⟨x, hdetails, hamount⟩ => ⟨e, x, hdecode, hdetails, hamount⟩
      have hfirst : (attempt rate bound payload).Meets (Desk.Around InMemory.serve)
          (calmly (Tried rate e d.ledger) (Overflows rate payload)) d :=
        (attempt_tried hdecode rate bound hcalm).mono (fun _ _ h => h) (fun _ _ h => h) fun _ => hoverflows
      refine Meets.bind hfirst fun result d₁ ⟨hcalm₁, htried⟩ => ?_
      generalize hm : d.ledger = m at htried ⊢
      generalize hledger : d₁.ledger = m₁ at htried
      cases htried with
      | duplicate hstored => exact ⟨hcalm₁, hledger ▸ .duplicate hdecode hstored⟩
      | posted hnew hdetails hamount hcreate =>
          exact ⟨hcalm₁, hledger ▸ .posted hdecode hnew hdetails hamount hcreate⟩
      | @refused error hnew hrefusal =>
          -- the event is still new and still refused for the same reason, so the other attempts fail as well
          refine Meets.request trivial fun _ d₂ h₂ => ?_
          obtain rfl : d₂ = d₁ := h₂
          have hrest := attemptResults_of_refusal hdecode rate bound 2 hcalm₁ (hledger ▸ find?_after_trace hnew)
            (hledger ▸ hrefusal.trace)
          refine Meets.bind (hrest.mono (fun _ _ h => h) (fun _ _ h => h) fun _ h => h.elim) ?_
          rintro results d₃ ⟨hcalm₃, rfl, hlast⟩
          rw [hledger] at hlast
          exact ⟨hcalm₃, hlast ▸ .refused hdecode hnew hrefusal⟩

/-! ### Letters -/

section Letters

variable {σ : Type}

/-- The payload that is offered to the dead letters, whether or not they take it. -/
def Happening.letter? : Happening → Option Text.Bytes
  | offered (.letter payload) _ => some payload
  | _ => none

/-- What has been offered to the dead letters, the first letter first. -/
def Standing.letters (g : Standing σ) : List Text.Bytes := g.deeds.reverse.filterMap Happening.letter?

theorem letters_doing (g : Standing σ) (deed : Happening) :
    (g.doing deed).letters = g.letters ++ deed.letter?.toList := by
  simp only [Standing.letters, Standing.doing, List.reverse_cons, List.filterMap_append, List.filterMap_cons,
    List.filterMap_nil]
  cases deed.letter? <;> rfl

/-- The surroundings of a program as far as dead letters go. -/
def Lettering : Surroundings (List Text.Bytes)
  | .letter payload, letters, _, letters' => letters' = letters ++ [payload]
  | _, letters, _, letters' => letters' = letters

theorem Responds.letters {serve : Service σ} {number : Nat} {r : Request} {g g' : Standing σ} {a : r.Answer}
    (h : Responds serve number r g a g') : Lettering r g.letters a g'.letters := by
  cases r with
  | ledger call =>
      obtain ⟨t, -, rfl⟩ := h
      exact (letters_doing g (.called call)).trans (List.append_nil _)
  | alert alert =>
      obtain rfl : g' = _ := h
      exact (letters_doing g _).trans (List.append_nil _)
  | letter payload =>
      obtain rfl : g' = _ := h
      exact letters_doing g _
  | acknowledge =>
      obtain rfl : g' = _ := h
      exact (letters_doing g (.acknowledged number)).trans (List.append_nil _)
  | time =>
      obtain rfl : g' = _ := h
      rfl
  | bound ms =>
      obtain rfl : g' = _ := h
      rfl
  | count metric =>
      obtain rfl : g' = _ := h
      rfl

/-- A settlement offers its payload to the dead letters once, after its attempts, unless one of them has succeeded. -/
theorem settlement_letters (rate : Decimal) (bound : Nat) (payload : Text.Bytes) (letters : List Text.Bytes) :
    (settlement rate bound payload).Meets Lettering
      ⟨fun _ _ => True,
        fun x letters' => letters' = letters ++ if x.disposition = .acknowledged then [] else [payload],
        fun _ => True⟩ letters := by
  have hkept : ∀ r (before : List Text.Bytes) (a : r.Answer) after, AttemptAsks rate payload r → before = letters →
      Lettering r before a after → after = letters := by
    intro r before a after hasks hbefore hlettering
    cases r with
    | letter payload => exact hasks.elim
    | _ => exact Eq.trans hlettering hbefore
  refine Meets.bind (((attemptResults_meets rate bound payload Limits.attempts).frame hkept rfl).mono
    (fun _ _ _ => trivial) (fun _ _ h => h.2) fun _ _ => trivial) fun results letters₁ h₁ => ?_
  subst h₁
  unfold conclude
  split
  · apply Meets.request trivial
    rintro _ _ rfl
    exact (List.append_nil _).symm
  · apply Meets.request trivial
    rintro (rejection | accepted) _ rfl
    · apply Meets.request trivial
      rintro _ _ rfl
      rfl
    · apply Meets.request trivial
      rintro _ _ rfl
      apply Meets.request trivial
      rintro _ _ rfl
      rfl

end Letters

/-! ### Messages -/

/-- Whether a ledger in memory bills a payload: the event has its statement, or it has details and room. -/
def IsBilled (rate : Decimal) (m : InMemory) (payload : Text.Bytes) : Prop :=
  ∃ e, Event.decode payload = .ok e ∧
    ((m.find? e.id).isSome ∨ (∃ details, e.details = .ok details) ∧ HasRoom rate m e)

/-- Whether a settlement has ended with an acknowledgement and without a dead letter. -/
structure Accepts {σ : Type} (m : Message) (x : Settlement) (g g' : Standing σ) : Prop where
  disposition : x.disposition = .acknowledged
  acknowledged : g'.tally.acknowledged = g.tally.acknowledged ++ [m.number]
  letters : g'.letters = g.letters

/-- Whether a settlement has offered its payload to the dead letters. -/
structure PutsAside {σ : Type} (m : Message) (x : Settlement) (g g' : Standing σ) : Prop where
  disposition : x.disposition ≠ .acknowledged
  letters : g'.letters = g.letters ++ [m.payload]

namespace Run

variable {attemptTimeout handoff : Nat} {horizon : Option Nat} {x : Settlement} {msg : Message} {w w' : World InMemory}

/-- A message is accepted if one of its attempts succeeds, and put aside otherwise. -/
theorem settlement_concludes {s : Setup InMemory}
    (hexec : exec (program s msg (settlement s.rate s.attemptTimeout msg.payload)) w = (.ok x, w'))
    (hdisposition : x.disposition = .acknowledged ↔ succeeded x.results = true) :
    if succeeded x.results then Accepts msg x w.standing w'.standing else PutsAside msg x w.standing w'.standing := by
  have hletters : w'.standing.letters = w.standing.letters ++
      if x.disposition = .acknowledged then [] else [msg.payload] :=
    (program_ends (Meets.of_view Standing.letters (fun _ _ _ _ h => h.letters)
      (settlement_letters s.rate s.attemptTimeout msg.payload w.standing.letters))).ok hexec
  obtain ⟨failures, t₁, hattempted, -, htally⟩ : Tallied msg x.disposition w.standing.tally w'.standing.tally :=
    (settle_tallies msg).ok (exec_settle_eq_ok_iff.2 ⟨x, rfl, hexec⟩)
  cases hsucceeded : succeeded x.results with
  | true =>
      have hacknowledged := hdisposition.2 hsucceeded
      rw [hacknowledged] at hletters htally
      refine ⟨hacknowledged, ?_, hletters.trans (List.append_nil _)⟩
      rw [htally, ← hattempted.acknowledged]
      rfl
  | false =>
      have hother : x.disposition ≠ .acknowledged := fun h =>
        Bool.false_ne_true (hsucceeded.symm.trans (hdisposition.1 h))
      rw [if_neg hother] at hletters
      exact ⟨hother, hletters⟩

/-- The handling of a message on a calm desk comes to what the ledger makes of its payload. -/
theorem settlement_judged (hcalm : w.desk.IsCalm)
    (hexec : exec (program (.inMemory rate attemptTimeout handoff horizon) msg
      (settlement rate attemptTimeout msg.payload)) w = (.ok x, w')) :
    Judged rate msg.payload w.ledger x.results w'.ledger ∧
      if succeeded x.results then Accepts msg x w.standing w'.standing
      else PutsAside msg x w.standing w'.standing := by
  obtain ⟨hdisposition, -, hjudged⟩ := (program_desk (s := .inMemory rate attemptTimeout handoff horizon)
    (settlement_of_calm (attemptResults_judged rate attemptTimeout msg.payload hcalm))).ok hexec
  exact ⟨hjudged, settlement_concludes (s := .inMemory rate attemptTimeout handoff horizon) hexec hdisposition⟩

end Run

/-! ### What a ledger makes of a payload -/

variable {results : List (Except Error Outcome)}

theorem Judged.of_stored (h : Judged rate payload m results m') (hdecode : Event.decode payload = .ok e)
    (hstored : (m.find? e.id).isSome) : results = [.ok .duplicate] ∧ m' = m.record e := by
  have hold : m.find? e.id ≠ none := Option.isSome_iff_ne_none.1 hstored
  cases h with
  | duplicate hdecode' =>
      obtain rfl := Except.ok.inj (hdecode.symm.trans hdecode')
      exact ⟨rfl, rfl⟩
  | posted hdecode' hnew =>
      obtain rfl := Except.ok.inj (hdecode.symm.trans hdecode')
      exact (hold hnew).elim
  | unreadable hdecode' => cases hdecode.symm.trans hdecode'
  | refused hdecode' hnew =>
      obtain rfl := Except.ok.inj (hdecode.symm.trans hdecode')
      exact (hold hnew).elim

/-- A posting leaves the statement of the event, and the balance that was to be left on the account of its user. -/
theorem Judged.of_room {extra : Extra} {amount balance : Decimal} (h : Judged rate payload m results m')
    (hdecode : Event.decode payload = .ok e) (hnew : m.find? e.id = none) (hdetails : e.details = .ok extra)
    (hamount : Credit.amount? rate e = some amount) (hroom : (m.held e.user).add? amount = some balance) :
    (∃ createdAt read, results = [.ok (.posted (Statement.ofEvent e extra amount createdAt) read)] ∧
      m'.statements = m.statements ++ [Statement.ofEvent e extra amount createdAt]) ∧
    ∀ user, m'.account? user = if user = e.user then some ⟨e.user, balance⟩ else m.account? user := by
  cases h with
  | duplicate hdecode' hstored =>
      obtain rfl := Except.ok.inj (hdecode.symm.trans hdecode')
      rw [hnew] at hstored
      cases hstored
  | @posted e' extra' amount' createdAt read m' hdecode' _ hdetails' hamount' hcreate =>
      obtain rfl := Except.ok.inj (hdecode.symm.trans hdecode')
      obtain rfl := Except.ok.inj (hdetails.symm.trans hdetails')
      obtain rfl := Option.some.inj (hamount.symm.trans hamount')
      obtain ⟨_, hadd, hstatements, haccounts⟩ := room_of_create hcreate
      obtain rfl := Option.some.inj (hroom.symm.trans hadd)
      exact ⟨⟨createdAt, read, rfl, hstatements⟩, haccounts⟩
  | unreadable hdecode' => cases hdecode.symm.trans hdecode'
  | refused hdecode' _ hrefusal =>
      obtain rfl := Except.ok.inj (hdecode.symm.trans hdecode')
      exact (hrefusal.not_hasRoom hdetails ⟨amount, balance, hamount, hroom⟩).elim

/-- A payload that is not billed fails at all attempts alike. -/
theorem Judged.of_not_billed (h : Judged rate payload m results m') (hnot : ¬IsBilled rate m payload) :
    (∃ error, results = List.replicate Limits.attempts (.error error)) ∧ m'.statements = m.statements := by
  cases h with
  | @duplicate e hdecode hstored => exact (hnot ⟨e, hdecode, .inl hstored⟩).elim
  | @posted e extra amount createdAt read _ hdecode hnew hdetails hamount hcreate =>
      obtain ⟨balance, hroom, -⟩ := room_of_create hcreate
      exact (hnot ⟨e, hdecode, .inr ⟨⟨extra, hdetails⟩, amount, balance, hamount, hroom⟩⟩).elim
  | @unreadable error hdecode => exact ⟨⟨error, rfl⟩, rfl⟩
  | @refused e error hdecode hnew hrefusal =>
      refine ⟨⟨error, rfl⟩, ?_⟩
      calc ((fun m : InMemory => (m.record e).ensure e.user)^[Limits.attempts] m).statements
          = ((fun m : InMemory => (m.record e).ensure e.user)^[2] m).statements := statements_after_trace _ e
        _ = ((m.record e).ensure e.user).statements := statements_after_trace _ e
        _ = m.statements := statements_after_trace m e

/-- What is billed of a payload with an event. -/
theorem isBilled_iff (hdecode : Event.decode payload = .ok e) : IsBilled rate m payload ↔
    (m.find? e.id).isSome ∨ (∃ details, e.details = .ok details) ∧ HasRoom rate m e := by
  constructor
  · rintro ⟨e', hdecode', h⟩
    obtain rfl := Except.ok.inj (hdecode.symm.trans hdecode')
    exact h
  · exact fun h => ⟨e, hdecode, h⟩

section Rewriting

variable {payload' : Text.Bytes}

/-- With another number for its scene a payload is billed as it was. -/
theorem isBilled_of_scene {n : Int64} (hdecode : Event.decode payload = .ok e)
    (hrewrites : Event.schema.Rewrites 4 (.ofInt64 n) payload payload') :
    IsBilled rate m payload' ↔ IsBilled rate m payload :=
  (isBilled_iff (Event.decode_of_scene hrewrites hdecode)).trans (isBilled_iff hdecode).symm

/-- With another number for its kind an event that has details is billed unless it is new and lacks room. -/
theorem isBilled_of_kind {n : Int64} {details : Extra} (hdecode : Event.decode payload = .ok e)
    (hdetails : e.details = .ok details) (hrewrites : Event.schema.Rewrites 3 (.ofInt64 n) payload payload') :
    IsBilled rate m payload' ↔ (m.find? e.id).isSome ∨ HasRoom rate m { e with kind := .ofOrdinal n } :=
  (isBilled_iff (Event.decode_of_kind hrewrites hdecode)).trans
    (or_congr Iff.rfl (and_iff_right ⟨details, hdetails⟩))

/-- With another text for its duration a payload is billed as it was. -/
theorem isBilled_of_duration {duration extra : String} {row : Json.Row Extra.schema.fields}
    (hdecode : Event.decode payload = .ok e) (hread : Extra.schema.decode (Text.encode e.extra.toList) = .ok row)
    (hextra : Extra.schema.Rewrites 3 (.text (.ok duration)) (Text.encode e.extra.toList) (Text.encode extra.toList))
    (hrewrites : Event.schema.Rewrites 7 (.text (.ok extra)) payload payload') :
    IsBilled rate m payload' ↔ IsBilled rate m payload := by
  have hreadable : (∃ details, ({ e with extra := extra } : Event).details = .ok details) ↔
      ∃ details, e.details = .ok details :=
    iff_of_true (Event.details_of_duration hextra hread) (Event.exists_details hread)
  exact (isBilled_iff (Event.decode_of_extra hrewrites hdecode)).trans
    ((or_congr Iff.rfl (and_congr hreadable Iff.rfl)).trans (isBilled_iff hdecode).symm)

end Rewriting

/-- Which messages are billed and which are put aside, on a ledger in memory that answers every call. The handling of
a message comes to its end unless its amount is beyond all decimals. An event that has its statement is taken for a
duplicate at the first attempt, whatever its details; one that has details and a balance with room for its amount is
posted at the first attempt; both are acknowledged. Every other payload fails at each of three attempts for one
reason, leaves no statement, and is offered to the dead letters as it came. Neither the numbers of scene and kind nor
the text of a duration are a reason. With another scene or another duration a payload is billed as it was, and with
another kind an event that has details is put aside only if it is new and there is no room for its amount. -/
theorem billed_or_put_aside (rate : Decimal) (attemptTimeout handoff : Nat) (horizon : Option Nat) (msg : Message)
    (w : World InMemory) (hcalm : w.desk.IsCalm) :
    let s := Setup.inMemory rate attemptTimeout handoff horizon
    let p := settlement rate attemptTimeout msg.payload
    (¬IsStuck InMemory.books rate msg.payload w.ledger → horizon = none → msg.acknowledging.delay ≠ none →
      ∃ x w', Run.exec (Run.program s msg p) w = (.ok x, w') ∧
        Run.exec (Run.settle s msg) w = (.ok x.disposition, w')) ∧
    (∀ x w', Run.exec (Run.program s msg p) w = (.ok x, w') →
      (∀ e, Event.decode msg.payload = .ok e → (w.ledger.find? e.id).isSome →
        x.results = [.ok .duplicate] ∧ w'.ledger = w.ledger.record e ∧ Accepts msg x w.standing w'.standing) ∧
      (∀ e details amount balance, Event.decode msg.payload = .ok e → w.ledger.find? e.id = none →
        e.details = .ok details → Credit.amount? rate e = some amount →
        (w.ledger.held e.user).add? amount = some balance →
        ((∃ createdAt read, x.results = [.ok (.posted (Statement.ofEvent e details amount createdAt) read)] ∧
            w'.ledger.statements = w.ledger.statements ++ [Statement.ofEvent e details amount createdAt]) ∧
          ∀ user, w'.ledger.account? user =
            if user = e.user then some ⟨e.user, balance⟩ else w.ledger.account? user) ∧
        Accepts msg x w.standing w'.standing) ∧
      (¬IsBilled rate w.ledger msg.payload →
        ((∃ error, x.results = List.replicate 3 (.error error)) ∧ w'.ledger.statements = w.ledger.statements) ∧
        PutsAside msg x w.standing w'.standing)) ∧
    ∀ payload e, Event.decode payload = .ok e →
      (∀ n, Event.schema.Rewrites 4 (.ofInt64 n) payload msg.payload →
        Event.decode msg.payload = .ok { e with scene := .ofOrdinal n } ∧
        (IsBilled rate w.ledger msg.payload ↔ IsBilled rate w.ledger payload)) ∧
      (∀ n details, Event.schema.Rewrites 3 (.ofInt64 n) payload msg.payload → e.details = .ok details →
        Event.decode msg.payload = .ok { e with kind := .ofOrdinal n } ∧
        (IsBilled rate w.ledger msg.payload ↔
          (w.ledger.find? e.id).isSome ∨ HasRoom rate w.ledger { e with kind := .ofOrdinal n })) ∧
      ∀ duration extra row, Extra.schema.decode (Text.encode e.extra.toList) = .ok row →
        Extra.schema.Rewrites 3 (.text (.ok duration)) (Text.encode e.extra.toList) (Text.encode extra.toList) →
        Event.schema.Rewrites 7 (.text (.ok extra)) payload msg.payload →
        Event.decode msg.payload = .ok { e with extra := extra } ∧
        (IsBilled rate w.ledger msg.payload ↔ IsBilled rate w.ledger payload) := by
  intro s p
  refine ⟨fun hfree hhorizon hacknowledging => ?_, fun x w' hexec => ?_, fun payload e hdecode => ?_⟩
  · obtain ⟨d, w', hsettled⟩ := returns_of_ends (s := s) (settle_stuck InMemory.books msg trivial) hhorizon
      hacknowledging hfree
    obtain ⟨x, rfl, hexec⟩ := Run.exec_settle_eq_ok_iff.1 hsettled
    exact ⟨x, w', hexec, hsettled⟩
  · obtain ⟨hjudged, hconcluded⟩ := Run.settlement_judged hcalm hexec
    refine ⟨fun e hdecode hstored => ?_, fun e details amount balance hdecode hnew hdetails hamount hroom => ?_,
      fun hnot => ?_⟩
    · obtain ⟨hresults, hledger⟩ := hjudged.of_stored hdecode hstored
      rw [hresults] at hconcluded
      exact ⟨hresults, hledger, hconcluded⟩
    · have hposted := hjudged.of_room hdecode hnew hdetails hamount hroom
      obtain ⟨createdAt, read, hresults, -⟩ := hposted.1
      rw [hresults] at hconcluded
      exact ⟨hposted, hconcluded⟩
    · have hfailed := hjudged.of_not_billed hnot
      obtain ⟨error, hresults⟩ := hfailed.1
      rw [hresults] at hconcluded
      exact ⟨hfailed, hconcluded⟩
  · exact ⟨fun n hrewrites => ⟨Event.decode_of_scene hrewrites hdecode, isBilled_of_scene hdecode hrewrites⟩,
      fun n details hrewrites hdetails =>
        ⟨Event.decode_of_kind hrewrites hdecode, isBilled_of_kind hdecode hdetails hrewrites⟩,
      fun duration extra row hread hextra hrewrites =>
        ⟨Event.decode_of_extra hrewrites hdecode, isBilled_of_duration hdecode hread hextra hrewrites⟩⟩

/-- The message of a job in a scene that is written so. -/
def jobMessage (scene : String) : Message where
  number := 1
  payload := Text.encode
    ("\x7b\"uuid\":\"00000000-0000-0000-0000-000000000009\",\"user_id\":\"v\",\"value\":2,\"scene\":".toList ++
      scene.toList ++
      ",\"created_at\":\"2020-01-01T00:00:00Z\",\"extra\":\"\x7b\\\"customer_duration\\\":\\\"soon\\\"\x7d\"\x7d".toList)
  acknowledging := Fault.none

theorem knownJob_is_billed : ∃ e, Event.decode (jobMessage "10").payload = .ok e ∧
    (∃ details, e.details = .ok details) ∧ HasRoom Credit.defaultRate quietWorld.ledger e := by
  have hknown : ((Event.decode (jobMessage "10").payload).toOption.any fun e => e.details.toOption.isSome &&
      (Credit.amount? Credit.defaultRate e).any fun amount =>
        ((quietWorld.ledger.held e.user).add? amount).isSome) = true := by
    decide +kernel
  cases hdecode : Event.decode (jobMessage "10").payload with
  | error error =>
      rw [hdecode] at hknown
      cases hknown
  | ok e =>
      rw [hdecode] at hknown
      obtain ⟨hdetails, hany⟩ := (Bool.and_eq_true _ _).mp hknown
      obtain ⟨amount, hamount, hadd⟩ := (Option.any_eq_true _ _).1 hany
      obtain ⟨balance, hbalance⟩ := Option.isSome_iff_exists.1 hadd
      refine ⟨e, rfl, ?_, amount, balance, hamount, hbalance⟩
      cases hresult : e.details with
      | ok details => exact ⟨details, rfl⟩
      | error error =>
          rw [hresult] at hdetails
          cases hdetails

/-- A job in a scene that nobody knows is billed like one in a known scene, and a message whose details cannot be read
is put aside. -/
theorem jobMessage_is_billed_in_any_scene :
    let s := Setup.inMemory Credit.defaultRate 5000 1000 none
    (∃ x w', Run.exec (Run.program s (jobMessage "4711")
        (settlement s.rate s.attemptTimeout (jobMessage "4711").payload)) quietWorld = (.ok x, w') ∧
      x.results.length = 1 ∧ w'.ledger.statements.length = 1 ∧
      Accepts (jobMessage "4711") x quietWorld.standing w'.standing) ∧
    ∃ x w', Run.exec (Run.program s unclearMessage
        (settlement s.rate s.attemptTimeout unclearMessage.payload)) quietWorld = (.ok x, w') ∧
      x.results.length = 3 ∧ PutsAside unclearMessage x quietWorld.standing w'.standing := by
  have hcalm : quietWorld.desk.IsCalm := fun _ => rfl
  constructor
  · obtain ⟨hends, hhandled, hrewritten⟩ :=
      billed_or_put_aside Credit.defaultRate 5000 1000 none (jobMessage "4711") quietWorld hcalm
    obtain ⟨e, hdecode, hroom⟩ := knownJob_is_billed
    have hrewrites : Event.schema.Rewrites 4 (.ofInt64 4711) (jobMessage "10").payload (jobMessage "4711").payload :=
      ⟨(Json.tokens (jobMessage "10").payload).take 15, (Json.tokens (jobMessage "10").payload).drop 16, .ofInt64 10,
        by decide +kernel, by decide +kernel, by decide +kernel⟩
    obtain ⟨e', hdecode', hstored | ⟨⟨details, hdetails⟩, amount, balance, hamount, hadd⟩⟩ :=
      (((hrewritten _ e hdecode).1 4711 hrewrites).2).2 ⟨e, hdecode, .inr hroom⟩
    · cases hstored
    have hfree : ¬IsStuck InMemory.books Credit.defaultRate (jobMessage "4711").payload quietWorld.ledger := by
      rintro ⟨e'', x, hdecode'', -, hnone, -⟩
      obtain rfl := Except.ok.inj (hdecode'.symm.trans hdecode'')
      cases hnone.symm.trans hamount
    obtain ⟨x, w', hexec, -⟩ := hends hfree rfl (by decide)
    obtain ⟨⟨⟨createdAt, read, hresults, hstatements⟩, -⟩, haccepts⟩ :=
      (hhandled x w' hexec).2.1 e' details amount balance hdecode' rfl hdetails hamount hadd
    exact ⟨x, w', hexec, by rw [hresults]; rfl, by rw [hstatements]; rfl, haccepts⟩
  · obtain ⟨e, error, hdecode, hdetails⟩ := unclearMessage_decodes
    obtain ⟨hends, hhandled, -⟩ :=
      billed_or_put_aside Credit.defaultRate 5000 1000 none unclearMessage quietWorld hcalm
    have hfree : ¬IsStuck InMemory.books Credit.defaultRate unclearMessage.payload quietWorld.ledger := by
      rintro ⟨e', x, hdecode', hdetails', -⟩
      obtain rfl := Except.ok.inj (hdecode.symm.trans hdecode')
      cases hdetails.symm.trans hdetails'
    have hnot : ¬IsBilled Credit.defaultRate quietWorld.ledger unclearMessage.payload := by
      rintro ⟨e', hdecode', hstored | ⟨⟨details, hdetails'⟩, -⟩⟩
      · cases hstored
      · obtain rfl := Except.ok.inj (hdecode.symm.trans hdecode')
        cases hdetails.symm.trans hdetails'
    obtain ⟨x, w', hexec, -⟩ := hends hfree rfl (by decide)
    obtain ⟨⟨⟨error, hresults⟩, -⟩, haside⟩ := (hhandled x w' hexec).2.2 hnot
    exact ⟨x, w', hexec, by rw [hresults]; rfl, haside⟩

end Delivery

end UsageLedger
