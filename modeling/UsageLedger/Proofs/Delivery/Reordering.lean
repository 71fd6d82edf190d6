import Mathlib.Algebra.Order.BigOperators.Group.Finset
import UsageLedger.Proofs.Delivery.Overflow
import UsageLedger.Proofs.Delivery.Postings
import UsageLedger.Proofs.Ledger.Dating

/-! The order of deliveries and how often something is delivered do not matter. What becomes of a ledger that
answers every call is told by the set of events that were delivered: every new event that can be billed has
its statement, every user of a new event has an account, and each user's holding has moved by the charges of
the new events. -/

namespace UsageLedger.Delivery

open Ledger Program

variable {rate : Decimal} {e : Event} {m m₁ m₂ : InMemory} {events all : Finset Event}

/-! ### Events -/

/-- The statement of an event, a date apart, if it has details and an amount. -/
def bill? (rate : Decimal) (e : Event) : Option Statement :=
  match e.details, Credit.amount? rate e with
  | .ok x, some amount => some (Statement.ofEvent e x amount Instant.epoch)
  | _, _ => none

/-- What an event moves the holding of its user by. -/
def charge (rate : Decimal) (e : Event) : ℚ := (bill? rate e).elim 0 fun t => t.amount.value

theorem charge_eq {x : Extra} {amount : Decimal} (hdetails : e.details = .ok x)
    (hamount : Credit.amount? rate e = some amount) : charge rate e = amount.value := by
  rw [charge, bill?, hdetails, hamount]
  rfl

/-- The events that have no statement yet. -/
def fresh (m : InMemory) (events : Finset Event) : Finset Event := events.filter fun e => m.find? e.id = none

/-- The events that some payloads carry. -/
def eventsOf (payloads : List Text.Bytes) : Finset Event :=
  (payloads.filterMap fun payload => (Event.decode payload).toOption).toFinset

theorem fresh_insert_of_find? {t : Statement} (h : m.find? e.id = some t) :
    fresh m (insert e events) = fresh m events := by
  rw [fresh, Finset.filter_insert, if_neg (by simp [h]), fresh]

theorem fresh_insert_of_new (h : m.find? e.id = none) : fresh m (insert e events) = insert e (fresh m events) := by
  rw [fresh, Finset.filter_insert, if_pos h, fresh]

/-- Whether a ledger is what an opening one has become once some events were delivered, in whatever order and
however often. -/
structure Reflects (rate : Decimal) (m : InMemory) (events : Finset Event) (m₁ : InMemory) : Prop where
  statements : ∀ id t, (m₁.find? id).map Statement.undated = some t ↔
    (m.find? id).map Statement.undated = some t ∨ ∃ e ∈ fresh m events, e.id = id ∧ bill? rate e = some t
  accounts : ∀ user, (m₁.account? user).isSome ↔
    (m.account? user).isSome ∨ ∃ e ∈ fresh m events, e.user = user
  holding : ∀ user, m₁.holding user = m.holding user + ∑ e ∈ fresh m events with e.user = user, charge rate e
  places : m₁.HasPlaces amountPlaces

/-- Whether no holding can become too large for a decimal with six places, whichever of the events are billed
first. -/
def StaysSmall (rate : Decimal) (m : InMemory) (events : Finset Event) : Prop :=
  ∀ user, |m.holding user| + ∑ e ∈ events with e.user = user, |charge rate e| < 2 ^ 96 / 10 ^ amountPlaces

namespace Reflects

theorem refl (hplaces : m.HasPlaces amountPlaces) : Reflects rate m ∅ m where
  statements := by simp [fresh]
  accounts := by simp [fresh]
  holding := by simp [fresh]
  places := hplaces

/-- A ledger that reflects the same events in the same way. -/
theorem of_fresh {events' : Finset Event} (h : Reflects rate m events m₁) (hfresh : fresh m events' = fresh m events) :
    Reflects rate m events' m₁ where
  statements := by rw [hfresh]; exact h.statements
  accounts := by rw [hfresh]; exact h.accounts
  holding := by rw [hfresh]; exact h.holding
  places := h.places

/-- An event that the opening ledger has, or that was billed since, changes nothing more. -/
theorem duplicate {t : Statement} (h : Reflects rate m events m₁) (hids : ∀ e' ∈ events, e'.id = e.id → e' = e)
    (hfind : m₁.find? e.id = some t) : Reflects rate m (insert e events) (m₁.record e) := by
  have hsame : fresh m (insert e events) = fresh m events := by
    rcases (h.statements e.id t.undated).1 (by rw [hfind]; rfl) with hold | ⟨e', he', hid, -⟩
    · obtain ⟨t', ht', -⟩ := Option.map_eq_some_iff.1 hold
      exact fresh_insert_of_find? ht'
    · obtain ⟨hmem, hnew⟩ := Finset.mem_filter.1 he'
      rw [hids e' hmem hid] at hmem
      rw [Finset.insert_eq_of_mem hmem]
  exact (⟨h.statements, h.accounts, h.holding, h.places⟩ : Reflects rate m events (m₁.record e)).of_fresh hsame

/-- An event without a statement yet was new in the opening ledger too. -/
theorem find?_eq_none (h : Reflects rate m events m₁) (hnew : m₁.find? e.id = none) : m.find? e.id = none := by
  cases hold : m.find? e.id with
  | none => rfl
  | some t =>
      have hkept := (h.statements e.id t.undated).2 (.inl (by rw [hold]; rfl))
      rw [hnew] at hkept
      cases hkept

theorem bill?_eq_none (h : Reflects rate m events m₁) (hnew : m₁.find? e.id = none) (hmem : e ∈ events) :
    bill? rate e = none := by
  cases hbill : bill? rate e with
  | none => rfl
  | some t =>
      have hfound := (h.statements e.id t).2
        (.inr ⟨e, Finset.mem_filter.2 ⟨hmem, h.find?_eq_none hnew⟩, rfl, hbill⟩)
      rw [hnew] at hfound
      cases hfound

/-- What an event adds to the holding of a user. -/
theorem sum_insert (hnew : m.find? e.id = none) (hcharge : e ∈ events → charge rate e = 0) (user : String) :
    ∑ e' ∈ fresh m (insert e events) with e'.user = user, charge rate e' =
      (∑ e' ∈ fresh m events with e'.user = user, charge rate e') + if e.user = user then charge rate e else 0 := by
  rw [fresh_insert_of_new hnew, Finset.filter_insert]
  split
  · rename_i huser
    by_cases hmem : e ∈ events
    · rw [Finset.insert_eq_of_mem (by simp [fresh, hmem, hnew, huser]), hcharge hmem, add_zero]
    · rw [Finset.sum_insert (by simp [fresh, hmem]), add_comm]
  · rw [add_zero]

/-- A ledger that has grown by what there is to an event that had no statement. -/
theorem grow (h : Reflects rate m events m₁) (hnew : m₁.find? e.id = none)
    (hstatements : ∀ id t, (m₂.find? id).map Statement.undated = some t ↔
      (m₁.find? id).map Statement.undated = some t ∨ e.id = id ∧ bill? rate e = some t)
    (haccounts : ∀ user, (m₂.account? user).isSome ↔ (m₁.account? user).isSome ∨ e.user = user)
    (hholding : ∀ user, m₂.holding user = m₁.holding user + if e.user = user then charge rate e else 0)
    (hplaces : m₂.HasPlaces amountPlaces) : Reflects rate m (insert e events) m₂ where
  statements id t := by
    rw [hstatements, h.statements, fresh_insert_of_new (h.find?_eq_none hnew), or_assoc]
    simp only [Finset.mem_insert, exists_eq_or_imp]
    rw [or_comm (a := e.id = id ∧ _)]
  accounts user := by
    rw [haccounts, h.accounts, fresh_insert_of_new (h.find?_eq_none hnew), or_assoc]
    simp only [Finset.mem_insert, exists_eq_or_imp]
    rw [or_comm (a := e.user = user)]
  holding user := by
    have hcharge : e ∈ events → charge rate e = 0 := fun hmem => by rw [charge, h.bill?_eq_none hnew hmem]; rfl
    rw [hholding, h.holding, sum_insert (h.find?_eq_none hnew) hcharge, add_assoc]
  places := hplaces

/-- What a user's holding can come to stays small. -/
theorem small (h : Reflects rate m events m₁) (hsmall : StaysSmall rate m all) (hall : insert e events ⊆ all)
    (hnew : m₁.find? e.id = none) :
    |m₁.holding e.user + charge rate e| * 10 ^ amountPlaces < 2 ^ 96 := by
  have hcharge : e ∈ events → charge rate e = 0 := fun hmem => by rw [charge, h.bill?_eq_none hnew hmem]; rfl
  have hsum : m₁.holding e.user + charge rate e =
      m.holding e.user + ∑ e' ∈ fresh m (insert e events) with e'.user = e.user, charge rate e' := by
    rw [sum_insert (h.find?_eq_none hnew) hcharge, h.holding, if_pos rfl, add_assoc]
  have hsubset : (fresh m (insert e events)).filter (·.user = e.user) ⊆ all.filter (·.user = e.user) :=
    Finset.filter_subset_filter _ ((Finset.filter_subset _ _).trans hall)
  rw [← lt_div_iff₀ (by positivity), hsum]
  calc |m.holding e.user + ∑ e' ∈ fresh m (insert e events) with e'.user = e.user, charge rate e'|
      ≤ |m.holding e.user| + |∑ e' ∈ fresh m (insert e events) with e'.user = e.user, charge rate e'| :=
        abs_add_le _ _
    _ ≤ |m.holding e.user| + ∑ e' ∈ fresh m (insert e events) with e'.user = e.user, |charge rate e'| :=
        add_le_add_right (Finset.abs_sum_le_sum_abs _ _) _
    _ ≤ |m.holding e.user| + ∑ e' ∈ all with e'.user = e.user, |charge rate e'| :=
        add_le_add_right (Finset.sum_le_sum_of_subset_of_nonneg hsubset fun _ _ _ => abs_nonneg _) _
    _ < 2 ^ 96 / 10 ^ amountPlaces := hsmall e.user

/-- The account of an event's user is opened. -/
theorem hasPlaces_ensure (h : Reflects rate m events m₁) : ((m₁.record e).ensure e.user).HasPlaces amountPlaces := by
  have hplaces : (m₁.record e).HasPlaces amountPlaces := h.places
  exact @serve_hasPlaces _ (.ensure e.user) _ hplaces fun _ _ hcall => by cases hcall

theorem unread (h : Reflects rate m events m₁) (hnew : m₁.find? e.id = none) (hbill : bill? rate e = none) :
    Reflects rate m (insert e events) ((m₁.record e).ensure e.user) := by
  have hcharge : charge rate e = 0 := by rw [charge, hbill]; rfl
  refine h.grow hnew (fun id t => ?_) (fun user => ?_) (fun user => ?_) h.hasPlaces_ensure
  · rw [InMemory.find?_ensure, hbill]
    simp [InMemory.find?, InMemory.record]
  · rw [InMemory.account?_ensure]
    split
    · rename_i huser
      simp [huser]
    · rename_i hother
      simp [InMemory.account?, InMemory.record, Ne.symm hother]
  · rw [holding_ensure, hcharge, ite_self, add_zero]
    rfl

/-- The amount of a new event is added exactly to what its user holds. -/
theorem added (h : Reflects rate m events m₁) {x : Extra} {amount : Decimal} {a : Account}
    (hsmall : StaysSmall rate m all) (hall : insert e events ⊆ all) (hnew : m₁.find? e.id = none)
    (hdetails : e.details = .ok x) (hamount : Credit.amount? rate e = some amount)
    (ha : ((m₁.record e).ensure e.user).account? e.user = some a) :
    ∃ b, a.balance.add? amount = some b ∧ b.value = m₁.holding e.user + amount.value := by
  have hheld : ((m₁.record e).ensure e.user).holding e.user = m₁.holding e.user := holding_ensure _ _
  have hbalance : a.balance.value = m₁.holding e.user := by
    rw [← hheld, InMemory.holding, ha]
    rfl
  have hfits := h.small hsmall hall hnew
  rw [charge_eq hdetails hamount] at hfits
  rw [← hbalance] at hfits ⊢
  exact Decimal.add?_of_small (h.hasPlaces_ensure e.user a ha) (Credit.scale_le_of_amount? hamount) hfits

/-- A posting of a new event is not refused. -/
theorem accepted (h : Reflects rate m events m₁) {x : Extra} {amount : Decimal} (createdAt : Instant)
    (hsmall : StaysSmall rate m all) (hall : insert e events ⊆ all) (hnew : m₁.find? e.id = none)
    (hdetails : e.details = .ok x) (hamount : Credit.amount? rate e = some amount) :
    ∃ m₂, ((m₁.record e).ensure e.user).create (Statement.ofEvent e x amount createdAt) amount = .ok m₂ := by
  have hfind : ((m₁.record e).ensure e.user).find? e.id = none := by
    rw [InMemory.find?_ensure]
    exact hnew
  obtain ⟨a, ha⟩ : ∃ a, ((m₁.record e).ensure e.user).account? e.user = some a := by
    rw [InMemory.account?_ensure, if_pos rfl]
    exact ⟨_, rfl⟩
  obtain ⟨b, hb, -⟩ := h.added hsmall hall hnew hdetails hamount ha
  exact InMemory.create_of_add? (s := Statement.ofEvent e x amount createdAt) hfind ha hb

theorem posted (h : Reflects rate m events m₁) {x : Extra} {amount : Decimal} {createdAt : Instant}
    (hsmall : StaysSmall rate m all) (hall : insert e events ⊆ all) (hnew : m₁.find? e.id = none)
    (hdetails : e.details = .ok x) (hamount : Credit.amount? rate e = some amount)
    (hcreate : ((m₁.record e).ensure e.user).create (Statement.ofEvent e x amount createdAt) amount = .ok m₂) :
    Reflects rate m (insert e events) m₂ := by
  have hbill : bill? rate e = some (Statement.ofEvent e x amount Instant.epoch) := by
    rw [bill?, hdetails, hamount]
  obtain ⟨-, a, b, ha, hb, -, haccounts⟩ := InMemory.create_eq_ok hcreate
  obtain ⟨b', hb', hvalue⟩ := h.added hsmall hall hnew hdetails hamount ha
  obtain rfl : b = b' := Option.some.inj (hb.symm.trans hb')
  refine h.grow hnew (fun id t => ?_) (fun user => ?_) (fun user => ?_) ?_
  · rw [InMemory.find?_create hcreate, InMemory.find?_ensure, hbill]
    change (if e.id = id then _ else m₁.find? id).map _ = _ ↔ _
    split
    · rename_i hid
      rw [← hid, hnew]
      simp [Statement.undated, Statement.ofEvent]
    · rename_i hid
      simp [hid]
  · rw [haccounts]
    change Option.isSome (if user = e.user then _ else _) = true ↔ _
    split
    · rename_i huser
      simp [huser]
    · rename_i hother
      rw [InMemory.account?_ensure, if_neg hother]
      simp [InMemory.account?, InMemory.record, Ne.symm hother]
  · rw [InMemory.holding, haccounts]
    change (if user = e.user then some (Account.mk e.user b) else _).elim 0 _ = _
    split
    · rename_i huser
      subst huser
      rw [if_pos rfl, charge_eq hdetails hamount, Option.elim_some, hvalue]
    · rename_i hother
      rw [if_neg (Ne.symm hother), add_zero]
      exact holding_ensure _ _
  · have hplaces := @serve_hasPlaces _ (.create (Statement.ofEvent e x amount createdAt) amount) _
      (h.hasPlaces_ensure (e := e)) fun s delta hcall => by
        obtain ⟨-, rfl⟩ := Call.create.inj hcall
        exact Credit.scale_le_of_amount? hamount
    rwa [serve_create_eq hcreate] at hplaces

/-- Whatever the posting of an event comes to, the ledger reflects that event too. -/
theorem booked (h : Reflects rate m events m₁) (hids : ∀ e' ∈ events, e'.id = e.id → e' = e)
    (hsmall : StaysSmall rate m all) (hall : insert e events ⊆ all) {result : Except Setback (Option Statement)}
    (hbooked : Booked rate e m₁ result m₂) : Reflects rate m (insert e events) m₂ := by
  cases hbooked with
  | duplicate hfind => exact h.duplicate hids hfind
  | unread hnew hdetails => exact h.unread hnew (by rw [bill?, hdetails])
  | refused hnew hdetails hamount hcreate =>
      obtain ⟨m₂, haccepted⟩ := h.accepted _ hsmall hall hnew hdetails hamount
      rw [hcreate] at haccepted
      cases haccepted
  | posted hnew hdetails hamount hcreate => exact h.posted hsmall hall hnew hdetails hamount hcreate

end Reflects

/-! ### Attempts -/

/-- What an attempt at a payload does to a ledger that answers every call. -/
inductive Processed (rate : Decimal) (payload : Text.Bytes) (m : InMemory) : InMemory → Prop
  | unreadable {error : Error} (hdecode : Event.decode payload = .error error) : Processed rate payload m m
  | carried {e : Event} {result : Except Setback (Option Statement)} {m' : InMemory}
      (hdecode : Event.decode payload = .ok e) (hbooked : Booked rate e m result m') : Processed rate payload m m'

theorem attempt_processed (rate : Decimal) (bound : Nat) (payload : Text.Bytes) {d : Desk InMemory} (hcalm : d.IsCalm) :
    (attempt rate bound payload).Meets (Desk.Around InMemory.serve)
      (calmly (fun _ m' => Processed rate payload d.ledger m') (Overflows rate payload)) d := by
  cases hdecode : Event.decode payload with
  | error error =>
      rw [attempt_of_error hdecode]
      exact ⟨hcalm, .unreadable hdecode⟩
  | ok e =>
      refine (attempt_booked hdecode rate bound hcalm).mono (fun _ _ h => h) ?_ ?_
      · rintro result d' ⟨hcalm', posted, -, hbooked⟩
        exact ⟨hcalm', .carried hdecode hbooked⟩
      · rintro - ⟨x, hdetails, hamount⟩
        exact ⟨e, x, hdecode, hdetails, hamount⟩

theorem eventsOf_cons (payload : Text.Bytes) (payloads : List Text.Bytes) :
    eventsOf (payload :: payloads) = eventsOf [payload] ∪ eventsOf payloads := by
  cases hdecode : Event.decode payload <;> simp [eventsOf, hdecode, Except.toOption]

/-- An attempt at a payload leaves a ledger that reflects its event too, if it carries one. -/
theorem Processed.reflects {payload : Text.Bytes} (hprocessed : Processed rate payload m₁ m₂)
    (h : Reflects rate m events m₁) (hsmall : StaysSmall rate m all) (hall : events ∪ eventsOf [payload] ⊆ all)
    (hids : ∀ e ∈ all, ∀ e' ∈ all, e.id = e'.id → e = e') : Reflects rate m (events ∪ eventsOf [payload]) m₂ := by
  cases hprocessed with
  | unreadable hdecode => simpa [eventsOf, hdecode, Except.toOption] using h
  | @carried e result m' hdecode hbooked =>
      have heq : events ∪ eventsOf [payload] = insert e events := by
        simp [eventsOf, hdecode, Except.toOption, Finset.union_comm events]
      rw [heq] at hall ⊢
      exact h.booked (fun e' he' hid => hids e' (hall (Finset.mem_insert_of_mem he')) e
        (hall (Finset.mem_insert_self _ _)) hid) hsmall hall hbooked

namespace Run

/-- Attempts payloads one after another. -/
def attemptAll {σ : Type} (s : Setup σ) : List Text.Bytes → Run σ (List (Except Error Outcome))
  | [] => pure []
  | payload :: rest => do
    let result ← attempt s ⟨0, payload, Fault.none⟩
    return result :: (← attemptAll s rest)

variable {w : World InMemory} {payload : Text.Bytes} {payloads : List Text.Bytes}

theorem attempt_processes (bound handoff : Nat) (hcalm : w.desk.IsCalm) (hfits : ¬Overflows rate payload) :
    ∃ result w', exec (attempt (.inMemory rate bound handoff none) ⟨0, payload, Fault.none⟩) w = (.ok result, w') ∧
      w'.desk.IsCalm ∧ Processed rate payload w.ledger w'.ledger := by
  have hends := program_desk (s := .inMemory rate bound handoff none) (m := ⟨0, payload, Fault.none⟩)
    (attempt_processed rate bound payload hcalm)
  rcases hexec : exec (attempt (.inMemory rate bound handoff none) ⟨0, payload, Fault.none⟩) w with
    ⟨(_ | _) | result, w'⟩
  · exact (hfits (hends.error hexec)).elim
  · rcases hends.error hexec with h | h <;> cases h
  · exact ⟨result, w', rfl, hends.ok hexec⟩

/-- Attempts at some payloads leave a ledger that reflects their events. -/
theorem attemptAll_reflects (bound handoff : Nat) (hcalm : w.desk.IsCalm) (hreflects : Reflects rate m events w.ledger)
    (hsmall : StaysSmall rate m all) (hall : events ∪ eventsOf payloads ⊆ all)
    (hids : ∀ e ∈ all, ∀ e' ∈ all, e.id = e'.id → e = e') (hfits : ∀ payload ∈ payloads, ¬Overflows rate payload) :
    ∃ results w', exec (attemptAll (.inMemory rate bound handoff none) payloads) w = (.ok results, w') ∧
      Reflects rate m (events ∪ eventsOf payloads) w'.ledger := by
  induction payloads generalizing w events with
  | nil => exact ⟨[], w, rfl, by simpa [eventsOf] using hreflects⟩
  | cons payload rest ih =>
      rw [eventsOf_cons, ← Finset.union_assoc] at hall ⊢
      obtain ⟨result, w₁, hexec, hcalm₁, hprocessed⟩ := attempt_processes bound handoff hcalm
        (hfits payload List.mem_cons_self)
      have hreflects₁ := hprocessed.reflects hreflects hsmall (Finset.union_subset_left hall) hids
      obtain ⟨results, w', hrest, hlast⟩ := ih hcalm₁ hreflects₁ hall
        fun payload hmem => hfits payload (List.mem_cons_of_mem _ hmem)
      refine ⟨result :: results, w', ?_, hlast⟩
      rw [attemptAll, exec_bind, hexec]
      dsimp only
      rw [exec_bind, hrest]
      rfl

end Run

/-! ### Agreement -/

/-- Whether two ledgers have the same statements, dates and order apart, the same accounts, and the same balances
as numbers. -/
structure SameBooks (m m' : InMemory) : Prop where
  statements : (m.statements.map Statement.undated).Perm (m'.statements.map Statement.undated)
  balances : ∀ user, (m.account? user).map (·.balance.value) = (m'.account? user).map (·.balance.value)

theorem mem_undated_iff {t : Statement} :
    t ∈ m.statements.map Statement.undated ↔ (m.find? t.event).map Statement.undated = some t := by
  rw [List.mem_map, Option.map_eq_some_iff]
  constructor
  · rintro ⟨s, hs, rfl⟩
    exact ⟨s, InMemory.find?_eq_some_iff.2 ⟨hs, rfl⟩, rfl⟩
  · rintro ⟨s, hs, ht⟩
    exact ⟨s, (InMemory.find?_eq_some_iff.1 hs).1, ht⟩

theorem nodup_undated (m : InMemory) : (m.statements.map Statement.undated).Nodup := by
  refine List.Nodup.of_map Statement.event ?_
  rw [List.map_map]
  exact m.events_nodup

/-- The events that are reflected decide on the books. -/
theorem Reflects.sameBooks (h : Reflects rate m events m₁) (h' : Reflects rate m events m₂) : SameBooks m₁ m₂ where
  statements := by
    refine (List.perm_ext_iff_of_nodup (nodup_undated m₁) (nodup_undated m₂)).2 fun t => ?_
    rw [mem_undated_iff, mem_undated_iff, h.statements, h'.statements]
  balances user := by
    have hopen := (h.accounts user).trans (h'.accounts user).symm
    have hheld := (h.holding user).trans (h'.holding user).symm
    rw [InMemory.holding, InMemory.holding] at hheld
    cases h₁ : m₁.account? user with
    | none => cases h₂ : m₂.account? user <;> simp_all
    | some a => cases h₂ : m₂.account? user <;> simp_all

/-- What is delivered, not how often or in which order, decides on the books. On ledgers in memory that answer
every call and stand alike in the beginning, with balances of at most six places, two runs of attempts at the same
payloads, each of them in any order and any number of times, come to their end and leave the same books, as long as
no two events share an identifier, none overflows and no holding can become too large; and each new event that can
be billed has its statement then, each user of a new event an account, and each holding has moved by the charges of
the new events. -/
theorem books_follow_from_what_was_delivered {bound bound' handoff handoff' : Nat} {w w' : World InMemory}
    {payloads payloads' : List Text.Bytes} (hledger : w'.ledger = w.ledger) (hcalm : w.desk.IsCalm)
    (hcalm' : w'.desk.IsCalm) (hsame : ∀ payload, payload ∈ payloads ↔ payload ∈ payloads')
    (hids : ∀ e ∈ eventsOf payloads, ∀ e' ∈ eventsOf payloads, e.id = e'.id → e = e')
    (hplaces : w.ledger.HasPlaces amountPlaces) (hsmall : StaysSmall rate w.ledger (eventsOf payloads))
    (hfits : ∀ payload ∈ payloads, ¬Overflows rate payload) :
    ∃ results w₁ results' w₁',
      Run.exec (Run.attemptAll (.inMemory rate bound handoff none) payloads) w = (.ok results, w₁) ∧
      Run.exec (Run.attemptAll (.inMemory rate bound' handoff' none) payloads') w' = (.ok results', w₁') ∧
      SameBooks w₁.ledger w₁'.ledger ∧ Reflects rate w.ledger (eventsOf payloads) w₁.ledger := by
  have hevents : eventsOf payloads' = eventsOf payloads := by
    ext e
    simp [eventsOf, hsame]
  obtain ⟨results, w₁, hexec, hreflects⟩ := Run.attemptAll_reflects bound handoff hcalm
    (.refl hplaces) hsmall (Finset.empty_union _).subset hids hfits
  have hopening : Reflects rate w.ledger ∅ w'.ledger := by
    rw [hledger]
    exact .refl hplaces
  obtain ⟨results', w₁', hexec', hreflects'⟩ := Run.attemptAll_reflects bound' handoff' hcalm'
    hopening hsmall (by rw [Finset.empty_union, hevents]) hids
    fun payload hmem => hfits payload ((hsame payload).2 hmem)
  rw [Finset.empty_union] at hreflects
  rw [Finset.empty_union, hevents] at hreflects'
  exact ⟨results, w₁, results', w₁', hexec, hexec', hreflects.sameBooks hreflects', hreflects⟩

/-- A message that bills raw units to the same user. -/
def unitsPayload : Text.Bytes :=
  Text.encode
    "\x7b\"uuid\":\"00000000-0000-0000-0000-000000000002\",\"user_id\":\"u\",\"value\":-2500.5,\"value_type\":1,\"created_at\":\"2020-01-02T00:00:00Z\"\x7d".toList

/-- A message of another user whose details cannot be read. -/
def unclearPayload : Text.Bytes :=
  Text.encode
    "\x7b\"uuid\":\"00000000-0000-0000-0000-000000000003\",\"user_id\":\"v\",\"value\":1,\"created_at\":\"2020-01-03T00:00:00Z\",\"extra\":\"?\"\x7d".toList

/-- The messages in one order. -/
def onceEach : List Text.Bytes := [creditPayload, [], unclearPayload, unitsPayload]

/-- The same messages in another order, and some of them again. -/
def backAndForth : List Text.Bytes := [unclearPayload, unitsPayload, creditPayload, unitsPayload, [], creditPayload]

theorem not_overflows {payload : Text.Bytes}
    (h : ((Event.decode payload).toOption.all fun e => (Credit.amount? rate e).isSome) = true) :
    ¬Overflows rate payload := by
  rintro ⟨e, x, hdecode, -, hamount⟩
  simp [hdecode, hamount, Except.toOption] at h

/-- A charge, raw units billed at the default rate, an event whose details cannot be read and bytes that carry no
event: both orders leave two statements and two accounts. -/
theorem backAndForth_leaves_the_books_of_onceEach :
    (eventsOf onceEach).card = 3 ∧ ((eventsOf onceEach).filter fun e => (bill? Credit.defaultRate e).isSome).card = 2 ∧
      ∃ results w₁ results' w₁',
        Run.exec (Run.attemptAll (.inMemory Credit.defaultRate 5000 1000 none) onceEach) quietWorld = (.ok results, w₁) ∧
        Run.exec (Run.attemptAll (.inMemory Credit.defaultRate 0 0 none) backAndForth) quietWorld =
          (.ok results', w₁') ∧
        SameBooks w₁.ledger w₁'.ledger ∧ Reflects Credit.defaultRate quietWorld.ledger (eventsOf onceEach) w₁.ledger := by
  have hsame : ∀ payload, payload ∈ onceEach ↔ payload ∈ backAndForth := by
    intro payload
    rw [onceEach, backAndForth]
    generalize creditPayload = p, unclearPayload = q, unitsPayload = r
    simp only [List.mem_cons, List.not_mem_nil, or_false]
    tauto
  have hplaces : quietWorld.ledger.HasPlaces amountPlaces := by
    intro user a ha
    have hnobody : quietWorld.ledger.account? user = none := rfl
    rw [hnobody] at ha
    cases ha
  have hrun : ((eventsOf onceEach).card = 3 ∧
      ((eventsOf onceEach).filter fun e => (bill? Credit.defaultRate e).isSome).card = 2) ∧
      (∀ e ∈ eventsOf onceEach, ∀ e' ∈ eventsOf onceEach, e.id = e'.id → e = e') ∧
      ∑ e ∈ eventsOf onceEach, |charge Credit.defaultRate e| < 2 ^ 96 / 10 ^ amountPlaces ∧
      ∀ payload ∈ onceEach,
        ((Event.decode payload).toOption.all fun e => (Credit.amount? Credit.defaultRate e).isSome) = true := by
    decide +kernel
  obtain ⟨⟨hevents, hbills⟩, hids, hsum, hfits⟩ := hrun
  have hsmall : StaysSmall Credit.defaultRate quietWorld.ledger (eventsOf onceEach) := by
    intro user
    have hnothing : quietWorld.ledger.holding user = 0 := rfl
    rw [hnothing, abs_zero, zero_add]
    exact (Finset.sum_le_sum_of_subset_of_nonneg (Finset.filter_subset _ _) fun _ _ _ => abs_nonneg _).trans_lt hsum
  exact ⟨hevents, hbills, books_follow_from_what_was_delivered rfl (fun _ => rfl) (fun _ => rfl) hsame hids hplaces
    hsmall fun payload hmem => not_overflows (hfits payload hmem)⟩

end UsageLedger.Delivery
