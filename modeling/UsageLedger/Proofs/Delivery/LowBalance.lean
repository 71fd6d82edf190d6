import UsageLedger.Proofs.Delivery.Postings
import UsageLedger.Proofs.Delivery.Reporting
import UsageLedger.Proofs.Delivery.SideChannels
import UsageLedger.Proofs.Json.Formats

/-! Who is told that nothing is left. On a ledger in memory that answers every call, and with a publisher of
alerts that is never busy, the alerts of a connection are told by the payloads that it fetched: there is one
for each posting that leaves nothing on its account, in the order of the postings, and no other one. Which
postings these are is told by a running tab of the events that have statements and of the balances. -/

namespace UsageLedger.Delivery

open Ledger Program

variable {rate : Decimal} {e : Event} {m m' : InMemory} {payload : Text.Bytes}

/-! ### Tabs -/

/-- What decides on postings: which events have statements, and the balances of the accounts. -/
@[ext] structure Tab where
  known : Uuid → Bool
  balance? : String → Option Decimal

namespace Tab

variable {t : Tab}

def ofLedger (m : InMemory) : Tab := ⟨fun id => (m.find? id).isSome, fun user => (m.account? user).map (·.balance)⟩

/-- The balance that an event leaves when it is posted: it must be new, have details and an amount, and the balance
must have a decimal. -/
def posting? (rate : Decimal) (t : Tab) (e : Event) : Option Decimal :=
  if t.known e.id then none
  else match e.details, Credit.amount? rate e with
    | .ok _, some amount => ((t.balance? e.user).getD Decimal.zero).add? amount
    | _, _ => none

/-- The tab once the account of a user has been opened. -/
def opened (t : Tab) (user : String) : Tab :=
  ⟨t.known, fun other => if other = user then some ((t.balance? user).getD Decimal.zero) else t.balance? other⟩

/-- The tab once an event has been posted and has left a balance. -/
def posted (t : Tab) (e : Event) (balance : Decimal) : Tab :=
  ⟨fun id => t.known id || e.id == id, fun other => if other = e.user then some balance else t.balance? other⟩

/-- The tab once an event has been seen to. -/
def seen (rate : Decimal) (t : Tab) (e : Event) : Tab :=
  if t.known e.id then t else ((t.posting? rate e).map (t.posted e)).getD (t.opened e.user)

/-- The tab once a payload has been seen to. -/
def after (rate : Decimal) (t : Tab) (payload : Text.Bytes) : Tab :=
  (Event.decode payload).toOption.elim t (t.seen rate)

/-- Whether an event is posted and leaves nothing. -/
def exhausts (rate : Decimal) (t : Tab) (e : Event) : Bool := (t.posting? rate e).any Decimal.isNonpositive

/-- The event of a payload, if it is posted and leaves nothing. -/
def exhausting (rate : Decimal) (t : Tab) (payload : Text.Bytes) : List Event :=
  (Event.decode payload).toOption.toList.filter (t.exhausts rate)

/-- The events of some payloads that are posted and leave nothing, one payload after the other. -/
def exhausted (rate : Decimal) : Tab → List Text.Bytes → List Event
  | _, [] => []
  | t, payload :: rest => t.exhausting rate payload ++ exhausted rate (t.after rate payload) rest

theorem exhausted_append (t : Tab) (xs ys : List Text.Bytes) :
    t.exhausted rate (xs ++ ys) = t.exhausted rate xs ++ (xs.foldl (after rate) t).exhausted rate ys := by
  induction xs generalizing t with
  | nil => rfl
  | cons payload rest ih => rw [List.cons_append, exhausted, exhausted, ih, List.append_assoc, List.foldl_cons]

theorem posting?_opened (e' : Event) : (t.opened e.user).posting? rate e' = t.posting? rate e' := by
  have hbalance : ((t.opened e.user).balance? e'.user).getD Decimal.zero = (t.balance? e'.user).getD Decimal.zero := by
    change (if e'.user = e.user then _ else _ : Option Decimal).getD _ = _
    split
    · rename_i huser
      rw [huser]
      rfl
    · rfl
  rw [posting?, posting?, hbalance]
  rfl

theorem opened_opened (user : String) : (t.opened user).opened user = t.opened user := by
  refine Tab.ext rfl (funext fun other => ?_)
  simp only [opened]
  split <;> simp

theorem seen_of_known (h : t.known e.id = true) : t.seen rate e = t := if_pos h

theorem seen_of_posting? {balance : Decimal} (hnew : t.known e.id = false) (h : t.posting? rate e = some balance) :
    t.seen rate e = t.posted e balance := by
  rw [seen, if_neg (by simp [hnew]), h]
  rfl

theorem seen_of_not_posting? (hnew : t.known e.id = false) (h : t.posting? rate e = none) :
    t.seen rate e = t.opened e.user := by
  rw [seen, if_neg (by simp [hnew]), h]
  rfl

/-- An event that has been seen to is known, or cannot be posted and has an account. -/
theorem seen_cases (rate : Decimal) (t : Tab) (e : Event) :
    (t.seen rate e).known e.id = true ∨
      (t.seen rate e).known e.id = false ∧ (t.seen rate e).posting? rate e = none ∧
        (t.seen rate e).opened e.user = t.seen rate e := by
  cases hknown : t.known e.id with
  | true =>
      rw [seen_of_known hknown]
      exact .inl hknown
  | false =>
      cases hposting : t.posting? rate e with
      | none =>
          rw [seen_of_not_posting? hknown hposting]
          exact .inr ⟨hknown, (posting?_opened e).trans hposting, opened_opened e.user⟩
      | some balance =>
          rw [seen_of_posting? hknown hposting]
          exact .inl (by simp [posted])

/-- An event that has been seen to is not posted again. -/
theorem posting?_seen : (t.seen rate e).posting? rate e = none := by
  rcases seen_cases rate t e with hknown | ⟨-, hposting, -⟩
  · exact if_pos hknown
  · exact hposting

theorem seen_seen : (t.seen rate e).seen rate e = t.seen rate e := by
  rcases seen_cases rate t e with hknown | ⟨hnew, hposting, hopened⟩
  · exact seen_of_known hknown
  · rw [seen_of_not_posting? hnew hposting, hopened]

/-- A payload that has been seen to has nothing more to do. -/
theorem after_after : (t.after rate payload).after rate payload = t.after rate payload := by
  unfold after
  cases Event.decode payload with
  | error error => rfl
  | ok e => exact seen_seen

theorem exhausting_after : (t.after rate payload).exhausting rate payload = [] := by
  unfold exhausting after
  cases Event.decode payload with
  | error error => rfl
  | ok e => simp [Except.toOption, exhausts, posting?_seen]

theorem known_after {id : Uuid} (h : t.known id = true) : (t.after rate payload).known id = true := by
  unfold after
  cases Event.decode payload with
  | error error => exact h
  | ok e =>
      change (t.seen rate e).known id = true
      unfold seen
      split
      · exact h
      · cases t.posting? rate e with
        | none => exact h
        | some balance => simp [posted, h]

theorem known_of_mem_exhausting (h : e ∈ t.exhausting rate payload) :
    t.known e.id = false ∧ (t.after rate payload).known e.id = true := by
  obtain ⟨hdecode, hexhausts⟩ := List.mem_filter.1 h
  obtain ⟨balance, hposting, -⟩ := (Option.any_eq_true _ _).1 hexhausts
  have hnew : t.known e.id = false := by
    cases hknown : t.known e.id with
    | false => rfl
    | true =>
        rw [posting?, if_pos hknown] at hposting
        cases hposting
  refine ⟨hnew, ?_⟩
  rw [after, Option.mem_toList.1 hdecode]
  change (t.seen rate e).known e.id = true
  rw [seen_of_posting? hnew hposting]
  simp [posted]

theorem known_of_mem_exhausted {payloads : List Text.Bytes} (h : e ∈ t.exhausted rate payloads) :
    t.known e.id = false := by
  induction payloads generalizing t with
  | nil => cases h
  | cons payload rest ih =>
      rcases List.mem_append.1 h with hfirst | hrest
      · exact (known_of_mem_exhausting hfirst).1
      · cases hknown : t.known e.id with
        | false => rfl
        | true => exact (known_after hknown).symm.trans (ih hrest)

/-- No event exhausts an account twice. -/
theorem exhausted_nodup (rate : Decimal) (t : Tab) (payloads : List Text.Bytes) :
    ((t.exhausted rate payloads).map Event.id).Nodup := by
  induction payloads generalizing t with
  | nil => exact List.nodup_nil
  | cons payload rest ih =>
      rw [exhausted, List.map_append]
      refine List.nodup_append.2 ⟨?_, ih _, ?_⟩
      · rw [exhausting]
        cases Event.decode payload with
        | error error => exact List.nodup_nil
        | ok e =>
            change (List.map Event.id ([e].filter _)).Nodup
            exact List.Nodup.sublist (List.filter_sublist.map _) (List.nodup_singleton e.id)
      · rintro _ hfirst _ hrest rfl
        obtain ⟨e, he, hid⟩ := List.mem_map.1 hfirst
        obtain ⟨e', he', hid'⟩ := List.mem_map.1 hrest
        have hknown := (known_of_mem_exhausting he).2
        have hunknown := known_of_mem_exhausted he'
        rw [hid'] at hunknown
        rw [hid, hunknown] at hknown
        cases hknown

end Tab

/-! ### Postings on a tab -/

namespace Tab

theorem ofLedger_ensure (m : InMemory) (user : String) : ofLedger (m.ensure user) = (ofLedger m).opened user := by
  refine Tab.ext (funext fun id => ?_) (funext fun other => ?_)
  · simp only [ofLedger, opened, InMemory.find?_ensure]
  · simp only [ofLedger, opened, InMemory.account?_ensure]
    split
    · cases m.account? user <;> rfl
    · rfl

/-- A statement of an event is created on an account that the tab has, and leaves the balance there. -/
theorem ofLedger_create {s : Statement} {delta : Decimal} (hevent : s.event = e.id) (huser : s.user = e.user)
    (h : m.create s delta = .ok m') : ∃ old balance, (ofLedger m).balance? e.user = some old ∧
      old.add? delta = some balance ∧ ofLedger m' = (ofLedger m).posted e balance ∧ m'.balance e.user = .ok balance := by
  obtain ⟨-, a, balance, ha, hbalance, -, haccounts⟩ := InMemory.create_eq_ok h
  rw [huser] at ha haccounts
  refine ⟨a.balance, balance, by simp [ofLedger, ha], hbalance, ?_, ?_⟩
  · refine Tab.ext (funext fun id => ?_) (funext fun other => ?_)
    · simp only [ofLedger, posted, InMemory.find?_create h, hevent]
      split
      · rename_i hid
        simp [hid]
      · rename_i hid
        simp [hid]
    · simp only [ofLedger, posted, haccounts]
      split <;> rfl
  · rw [InMemory.balance, haccounts, if_pos rfl]

/-- A posting that leaves a decimal on the account is not refused. -/
theorem create_of_add? {amount balance : Decimal} (x : Extra) (createdAt : Instant) (hnew : m.find? e.id = none)
    (hadd : (((ofLedger m).balance? e.user).getD Decimal.zero).add? amount = some balance) :
    ∃ m', ((m.record e).ensure e.user).create (Statement.ofEvent e x amount createdAt) amount = .ok m' := by
  obtain ⟨a, ha, hheld⟩ : ∃ a, ((m.record e).ensure e.user).account? e.user = some a ∧
      a.balance = ((ofLedger m).balance? e.user).getD Decimal.zero := by
    rw [InMemory.account?_ensure, if_pos rfl]
    refine ⟨_, rfl, ?_⟩
    change ((m.account? e.user).getD _).balance = ((m.account? e.user).map _).getD _
    cases m.account? e.user <;> rfl
  have hfind : ((m.record e).ensure e.user).find? e.id = none := by
    rw [InMemory.find?_ensure]
    exact hnew
  exact InMemory.create_of_add? (s := Statement.ofEvent e x amount createdAt) hfind ha (by rw [hheld, hadd])

theorem posted_opened (balance : Decimal) (t : Tab) : (t.opened e.user).posted e balance = t.posted e balance := by
  refine Tab.ext rfl (funext fun other => ?_)
  simp only [posted, opened]
  split <;> rfl

end Tab

/-- What the result of posting an event says of the tab before and of the ledger after it. -/
def Tab.Foretells (rate : Decimal) (t : Tab) (e : Event) (m : InMemory) : Except Setback (Option Statement) → Prop
  | .ok (some _) => ∃ balance, t.posting? rate e = some balance ∧ m.balance e.user = .ok balance
  | _ => t.posting? rate e = none

/-- A posting does to the ledger what the tab says, and it is made if the tab says so. -/
theorem Booked.tab {result : Except Setback (Option Statement)} (h : Booked rate e m result m') :
    Tab.ofLedger m' = (Tab.ofLedger m).seen rate e ∧ Tab.Foretells rate (Tab.ofLedger m) e m' result := by
  have hunknown : m.find? e.id = none → (Tab.ofLedger m).known e.id = false := fun hnew => by simp [Tab.ofLedger, hnew]
  have hopened : Tab.ofLedger ((m.record e).ensure e.user) = (Tab.ofLedger m).opened e.user :=
    Tab.ofLedger_ensure _ _
  cases h with
  | duplicate hfind =>
      have hknown : (Tab.ofLedger m).known e.id = true := by simp [Tab.ofLedger, hfind]
      rw [Tab.seen_of_known hknown]
      exact ⟨rfl, if_pos hknown⟩
  | unread hnew hdetails =>
      have hposting : (Tab.ofLedger m).posting? rate e = none := by simp [Tab.posting?, hunknown hnew, hdetails]
      rw [Tab.seen_of_not_posting? (hunknown hnew) hposting]
      exact ⟨hopened, hposting⟩
  | @refused x amount createdAt error hnew hdetails hamount hcreate =>
      have hposting : (Tab.ofLedger m).posting? rate e = none := by
        cases hadd : (((Tab.ofLedger m).balance? e.user).getD Decimal.zero).add? amount with
        | none => simp [Tab.posting?, hunknown hnew, hdetails, hamount, hadd]
        | some balance =>
            obtain ⟨m₂, haccepted⟩ := Tab.create_of_add? x createdAt hnew hadd
            rw [hcreate] at haccepted
            cases haccepted
      rw [Tab.seen_of_not_posting? (hunknown hnew) hposting]
      exact ⟨hopened, hposting⟩
  | @posted x amount createdAt m' hnew hdetails hamount hcreate =>
      obtain ⟨old, balance, hold, hbalance, htab, hread⟩ := Tab.ofLedger_create (e := e) rfl rfl hcreate
      rw [hopened] at hold htab
      obtain rfl : ((Tab.ofLedger m).balance? e.user).getD Decimal.zero = old := by simpa [Tab.opened] using hold
      have hposting : (Tab.ofLedger m).posting? rate e = some balance := by
        simp [Tab.posting?, hunknown hnew, hdetails, hamount, hbalance]
      rw [Tab.seen_of_posting? (hunknown hnew) hposting, htab, Tab.posted_opened]
      exact ⟨rfl, balance, hposting, hread⟩

/-! ### Messages -/

section Messages

variable {σ : Type} {number bound : Nat} {t t' t'' : Tally} {tab : Tab} {events events' : List Event}
  {g g' : Desk InMemory × Tally}

/-- Whether an answer takes every alert that is offered. -/
def Obliges : (r : Request) → r.Answer → Prop
  | .alert _, outcome => outcome = .ok ()
  | _, _ => True

/-- A desk and a tally, where every alert that is offered is taken. -/
def Obliging (serve : Service σ) (number : Nat) : Surroundings (Desk σ × Tally) := fun r g a g' =>
  Desk.Around serve r g.1 a g'.1 ∧ g'.2 = g.2.told number r a ∧ Obliges r a

/-- Whether an alert says that an event has left its user without balance. -/
def SaysExhausted (a : Alert) (e : Event) : Prop := ∃ createdAt, a = Alert.lackOfBalance e createdAt

/-- What a tally has grown by when alerts on some events were raised, in their order, and none was dropped. -/
structure Raised (events : List Event) (t t' : Tally) : Prop where
  accepted : ∃ alerts : List Alert, t'.accepted.filter (·.channel = .alerts) =
    t.accepted.filter (·.channel = .alerts) ++ alerts.map .alert ∧ List.Forall₂ SaysExhausted alerts events
  sent : t'.metrics.alertsSent = t.metrics.alertsSent + events.length
  dropped : t'.metrics.alertsDropped = t.metrics.alertsDropped

namespace Raised

theorem nothing (haccepted : t'.accepted.filter (·.channel = .alerts) = t.accepted.filter (·.channel = .alerts))
    (hsent : t'.metrics.alertsSent = t.metrics.alertsSent)
    (hdropped : t'.metrics.alertsDropped = t.metrics.alertsDropped) : Raised [] t t' :=
  ⟨⟨[], by simpa using haccepted, .nil⟩, hsent, hdropped⟩

theorem refl (t : Tally) : Raised [] t t := .nothing rfl rfl rfl

theorem trans (h : Raised events t t') (h' : Raised events' t' t'') : Raised (events ++ events') t t'' where
  accepted := by
    obtain ⟨alerts, haccepted, halerts⟩ := h.accepted
    obtain ⟨alerts', haccepted', halerts'⟩ := h'.accepted
    refine ⟨alerts ++ alerts', ?_, List.rel_append halerts halerts'⟩
    rw [haccepted', haccepted, List.map_append, List.append_assoc]
  sent := by rw [h'.sent, h.sent, List.length_append, Nat.add_assoc]
  dropped := h'.dropped.trans h.dropped

end Raised

/-- How a desk and a tally stand on the way: the desk is calm, the tab of its ledger is known, and alerts on some
events have been raised. -/
structure Stands (tab : Tab) (events : List Event) (t : Tally) (g : Desk InMemory × Tally) : Prop where
  calm : g.1.IsCalm
  tab : Tab.ofLedger g.1.ledger = tab
  raised : Raised events t g.2

/-- A contract on how a desk and a tally stand in the end. -/
def raising {α : Type} (tab : Tab) (events : List Event) (t : Tally) : Contract (Desk InMemory × Tally) α :=
  ⟨fun _ _ => True, fun _ g => Stands tab events t g, fun _ => True⟩

/-- Whether a request neither calls the ledger nor has to do with alerts. -/
def Request.isIdle : Request → Bool
  | .ledger _ => false
  | .alert _ => false
  | .count .alertsSent => false
  | .count .alertsDropped => false
  | _ => true

namespace Stands

theorem idle {r : Request} {a : r.Answer} (hr : r.isIdle = true) (h : Stands tab events t g)
    (hanswer : Obliging InMemory.serve number r g a g') : Stands tab events t g' := by
  obtain ⟨hdesk, htold, -⟩ := hanswer
  refine ⟨hdesk.isCalm h.calm, ?_, ?_⟩
  · have hledger : g'.1.ledger = g.1.ledger := by
      rcases hdesk.ledger with hsame | ⟨call, rfl, -⟩
      · exact hsame
      · cases hr
    rw [hledger, h.tab]
  · have hquiet : Raised [] g.2 g'.2 := by
      rw [htold]
      cases r with
      | time => exact .refl g.2
      | bound ms => exact .refl g.2
      | ledger call => cases hr
      | alert a => cases hr
      | letter payload =>
          cases a with
          | error rejection => exact .refl g.2
          | ok accepted => exact .nothing (by simp [Tally.told, Notice.channel]) rfl rfl
      | acknowledge => exact .nothing rfl rfl rfl
      | count metric => cases metric <;> first | exact .nothing rfl rfl rfl | cases hr
    simpa using h.raised.trans hquiet

/-- An alert is taken and counted as sent. -/
theorem alerted {e : Event} {createdAt : Instant} {outcome : Except Rejection Unit} {g₁ : Desk InMemory × Tally}
    {counted : Unit} (h : Stands tab [] t g)
    (hoffered : Obliging InMemory.serve number (.alert (Alert.lackOfBalance e createdAt)) g outcome g₁)
    (hcounted : Obliging InMemory.serve number (.count .alertsSent) g₁ counted g') : Stands tab [e] t g' := by
  obtain ⟨hdesk₁, htold₁, rfl⟩ := hoffered
  obtain ⟨hdesk₂, htold₂, -⟩ := hcounted
  have hledger : g'.1.ledger = g.1.ledger := (congrArg Desk.ledger hdesk₂).trans hdesk₁.1
  rw [htold₁] at htold₂
  refine ⟨hdesk₂.isCalm (hdesk₁.isCalm h.calm), by rw [hledger, h.tab], ?_⟩
  refine h.raised.trans (?_ : Raised [e] g.2 g'.2)
  refine ⟨⟨[Alert.lackOfBalance e createdAt], ?_, .cons ⟨createdAt, rfl⟩ .nil⟩, ?_, ?_⟩
  · rw [htold₂]
    exact List.filter_append _ _
  · rw [htold₂]
    rfl
  · rw [htold₂]
    rfl

end Stands

theorem raiseAlert_raises (e : Event) (h : Stands tab [] t g) :
    (raiseAlert e).Meets (Obliging InMemory.serve number) (raising tab [e] t) g := by
  rw [raiseAlert]
  refine Meets.request trivial fun createdAt g₁ h₁ => Meets.request trivial ?_
  rintro outcome g₂ h₂
  obtain rfl : outcome = .ok () := h₂.2.2
  exact ⟨trivial, fun _ g₃ h₃ => (h.idle rfl h₁).alerted h₂ h₃⟩

/-- The balance is read as the ledger has it. -/
theorem currentBalance_raises {user : String} {balance : Decimal} (hread : g.1.ledger.balance user = .ok balance)
    (h : Stands tab [] t g) :
    (currentBalance bound user).Meets (Obliging InMemory.serve number)
      ⟨fun _ _ => True, fun read g' => read = some balance ∧ Stands tab [] t g', fun _ => True⟩ g := by
  rw [currentBalance]
  refine Meets.request trivial fun _ g₁ h₁ => Meets.request trivial ?_
  rintro a g₂ ⟨hdesk₂, htold₂, -⟩
  have hdesk₁ : g₁.1 = { g.1 with left := bound } := h₁.1
  have hstands₁ := h.idle rfl h₁
  have hserved : InMemory.serve (.balance user) g₁.1.ledger = (.ok balance, g₁.1.ledger) := by
    rw [hdesk₁]
    exact congrArg (·, g.1.ledger) hread
  obtain ⟨rfl, hsame⟩ := hdesk₂.served hstands₁.calm (by rw [hdesk₁]; exact Int.natCast_nonneg bound) hserved
  refine ⟨rfl, hdesk₂.isCalm hstands₁.calm, by rw [hsame, hstands₁.tab], ?_⟩
  rw [htold₂]
  exact hstands₁.raised

/-- What follows a posting raises an alert if the posting has left nothing. -/
theorem attemptPosted_raises {result : Except Setback (Option Statement)} {before : Tab} (h : Stands tab [] t g)
    (htells : Tab.Foretells rate before e g.1.ledger result) :
    (attemptPosted bound e result).Meets (Obliging InMemory.serve number)
      (raising tab ([e].filter (before.exhausts rate)) t) g := by
  have hnothing : before.posting? rate e = none → [e].filter (before.exhausts rate) = [] := fun h => by
    simp [Tab.exhausts, h]
  rcases result with (_ | error) | (_ | s)
  · rw [hnothing htells]
    exact h
  · rw [hnothing htells]
    exact h
  · rw [hnothing htells]
    exact Meets.request trivial fun _ g₁ h₁ => h.idle rfl h₁
  · obtain ⟨balance, hposting, hread⟩ := htells
    refine Meets.request trivial fun _ g₁ h₁ => ?_
    have hledger : g₁.1.ledger = g.1.ledger := congrArg Desk.ledger h₁.1
    refine Meets.bind (currentBalance_raises (by rw [hledger, hread]) (h.idle rfl h₁)) ?_
    rintro read g₂ ⟨rfl, h₂⟩
    have hexhausts : before.exhausts rate e = balance.isNonpositive := by rw [Tab.exhausts, hposting, Option.any_some]
    rw [List.filter_singleton, hexhausts, alertIfExhausted]
    cases balance.isNonpositive with
    | true => exact Meets.bind (raiseAlert_raises e h₂) fun _ _ h => h
    | false => exact h₂

/-- An attempt at a payload does what the tab says of it. -/
theorem attempt_raises (rate : Decimal) (bound : Nat) (payload : Text.Bytes) (h : Stands tab [] t g) :
    (attempt rate bound payload).Meets (Obliging InMemory.serve number)
      (raising (tab.after rate payload) (tab.exhausting rate payload) t) g := by
  rw [Tab.after, Tab.exhausting]
  cases hdecode : Event.decode payload with
  | error error =>
      rw [attempt_of_error hdecode]
      exact h
  | ok e =>
      rw [attempt_of_ok hdecode]
      refine ⟨trivial, fun _ g₁ h₁ => ?_⟩
      have hdesk₁ : g₁.1 = { g.1 with left := bound } := h₁.1
      have hstands₁ := h.idle rfl h₁
      have hbooked := Meets.of_view Prod.fst (fun r _ a _ (h : Obliging InMemory.serve number r _ a _) => h.1)
        (post_booked rate e hstands₁.calm (by rw [hdesk₁]; exact Int.natCast_nonneg bound))
      have htallies := Meets.of_view Prod.snd (fun r _ a _ (h : Obliging InMemory.serve number r _ a _) => h.2.1)
        (post_tallies rate e : (post rate e).run.Meets (Tallies number) _ g₁.2)
      refine Meets.bind ((hbooked.and htallies).mono (fun _ _ _ => trivial) (fun _ _ h => h) fun _ _ => trivial) ?_
      rintro result g₂ ⟨⟨hcalm₂, hbooked₂⟩, htally₂⟩
      obtain ⟨htab, htells⟩ := hbooked₂.tab
      rw [hstands₁.tab] at htab htells
      have hstands₂ : Stands (tab.seen rate e) [] t g₂ := ⟨hcalm₂, htab, htally₂ ▸ hstands₁.raised⟩
      exact attemptPosted_raises hstands₂ htells

/-- Further attempts do nothing more. -/
theorem attemptResults_raises (rate : Decimal) (bound : Nat) (payload : Text.Bytes) (n : Nat)
    (h : Stands tab [] t g) :
    (attemptResults rate bound payload (n + 1)).Meets (Obliging InMemory.serve number)
      (raising (tab.after rate payload) (tab.exhausting rate payload) t) g := by
  induction n generalizing tab t g with
  | zero =>
      refine Meets.bind (attempt_raises rate bound payload h) ?_
      rintro (error | outcome) g₁ h₁
      · exact ⟨trivial, fun _ g₂ h₂ => Stands.idle rfl h₁ h₂⟩
      · exact h₁
  | succ n ih =>
      refine Meets.bind (attempt_raises rate bound payload h) ?_
      rintro (error | outcome) g₁ h₁
      · refine Meets.request trivial fun _ g₂ h₂ => ?_
        have hcounted := Stands.idle rfl h₁ h₂
        have hstands₂ : Stands (tab.after rate payload) [] g₂.2 g₂ := ⟨hcounted.calm, hcounted.tab, .refl g₂.2⟩
        have hrest := ih hstands₂
        rw [Tab.after_after, Tab.exhausting_after] at hrest
        refine Meets.bind hrest fun results g₃ h₃ => ⟨h₃.calm, h₃.tab, ?_⟩
        simpa using hcounted.raised.trans h₃.raised
      · exact h₁

/-- A settlement does what the tab says of its payload. -/
theorem settlement_raises (rate : Decimal) (bound : Nat) (payload : Text.Bytes) (h : Stands tab [] t g) :
    (settlement rate bound payload).Meets (Obliging InMemory.serve number)
      (raising (tab.after rate payload) (tab.exhausting rate payload) t) g := by
  refine Meets.bind (attemptResults_raises rate bound payload 2 h) fun results g₁ h₁ => ?_
  unfold conclude
  split
  · exact Meets.request trivial fun _ g₂ h₂ => Stands.idle rfl h₁ h₂
  · refine Meets.request trivial fun outcome g₂ h₂ => ?_
    cases outcome with
    | ok accepted =>
        exact Meets.request trivial fun _ g₃ h₃ => Meets.request trivial fun _ g₄ h₄ =>
          ((Stands.idle rfl h₁ h₂).idle rfl h₃).idle rfl h₄
    | error rejection => exact Meets.request trivial fun _ g₃ h₃ => (Stands.idle rfl h₁ h₂).idle rfl h₃

theorem settle_raises (rate : Decimal) (bound : Nat) (payload : Text.Bytes) (h : Stands tab [] t g) :
    (settle rate bound payload).Meets (Obliging InMemory.serve number)
      (raising (tab.after rate payload) (tab.exhausting rate payload) t) g := by
  rw [settle_eq]
  exact Meets.map (settlement_raises rate bound payload h)

end Messages

/-! ### Connections -/

section Connections

variable {σ : Type} {bound handoff : Nat} {horizon : Option Nat} {p : Plan} {w w' : World InMemory} {tab : Tab}
  {t : Tally} {messages : List Message}

/-- Whether the publisher of alerts is never busy. -/
def PublishesAtOnce (p : Plan) (w : World σ) : Prop := Prompt { p with idle := 0 } .alerts w

namespace Run

/-- An alert is taken by a publisher that is never busy if there is any time to hand it over. -/
theorem offerAlert_taken {s : Setup σ} {w : World σ} (hhandoff : 0 < s.handoff) (hatOnce : PublishesAtOnce p w)
    (a : Alert) : Ends (offerAlert s a) w (fun outcome _ => outcome = .ok ()) fun _ _ => True := by
  obtain ⟨-, freeAt, hfree, hreceiver⟩ := hatOnce
  have hroom : ∃ time, (w.alerts.room w.clock).handoff w.clock s.handoff = (.ok (), time) := by
    have hidle : freeAt ≤ w.clock := hfree
    have hpublisher : w.alerts.receiver = .publisher p.alertSubject (some freeAt) := hreceiver
    generalize w.alerts = alerts at hpublisher
    obtain ⟨slot, receiver⟩ := alerts
    obtain rfl : receiver = .publisher p.alertSubject (some freeAt) := hpublisher
    cases slot with
    | none => exact ⟨none, rfl⟩
    | some waiting =>
        refine ⟨some w.clock, ?_⟩
        simp [Queue.room, Queue.takenAt?, Room.handoff, Nat.max_eq_left hidle, hhandoff.ne', hhandoff]
  obtain ⟨time, hroom⟩ := hroom
  unfold offerAlert
  refine ends_get_bind ?_
  rw [hroom]
  dsimp only
  cases time with
  | none => exact rfl
  | some time => exact (waitUntil_desk time).bind fun _ _ _ => rfl

/-- A world with such a publisher answers as a desk and a tally do where every alert is taken. -/
theorem answer_obliges {s : Setup σ} {w : World σ} (hhandoff : 0 < s.handoff) (hatOnce : PublishesAtOnce p w)
    (hlasts : World.Lasts s w) (m : Message) (r : Request) :
    Ends (answer s m r) w
      (fun a w' => Obliging s.serve m.number r (w.desk, w.standing.tally) a (w'.desk, w'.standing.tally) ∧
        PublishesAtOnce p w' ∧ World.Lasts s w') fun _ _ => True := by
  have htaken : Ends (answer s m r) w (fun a _ => Obliges r a) fun _ _ => True := by
    cases r with
    | alert a => exact offerAlert_taken hhandoff hatOnce a
    | _ => exact ends_of_ok fun _ _ _ => trivial
  refine (((answer_desk m r).and ((answer_ends m r).and htaken)).steps (goes_answer m r) hlasts).mono ?_
    fun _ _ _ => trivial
  rintro a w' ⟨⟨hdesk, hresponds, hobliges⟩, hsteps⟩
  exact ⟨⟨hdesk, Tally.of_responds hresponds, hobliges⟩, Prompt.steps hsteps hatOnce, hsteps.lasts hlasts⟩

end Run

/-- How a world stands after some messages on a connection: the tab of its ledger is what the messages make of the
tab before, and alerts were raised on the events that they exhausted. -/
structure Keeping (rate : Decimal) (s : Setup InMemory) (p : Plan) (tab : Tab) (t : Tally) (messages : List Message)
    (w : World InMemory) : Prop where
  stands : Stands ((messages.map Message.payload).foldl (Tab.after rate) tab)
    (tab.exhausted rate (messages.map Message.payload)) t (w.desk, w.standing.tally)
  atOnce : PublishesAtOnce p w
  lasts : World.Lasts s w

theorem Keeping.settled {m : Message} {d : Disposition} (hhandoff : 0 < handoff)
    (h : Keeping rate (.inMemory rate bound handoff horizon) p tab t messages w)
    (hexec : Run.exec (Run.settle (.inMemory rate bound handoff horizon) m) w = (.ok d, w')) :
    Keeping rate (.inMemory rate bound handoff horizon) p tab t (messages ++ [m]) w' := by
  have hsettles := @settle_raises m.number w.standing.tally _ (w.desk, w.standing.tally) rate bound m.payload
    ⟨h.stands.calm, h.stands.tab, .refl w.standing.tally⟩
  have hends := Run.program_keeps (s := .inMemory rate bound handoff horizon) (m := m)
    (fun w => (w.desk, w.standing.tally)) (fun w => PublishesAtOnce p w ∧ World.Lasts _ w)
    (fun r w hw => Run.answer_obliges hhandoff hw.1 hw.2 m r) ⟨h.atOnce, h.lasts⟩ hsettles
  obtain ⟨hstands, hatOnce, hlasts⟩ := hends.ok hexec
  refine ⟨?_, hatOnce, hlasts⟩
  rw [List.map_append, List.foldl_append, Tab.exhausted_append]
  refine ⟨hstands.calm, hstands.tab, ?_⟩
  simpa [Tab.exhausted] using h.stands.raised.trans hstands.raised

theorem Keeping.paused {s : Setup InMemory} {failures : Nat} (h : Keeping rate s p tab t messages w)
    (hpause : Pause s w failures w') : Keeping rate s p tab t messages w' := by
  have hsteps := hpause.steps h.lasts
  have hcounted : ∀ m, m ≠ .fetchFailures → w'.metrics.get m = w.metrics.get m :=
    fun m hm => by simpa [hm] using hpause.interlude.counted m
  have hquiet : Raised [] w.standing.tally w'.standing.tally :=
    .nothing (by rw [hpause.interlude.accepted]) (hcounted .alertsSent nofun) (hcounted .alertsDropped nofun)
  refine ⟨⟨fun call => ?_, ?_, by simpa using h.stands.raised.trans hquiet⟩, Prompt.steps hsteps h.atOnce,
    hsteps.lasts h.lasts⟩
  · have hsuffix := hsteps.script_suffix (.ofCall call)
    rw [show w.faults.script (.ofCall call) = [] from h.stands.calm call] at hsuffix
    exact List.eq_nil_of_suffix_nil hsuffix
  · change Tab.ofLedger w'.ledger = _
    rw [hpause.interlude.ledger]
    exact h.stands.tab

/-- Whether an alert is what its bytes are read as, and says of an event that it has left its user without balance. -/
structure Announces (a : Alert) (e : Event) : Prop where
  decodes : Alert.decode (Text.encode a.print) = .ok a
  event : a.event = e.id
  user : a.user = e.user
  reason : a.reason = .lackBalance

theorem SaysExhausted.announces {a : Alert} {e : Event} (h : SaysExhausted a e) : Announces a e := by
  obtain ⟨createdAt, rfl⟩ := h
  exact ⟨(Alert.decode_print_iff _).2 ⟨3, rfl⟩, rfl, rfl, rfl⟩

/-- What a connection has published, counted and left of its tab once some payloads have been handled: the alerts on
the events that exhausted their accounts, in order and once each. -/
structure AlertsExhausted (rate : Decimal) (p : Plan) (w : World InMemory) (payloads : List Text.Bytes)
    (w' : World InMemory) : Prop where
  tab : Tab.ofLedger w'.ledger = payloads.foldl (Tab.after rate) (Tab.ofLedger w.ledger)
  published : ∃ alerts : List Alert, List.Forall₂ Announces alerts ((Tab.ofLedger w.ledger).exhausted rate payloads) ∧
    w'.published .alerts = w.published .alerts ++ alerts.map fun a => (p.alertSubject, Text.encode a.print)
  once : (((Tab.ofLedger w.ledger).exhausted rate payloads).map Event.id).Nodup
  sent : w'.metrics.get .alertsSent =
    w.metrics.get .alertsSent + ((Tab.ofLedger w.ledger).exhausted rate payloads).length
  dropped : w'.metrics.get .alertsDropped = w.metrics.get .alertsDropped

theorem Keeping.alertsExhausted {s : Setup InMemory} {w₁ : World InMemory}
    (h : Keeping rate s p (Tab.ofLedger w.ledger) w.standing.tally messages w₁) (hstanding : w'.standing = w₁.standing)
    {sent : List Notice} (hforwards : Forwards p .alerts w sent [] w') :
    AlertsExhausted rate p w (messages.map Message.payload) w' := by
  have hledger : w'.ledger = w₁.ledger := congrArg Standing.ledger hstanding
  have hmetrics : w'.metrics = w₁.metrics := congrArg Standing.metrics hstanding
  obtain ⟨alerts, haccepted, halerts⟩ := h.stands.raised.accepted
  obtain rfl : sent = alerts.map .alert := by
    have hall : w₁.accepted .alerts = w.accepted .alerts ++ (sent ++ []) := by
      rw [← hforwards.accepted, World.accepted_of_standing hstanding]
    rw [List.append_nil] at hall
    exact List.append_cancel_left (hall.symm.trans haccepted)
  refine ⟨by rw [hledger]; exact h.stands.tab, ⟨alerts, halerts.imp fun _ _ h => h.announces, ?_⟩,
    Tab.exhausted_nodup _ _ _, ?_, ?_⟩
  · rw [hforwards.published, List.map_map]
    rfl
  · rw [hmetrics]
    exact h.stands.raised.sent
  · rw [hmetrics]
    exact h.stands.raised.dropped

namespace Run

section Generations

variable {s : Setup σ} {w w' : World σ} {sources : List Source}

/-- Where nothing overflows no substitute stands in. -/
theorem orElseOverflow_fits {α : Type} {x : Run σ α} (substitute : α) {post : α → World σ → Prop}
    {halted : Halt → World σ → Prop} (hx : Ends x w post halted) (hfits : (exec x w).1 ≠ .error .overflow) :
    Ends (orElseOverflow x substitute) w post fun halt w' => halted halt w' ∧ halt = .horizon := by
  rcases hexec : exec x w with ⟨(_ | _) | a, w'⟩
  · exact (hfits (by rw [hexec])).elim
  · rw [Ends, exec_orElseOverflow, hexec]
    exact ⟨hx.error hexec, rfl⟩
  · rw [Ends, exec_orElseOverflow, hexec]
    exact hx.ok hexec

/-- A connection on which nothing is waited for without end and nothing overflows comes to its end. -/
theorem generation_returns (hflows : Flows s w.faults sources)
    (hfits : (exec (provisionAll s p.subscription p.fetching) (w.opened p sources)).1 ≠ .error .overflow) :
    Ends (generation s p sources) w (fun _ _ => True) fun _ _ => False := by
  change Ends (orElseOverflow (provisionAll s p.subscription p.fetching) ProvisionReport.zero >>= fun report =>
    finishSideChannels s p.idle >>= fun _ => pure report) (w.opened p sources) _ _
  have hreturns := orElseOverflow_fits ProvisionReport.zero (rounds_return p.subscription p.fetching
    Limits.provisionRounds ProvisionReport.zero (w := w.opened p sources) hflows) hfits
  refine (hreturns.mono (fun _ _ h => h) ?_).bind fun report w₁ _ => ?_
  · rintro halt w' ⟨rfl, hhorizon⟩
    cases hhorizon
  · refine ((finishSideChannels_standing p.idle).mono (fun _ _ h => h) ?_).bind fun _ _ _ => ends_pure trivial
    rintro halt w' ⟨-, -, hsome⟩
    rw [hflows.horizon] at hsome
    cases hsome

end Generations

/-- Exactly the postings that leave nothing are alerted. On a ledger in memory that answers every call, with a
publisher of alerts that is never busy, some time to hand an alert over and no overflow, a connection that comes to
its end has published one alert for each message that was posted and left nothing on the account of its user, in the
order of the messages that it fetched; each is read as an alert on its event for lack of balance, they are counted
as sent, and none is dropped. The connection comes to its end if nothing is waited for without end. -/
theorem generation_alerts_the_exhausting {sources : List Source}
    (hlasts : World.Lasts (.inMemory rate bound handoff horizon) w) (hcalm : w.desk.IsCalm)
    (hatOnce : ∀ fault ∈ w.faults.script (.publish p.alertSubject), fault.delay = some 0) (hhandoff : 0 < handoff)
    (hfits : (exec (provisionAll (.inMemory rate bound handoff horizon) p.subscription p.fetching)
      (w.opened p sources)).1 ≠ .error .overflow) :
    ∃ result w', exec (generation (.inMemory rate bound handoff horizon) p sources) w = (result, w') ∧
      (Flows (.inMemory rate bound handoff horizon) w.faults sources → ∃ report, result = .ok report) ∧
      ∀ report, result = .ok report → ∃ xs, report.fetchReports = xs.map Round.report ∧
        Rounds (.inMemory rate bound handoff horizon) w sources Limits.provisionRounds xs w' ∧
        AlertsExhausted rate p w ((xs.flatMap Round.handlings).map (·.message.payload)) w' := by
  generalize hsetup : Setup.inMemory rate bound handoff horizon = s at *
  have hkeeps : Keeps s (Keeping rate s p (Tab.ofLedger w.ledger) w.standing.tally) := by
    subst hsetup
    exact ⟨fun h hexec => h.settled hhandoff hexec, fun h hpause => h.paused hpause⟩
  have hopened : Keeping rate s p (Tab.ofLedger w.ledger) w.standing.tally [] (w.opened p sources) := by
    refine ⟨⟨hcalm, rfl, .refl _⟩, opened_prompt (p := { p with idle := 0 }) fun fault hfault => ?_, hlasts⟩
    exact ⟨0, le_rfl, hatOnce fault hfault⟩
  have hrounds := orElseOverflow_fits ProvisionReport.zero
    (rounds_keep hkeeps p.subscription p.fetching Limits.provisionRounds ProvisionReport.zero hopened) hfits
  have hends : Ends (generation s p sources) w
      (fun report w' => ∃ xs, report.fetchReports = xs.map Round.report ∧
        Rounds s w sources Limits.provisionRounds xs w' ∧
        AlertsExhausted rate p w ((xs.flatMap Round.handlings).map (·.message.payload)) w')
      fun _ _ => True := by
    change Ends (orElseOverflow (provisionAll s p.subscription p.fetching) ProvisionReport.zero >>= fun report =>
      finishSideChannels s p.idle >>= fun _ => pure report) (w.opened p sources) _ _
    refine (((provisionAll_forwards sources hlasts).and hrounds).mono (fun _ _ h => h) fun _ _ _ => trivial).bind ?_
    rintro report w₁ ⟨⟨hforwards, hprompt, -⟩, xs, hreports, hrounds₁, hkeeping⟩
    refine (((finishSideChannels_forwards hforwards).and (finishSideChannels_standing p.idle)).mono
      (fun _ _ h => h) fun _ _ _ => trivial).bind ?_
    rintro _ w' ⟨hbut, hstanding⟩
    obtain ⟨sent, lost, hforwards', -, hlost⟩ := hbut .alerts
    obtain rfl := hlost (hprompt .alerts fun fault hfault => ⟨0, Nat.zero_le _, hatOnce fault hfault⟩)
    have hbegun : Interlude w 0 (w.opened p sources) := ⟨rfl, rfl, fun m => by simp [World.opened]⟩
    have hcourse := ((Course.of_interlude hbegun).append hrounds₁.course).interlude (.of_standing hstanding)
    refine ends_pure ⟨xs, hreports, ⟨by simpa using hcourse, hrounds₁.complete, hrounds₁.sources⟩, ?_⟩
    have halerts := hkeeping.alertsExhausted hstanding hforwards'
    rwa [List.nil_append, List.map_map] at halerts
  rcases hexec : exec (generation s p sources) w with ⟨halt | report, w'⟩
  · refine ⟨.error halt, w', rfl, fun hflows => ((generation_returns hflows hfits).error hexec).elim, ?_⟩
    rintro _ ⟨⟩
  · refine ⟨.ok report, w', rfl, fun _ => ⟨report, rfl⟩, ?_⟩
    rintro _ ⟨⟩
    exact hends.ok hexec

/-- A source with a debit that is delivered twice and a message that cannot be read. -/
def drainingSource : Source :=
  [(some 100, .batch ([debit.payload, [], debit.payload].map fun payload => (payload, Fault.none)))]

/-- The debit leaves nothing when it is posted, and it is posted once. -/
theorem drainingSource_is_alerted_once :
    ((Tab.ofLedger plainWorld.ledger).exhausted Credit.defaultRate [debit.payload, [], debit.payload]).length = 1 ∧
      World.Lasts plainSetup plainWorld ∧ plainWorld.desk.IsCalm ∧
      ∃ result w', exec (generation plainSetup plainPlan [drainingSource]) plainWorld = (result, w') ∧
        (Flows plainSetup plainWorld.faults [drainingSource] → ∃ report, result = .ok report) ∧
        ∀ report, result = .ok report → ∃ xs, report.fetchReports = xs.map Round.report ∧
          Rounds plainSetup plainWorld [drainingSource] Limits.provisionRounds xs w' ∧
          AlertsExhausted Credit.defaultRate plainPlan plainWorld
            ((xs.flatMap Round.handlings).map (·.message.payload)) w' := by
  have hlasts : World.Lasts plainSetup plainWorld := fun last hlast => by cases hlast
  have hcalm : plainWorld.desk.IsCalm := fun _ => rfl
  have hatOnce : ∀ fault ∈ plainWorld.faults.script (.publish plainPlan.alertSubject), fault.delay = some 0 :=
    fun fault hfault => by cases hfault
  have hok : (exec (provisionAll plainSetup plainPlan.subscription plainPlan.fetching)
      (plainWorld.opened plainPlan [drainingSource])).1.isOk = true := by decide +kernel
  have hfits : (exec (provisionAll plainSetup plainPlan.subscription plainPlan.fetching)
      (plainWorld.opened plainPlan [drainingSource])).1 ≠ .error .overflow := by
    intro hoverflow
    rw [hoverflow] at hok
    cases hok
  exact ⟨by decide +kernel, hlasts, hcalm, @generation_alerts_the_exhausting Credit.defaultRate Limits.attemptTimeout
    Limits.idleInterval none plainPlan plainWorld [drainingSource] hlasts hcalm hatOnce (by decide) hfits⟩

end Run

end Connections

end UsageLedger.Delivery
