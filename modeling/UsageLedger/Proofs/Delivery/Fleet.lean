import Mathlib.Logic.Function.Basic
import UsageLedger.Proofs.Delivery.Billing
import UsageLedger.Proofs.Delivery.Surroundings
import UsageLedger.Proofs.Ledger.Scripting

/-! Fleets: any number of consumers that share one ledger. Whose turn it is and how each request goes is
decided from outside, move by move, and every request is one step, so that the requests of different
consumers come in any order. A call that was given up unexecuted may still be executed, once, at any later
move. What crosses over to the ledger is written down with the ledger that it found. -/

namespace UsageLedger.Delivery

open Ledger Program

/-- The consumers of a fleet: how their ledger answers, and for each its rate, the bound of its attempts and
what is delivered to it, in order. -/
structure FleetSetup (ι σ : Type) where
  serve : Service σ
  rate : ι → Decimal
  attemptTimeout : ι → Nat
  deliveries : ι → List Text.Bytes

/-- A settlement under way: how many requests it has made and what is left of it. -/
structure Handling where
  asked : Nat
  rest : Program Settlement

/-- A consumer: the settlements of its first deliveries, and the settlement of the next one if it has it in
hand. -/
structure Worker where
  finished : List Settlement
  hand : Option Handling

/-- A call that was made on the ledger: by which consumer and on which of its deliveries, or late; how it
was treated and the ledger that it found. -/
structure Crossing (ι σ : Type) where
  caller? : Option (ι × Nat)
  call : Call
  treatment : Treatment
  found : σ

/-- The state of a fleet. Abandoned calls and crossings stand with the newest first. -/
structure Fleet (ι σ : Type) where
  ledger : σ
  workers : ι → Worker
  abandoned : List Call
  crossings : List (Crossing ι σ)

/-- How the request of a turn goes, whichever it is. -/
structure Chance where
  treatment : Treatment
  instant : Instant
  handoff : Except Rejection Unit
  acknowledgement : Except Error Unit

/-- A move: the turn of a consumer, or an abandoned call that is executed late. -/
inductive Move (ι : Type)
  | turn (i : ι) (chance : Chance)
  | late (n : Nat)

namespace Chance

variable {σ : Type} (serve : Service σ) (chance : Chance) (m : σ)

def answer : (r : Request) → r.Answer
  | .time => chance.instant
  | .bound _ => ()
  | .ledger call => chance.treatment.answer serve call m
  | .alert _ => chance.handoff
  | .letter _ => chance.handoff
  | .acknowledge => chance.acknowledgement
  | .count _ => ()

def ledger : Request → σ
  | .ledger call => chance.treatment.ledger serve call m
  | _ => m

/-- The call that a request leaves abandoned, if it does. -/
def abandoned : Request → List Call
  | .ledger call =>
    match chance.treatment with
    | .dropped => [call]
    | _ => []
  | _ => []

def crossing {ι : Type} (who : ι × Nat) : Request → List (Crossing ι σ)
  | .ledger call => [⟨some who, call, chance.treatment, m⟩]
  | _ => []

variable {serve chance m} {ι : Type} {who : ι × Nat} {r : Request}

theorem of_mem_abandoned {call : Call} (h : call ∈ chance.abandoned r) : r = .ledger call := by
  cases r with
  | ledger other =>
      simp only [abandoned] at h
      split at h
      · rw [List.mem_singleton.1 h]
      · cases h
  | _ => cases h

theorem of_mem_crossing {c : Crossing ι σ} (h : c ∈ chance.crossing m who r) :
    r = .ledger c.call ∧ c = ⟨some who, c.call, chance.treatment, m⟩ := by
  cases r with
  | ledger call =>
      obtain rfl := List.mem_singleton.1 h
      exact ⟨rfl, rfl⟩
  | _ => cases h

end Chance

variable {ι σ : Type} [DecidableEq ι]

namespace Fleet

def put (f : Fleet ι σ) (i : ι) (worker : Worker) : Fleet ι σ :=
  { f with workers := Function.update f.workers i worker }

/-- The fleet after a request of a consumer. -/
def ask (s : FleetSetup ι σ) (i : ι) (chance : Chance) (asked : Nat) (r : Request)
    (next : r.Answer → Program Settlement) (f : Fleet ι σ) : Fleet ι σ where
  ledger := chance.ledger s.serve f.ledger r
  workers := Function.update f.workers i
    ⟨(f.workers i).finished, some ⟨asked + 1, next (chance.answer s.serve f.ledger r)⟩⟩
  abandoned := chance.abandoned r ++ f.abandoned
  crossings := chance.crossing f.ledger (i, (f.workers i).finished.length) r ++ f.crossings

/-- The turn of a consumer: it takes its next delivery, makes a request or is done with the delivery in
hand. A settlement that has overflowed stays where it is. -/
def turn (s : FleetSetup ι σ) (i : ι) (chance : Chance) (f : Fleet ι σ) : Fleet ι σ :=
  match (f.workers i).hand with
  | none =>
    match (s.deliveries i)[(f.workers i).finished.length]? with
    | none => f
    | some payload =>
      f.put i ⟨(f.workers i).finished, some ⟨0, settlement (s.rate i) (s.attemptTimeout i) payload⟩⟩
  | some ⟨_, .done t⟩ => f.put i ⟨(f.workers i).finished ++ [t], none⟩
  | some ⟨_, .overflow⟩ => f
  | some ⟨asked, .ask r next⟩ => f.ask s i chance asked r next

/-- An abandoned call is executed after all; nobody waits for its answer. -/
def late (s : FleetSetup ι σ) (n : Nat) (f : Fleet ι σ) : Fleet ι σ :=
  match f.abandoned[n]? with
  | none => f
  | some call =>
    { f with
      ledger := (s.serve call f.ledger).2
      abandoned := f.abandoned.eraseIdx n
      crossings := ⟨none, call, .overdue, f.ledger⟩ :: f.crossings }

def next (s : FleetSetup ι σ) (f : Fleet ι σ) : Move ι → Fleet ι σ
  | .turn i chance => f.turn s i chance
  | .late n => f.late s n

def after (s : FleetSetup ι σ) (f : Fleet ι σ) : List (Move ι) → Fleet ι σ
  | [] => f
  | move :: before => (f.after s before).next s move

end Fleet

def FleetSetup.start (_ : FleetSetup ι σ) (m : σ) : Fleet ι σ := ⟨m, fun _ => ⟨[], none⟩, [], []⟩

variable {s : FleetSetup ι σ} {f f' : Fleet ι σ}

/-! ### What one move can do -/

inductive Fleet.Step (s : FleetSetup ι σ) (f : Fleet ι σ) : Fleet ι σ → Prop
  | rest : Step s f f
  | take {i : ι} {payload : Text.Bytes} (hhand : (f.workers i).hand = none)
      (hpayload : (s.deliveries i)[(f.workers i).finished.length]? = some payload) :
      Step s f
        (f.put i ⟨(f.workers i).finished, some ⟨0, settlement (s.rate i) (s.attemptTimeout i) payload⟩⟩)
  | finish {i : ι} {asked : Nat} {t : Settlement} (hhand : (f.workers i).hand = some ⟨asked, .done t⟩) :
      Step s f (f.put i ⟨(f.workers i).finished ++ [t], none⟩)
  | ask {i : ι} {asked : Nat} {r : Request} {next : r.Answer → Program Settlement} (chance : Chance)
      (hhand : (f.workers i).hand = some ⟨asked, .ask r next⟩) : Step s f (f.ask s i chance asked r next)
  | late {n : Nat} {call : Call} (hcall : f.abandoned[n]? = some call) :
      Step s f { f with
        ledger := (s.serve call f.ledger).2
        abandoned := f.abandoned.eraseIdx n
        crossings := ⟨none, call, .overdue, f.ledger⟩ :: f.crossings }

theorem Fleet.next_step (s : FleetSetup ι σ) (f : Fleet ι σ) (move : Move ι) : f.Step s (f.next s move) := by
  cases move with
  | turn i chance =>
      change f.Step s (f.turn s i chance)
      unfold turn
      split
      · rename_i hhand
        split
        · exact .rest
        · rename_i payload hpayload
          exact .take hhand hpayload
      · rename_i hhand
        exact .finish hhand
      · exact .rest
      · rename_i hhand
        exact .ask chance hhand
  | late n =>
      change f.Step s (f.late s n)
      unfold late
      split
      · exact .rest
      · rename_i call hcall
        exact .late hcall

theorem Fleet.after_induction (kept : Fleet ι σ → Prop) (hf : kept f)
    (hstep : ∀ f f', kept f → Fleet.Step s f f' → kept f') (moves : List (Move ι)) :
    kept (f.after s moves) := by
  induction moves with
  | nil => exact hf
  | cons move before ih => exact hstep _ _ ih (Fleet.next_step s _ move)

/-! ### What consumers may call -/

def Worker.begun (w : Worker) : Nat := w.finished.length + w.hand.toList.length

theorem Fleet.Step.begun_le (h : f.Step s f') (i : ι) : (f.workers i).begun ≤ (f'.workers i).begun := by
  cases h with
  | rest => exact le_rfl
  | @take j payload hhand hpayload =>
      by_cases hij : i = j
      · subst hij
        simp [Fleet.put, Worker.begun, hhand]
      · simp [Fleet.put, hij]
  | @finish j asked t hhand =>
      by_cases hij : i = j
      · subst hij
        simp [Fleet.put, Worker.begun, hhand]
      · simp [Fleet.put, hij]
  | @ask j asked r next chance hhand =>
      by_cases hij : i = j
      · subst hij
        simp [Fleet.ask, Worker.begun, hhand]
      · simp [Fleet.ask, hij]
  | late hcall => exact le_rfl

def mostRequests : Nat := 13 * Limits.attempts + 3

/-- Whether a settlement under way is what is left of settling a payload. -/
def Handling.Settles (rate : Decimal) (payload : Text.Bytes) (h : Handling) : Prop :=
  h.rest.Meets anyhow (.plain (SettlementAsks rate payload) (fun _ => True) (Overflows rate payload)) () ∧
    h.asked ≤ mostRequests ∧ h.rest.AsksAtMost (mostRequests - h.asked)

/-- Whether a call is made for a delivery. -/
def FleetSetup.Makes (s : FleetSetup ι σ) (who : ι × Nat) (call : Call) : Prop :=
  ∃ payload, (s.deliveries who.1)[who.2]? = some payload ∧ Bills (s.rate who.1) payload call

/-- Consumers keep to their deliveries, and so do the calls that are abandoned and those that are made. -/
structure Fleet.IsLawful (s : FleetSetup ι σ) (f : Fleet ι σ) : Prop where
  hands : ∀ i h, (f.workers i).hand = some h →
    ∃ payload, (s.deliveries i)[(f.workers i).finished.length]? = some payload ∧
      h.Settles (s.rate i) payload
  abandoned : ∀ call ∈ f.abandoned, ∃ who, s.Makes who call
  calls : ∀ c ∈ f.crossings, ∃ who, s.Makes who c.call
  callers : ∀ c ∈ f.crossings, ∀ who, c.caller? = some who →
    s.Makes who c.call ∧ who.2 < (f.workers who.1).begun
  overdue : ∀ c ∈ f.crossings, c.caller? = none → c.treatment = .overdue

omit [DecidableEq ι] in
theorem Fleet.isLawful_start (s : FleetSetup ι σ) (m : σ) : (s.start m).IsLawful s where
  hands _ _ h := by cases h
  abandoned _ h := by cases h
  calls _ h := by cases h
  callers _ h := by cases h
  overdue _ h := by cases h

theorem settles_settlement (rate : Decimal) (bound : Nat) (payload : Text.Bytes) :
    Handling.Settles rate payload ⟨0, settlement rate bound payload⟩ :=
  ⟨settlement_meets rate bound payload, Nat.zero_le _, settlement_asksAtMost rate bound payload⟩

theorem Handling.Settles.next {rate : Decimal} {payload : Text.Bytes} {asked : Nat} {r : Request}
    {next : r.Answer → Program Settlement} (h : Settles rate payload ⟨asked, .ask r next⟩) (a : r.Answer) :
    SettlementAsks rate payload r ∧ Settles rate payload ⟨asked + 1, next a⟩ := by
  obtain ⟨⟨hask, hnext⟩, hasked, hmost⟩ := h
  refine ⟨hask, hnext a () trivial, ?_⟩
  dsimp only at hasked hmost ⊢
  rcases hleft : mostRequests - asked with _ | left
  · rw [hleft] at hmost
    exact hmost.elim
  · rw [hleft] at hmost
    refine ⟨by omega, ?_⟩
    rw [show mostRequests - (asked + 1) = left by omega]
    exact hmost a

theorem Fleet.Step.isLawful (h : f.Step s f') (hf : f.IsLawful s) : f'.IsLawful s := by
  have hcallers : ∀ c ∈ f.crossings, ∀ who, c.caller? = some who →
      s.Makes who c.call ∧ who.2 < (f'.workers who.1).begun := by
    intro c hc who hwho
    obtain ⟨hmakes, hlt⟩ := hf.callers c hc who hwho
    exact ⟨hmakes, hlt.trans_le (h.begun_le who.1)⟩
  cases h with
  | rest => exact hf
  | @take i payload hhand hpayload =>
      refine ⟨?_, hf.abandoned, hf.calls, hcallers, hf.overdue⟩
      intro j h hj
      by_cases hji : j = i
      · subst hji
        simp only [put, Function.update_self, Option.some.injEq] at hj ⊢
        subst hj
        exact ⟨payload, hpayload, settles_settlement _ _ _⟩
      · simp only [put, Function.update_of_ne hji] at hj ⊢
        exact hf.hands j h hj
  | @finish i asked t hhand =>
      refine ⟨?_, hf.abandoned, hf.calls, hcallers, hf.overdue⟩
      intro j h hj
      by_cases hji : j = i
      · subst hji
        simp [put] at hj
      · simp only [put, Function.update_of_ne hji] at hj ⊢
        exact hf.hands j h hj
  | @ask i asked r next chance hhand =>
      obtain ⟨payload, hpayload, hsettles⟩ := hf.hands i _ hhand
      have hmakes : ∀ call, r = .ledger call → s.Makes (i, (f.workers i).finished.length) call := by
        rintro call rfl
        exact ⟨payload, hpayload, hsettles.1.1⟩
      refine ⟨?_, ?_, ?_, ?_, ?_⟩
      · intro j h hj
        by_cases hji : j = i
        · subst hji
          simp only [Fleet.ask, Function.update_self, Option.some.injEq] at hj ⊢
          subst hj
          exact ⟨payload, hpayload, (hsettles.next _).2⟩
        · simp only [Fleet.ask, Function.update_of_ne hji] at hj ⊢
          exact hf.hands j h hj
      · intro call hcall
        rcases List.mem_append.1 hcall with hnew | hold
        · exact ⟨_, hmakes call (Chance.of_mem_abandoned hnew)⟩
        · exact hf.abandoned call hold
      · intro c hc
        rcases List.mem_append.1 hc with hnew | hold
        · exact ⟨_, hmakes c.call (Chance.of_mem_crossing hnew).1⟩
        · exact hf.calls c hold
      · intro c hc who hwho
        rcases List.mem_append.1 hc with hnew | hold
        · obtain ⟨hr, hcrossing⟩ := Chance.of_mem_crossing hnew
          rw [hcrossing] at hwho
          obtain rfl := Option.some.inj hwho
          refine ⟨hmakes c.call hr, ?_⟩
          simp [Fleet.ask, Worker.begun]
        · exact hcallers c hold who hwho
      · intro c hc hcaller
        rcases List.mem_append.1 hc with hnew | hold
        · rw [(Chance.of_mem_crossing hnew).2] at hcaller
          cases hcaller
        · exact hf.overdue c hold hcaller
  | @late n call hcall =>
      refine ⟨hf.hands, ?_, ?_, ?_, ?_⟩
      · intro other hother
        exact hf.abandoned other (List.mem_of_mem_eraseIdx hother)
      · rintro c (_ | ⟨_, hc⟩)
        · exact hf.abandoned call (List.mem_of_getElem? hcall)
        · exact hf.calls c hc
      · rintro c (_ | ⟨_, hc⟩) who hwho
        · cases hwho
        · exact hcallers c hc who hwho
      · rintro c (_ | ⟨_, hc⟩) hcaller
        · rfl
        · exact hf.overdue c hc hcaller

/-! ### What is posted -/

/-- The statement that a call posted, if it did. -/
def Crossing.posting? (serve : Service σ) (c : Crossing ι σ) : Option Statement :=
  if c.treatment.executes then c.call.posting? serve c.found else none

/-- The statements that were posted since the fleet began, the newest first. -/
def Fleet.posted (s : FleetSetup ι σ) (f : Fleet ι σ) : List Statement :=
  f.crossings.filterMap (Crossing.posting? s.serve)

/-- Whether every call that was executed moved its user's holding by its delta. -/
def Fleet.IsExact (books : Books s.serve) (f : Fleet ι σ) : Prop :=
  ∀ c ∈ f.crossings, c.treatment.executes → books.IsExact c.call c.found

/-- The books of a fleet that began with the ledger `m`: what is stored is what was and what was posted, no
event was posted twice or in spite of an old statement, and holdings have moved by what was posted. -/
structure Fleet.Accounts (books : Books s.serve) (m : σ) (f : Fleet ι σ) : Prop where
  sound : books.sound f.ledger
  found : ∀ c ∈ f.crossings, books.sound c.found
  has : ∀ id, books.has f.ledger id ↔ books.has m id ∨ ∃ t ∈ f.posted s, t.event = id
  once : ((f.posted s).map (·.event)).Nodup
  fresh : ∀ t ∈ f.posted s, ¬books.has m t.event
  stores : ∀ x, books.stores f.ledger x ↔ books.stores m x ∨ ∃ t ∈ f.posted s, books.entry t = x
  holding : f.IsExact books → ∀ user,
    books.holding f.ledger user = books.holding m user + billed (f.posted s) user

omit [DecidableEq ι] in
/-- A call on the ledger, however it is treated, leaves the books in order. -/
theorem Fleet.Accounts.cross {books : Books s.serve} {m : σ} {call : Call} {treatment : Treatment}
    (hf : f.Accounts books m) (hdelta : ∀ t delta, call = .create t delta → delta = t.amount)
    (hledger : f'.ledger = treatment.ledger s.serve call f.ledger) {caller? : Option (ι × Nat)}
    (hcrossings : f'.crossings = ⟨caller?, call, treatment, f.ledger⟩ :: f.crossings) :
    f'.Accounts books m := by
  have hposted : f'.posted s = (Crossing.posting? s.serve (⟨caller?, call, treatment, f.ledger⟩ :
      Crossing ι σ)).toList ++ f.posted s := by
    rw [posted, hcrossings, List.filterMap_cons]
    cases Crossing.posting? s.serve (⟨caller?, call, treatment, f.ledger⟩ : Crossing ι σ) <;> rfl
  have hfound : ∀ c ∈ f'.crossings, books.sound c.found := by
    rw [hcrossings]
    rintro c (_ | ⟨_, hc⟩)
    · exact hf.sound
    · exact hf.found c hc
  cases hexecutes : treatment.executes with
  | false =>
      have hsame : f'.ledger = f.ledger := by
        rw [hledger, Treatment.ledger, hexecutes]
        rfl
      rw [Crossing.posting?, hexecutes] at hposted
      have hall : f'.posted s = f.posted s := hposted
      refine ⟨?_, hfound, ?_, ?_, ?_, ?_, ?_⟩
      · rw [hsame]
        exact hf.sound
      · rw [hsame, hall]
        exact hf.has
      · rw [hall]
        exact hf.once
      · rw [hall]
        exact hf.fresh
      · rw [hsame, hall]
        exact hf.stores
      · intro hexact
        rw [hsame, hall]
        refine hf.holding fun c hc => hexact c ?_
        rw [hcrossings]
        exact List.mem_cons_of_mem _ hc
  | true =>
      have hserved : f'.ledger = (s.serve call f.ledger).2 := by
        rw [hledger, Treatment.ledger, hexecutes]
        rfl
      rw [Crossing.posting?, hexecutes] at hposted
      have hall : f'.posted s = (call.posting? s.serve f.ledger).toList ++ f.posted s := hposted
      refine ⟨?_, hfound, ?_, ?_, ?_, ?_, ?_⟩
      · rw [hserved]
        exact books.sound_serve call hf.sound
      · intro id
        rw [hserved, books.has_serve call id hf.sound, hf.has, hall]
        simp only [List.mem_append, Option.mem_toList, or_and_right, exists_or]
        rw [or_assoc, or_comm (b := ∃ t, call.posting? s.serve f.ledger = some t ∧ t.event = id)]
      · rw [hall]
        cases hposting : call.posting? s.serve f.ledger with
        | none => exact hf.once
        | some t =>
            refine List.nodup_cons.2 ⟨fun hmem => ?_, hf.once⟩
            obtain ⟨t', ht', hevent⟩ := List.mem_map.1 hmem
            exact books.not_has_of_posting hf.sound hposting ((hf.has t.event).2 (.inr ⟨t', ht', hevent⟩))
      · rw [hall]
        intro t ht
        rcases List.mem_append.1 ht with hnew | hold
        · intro hhas
          refine books.not_has_of_posting hf.sound (Option.mem_toList.1 hnew) ?_
          exact (hf.has t.event).2 (.inl hhas)
        · exact hf.fresh t hold
      · intro x
        rw [hserved, books.stores_serve call x hf.sound, hf.stores, hall]
        simp only [List.mem_append, Option.mem_toList, or_and_right, exists_or]
        rw [or_assoc, or_comm (b := ∃ t, call.posting? s.serve f.ledger = some t ∧ books.entry t = x)]
      · intro hexact user
        have hbefore : f.IsExact books := by
          intro c hc
          refine hexact c ?_
          rw [hcrossings]
          exact List.mem_cons_of_mem _ hc
        have hcall : books.IsExact call f.ledger := by
          refine hexact ⟨caller?, call, treatment, f.ledger⟩ ?_ hexecutes
          rw [hcrossings]
          exact List.mem_cons_self
        rw [hserved, hall, books.holding_of_isExact hf.sound hcall hdelta, hf.holding hbefore, billed_append]
        ring

theorem Fleet.Step.accounts {books : Books s.serve} {m : σ} (h : f.Step s f') (hlawful : f.IsLawful s)
    (hf : f.Accounts books m) : f'.Accounts books m := by
  cases h with
  | rest => exact hf
  | take hhand hpayload => exact ⟨hf.sound, hf.found, hf.has, hf.once, hf.fresh, hf.stores, hf.holding⟩
  | finish hhand => exact ⟨hf.sound, hf.found, hf.has, hf.once, hf.fresh, hf.stores, hf.holding⟩
  | @ask i asked r next chance hhand =>
      obtain ⟨payload, -, hsettles⟩ := hlawful.hands i _ hhand
      cases r with
      | ledger call =>
          have hbills : Bills (s.rate i) payload call := hsettles.1.1
          exact hf.cross (fun t delta heq => (hbills t delta heq).2) rfl rfl
      | _ => exact ⟨hf.sound, hf.found, hf.has, hf.once, hf.fresh, hf.stores, hf.holding⟩
  | @late n call hcall =>
      obtain ⟨who, payload, -, hbills⟩ := hlawful.abandoned call (List.mem_of_getElem? hcall)
      exact hf.cross (fun t delta heq => (hbills t delta heq).2) rfl rfl

omit [DecidableEq ι] in
theorem Fleet.accounts_start {books : Books s.serve} {m : σ} (hsound : books.sound m) :
    (s.start m).Accounts books m where
  sound := hsound
  found _ h := by cases h
  has id := by simp [FleetSetup.start, posted]
  once := List.nodup_nil
  fresh _ h := by cases h
  stores x := by simp [FleetSetup.start, posted]
  holding _ user := by
    change books.holding m user = books.holding m user + billed [] user
    simp

/-- Whatever the moves, the fleet is lawful and its books are in order. -/
theorem Fleet.isLawful_and_accounts (books : Books s.serve) {m : σ} (hsound : books.sound m)
    (moves : List (Move ι)) :
    ((s.start m).after s moves).IsLawful s ∧ ((s.start m).after s moves).Accounts books m :=
  after_induction (fun f => f.IsLawful s ∧ f.Accounts books m)
    ⟨isLawful_start s m, accounts_start hsound⟩
    (fun _ _ hf h => ⟨h.isLawful hf.1, h.accounts hf.1 hf.2⟩) moves

/-- On a ledger in a keyspace every posting is exact, so that users hold what they were billed. -/
theorem keyed_fleet_bills_exactly_once (rate : ι → Decimal) (attemptTimeout : ι → Nat)
    (deliveries : ι → List Text.Bytes) (lead : String) (moves : List (Move ι)) :
    let s : FleetSetup ι Keyed := ⟨Keyed.serve, rate, attemptTimeout, deliveries⟩
    let f := (s.start (Keyed.fresh lead)).after s moves
    ((f.posted s).map (·.event)).Nodup ∧ ∀ user, f.ledger.holding user = billed (f.posted s) user := by
  intro s f
  have hsets : (Keyed.fresh lead).HasSets := fun _ => .inl rfl
  have haccounts : f.Accounts (s := s) Keyed.books (Keyed.fresh lead) :=
    (Fleet.isLawful_and_accounts (s := s) Keyed.books hsets moves).2
  refine ⟨haccounts.once, fun user => ?_⟩
  have hholding := haccounts.holding (fun c hc _ => Keyed.isExact (haccounts.found c hc) c.call) user
  have hnothing : (Keyed.fresh lead).holding user = 0 := by
    have hzero : Keyspace.integer? "0" = some 0 := by decide +kernel
    have hnumber : (Keyed.fresh lead).store.number? ((Keyed.fresh lead).keys.balance user) = some 0 := hzero
    simp [Keyed.holding, hnumber]
  rw [show Keyed.books.holding f.ledger user = f.ledger.holding user from rfl,
    show Keyed.books.holding (Keyed.fresh lead) user = (Keyed.fresh lead).holding user from rfl,
    hnothing, zero_add] at hholding
  exact hholding

end UsageLedger.Delivery
