import UsageLedger.Proofs.Ledger.Keeping
import UsageLedger.Proofs.Ledger.Posting

/-! The ledger in a keyspace answers like the ledger in memory. The two are related when the keyspace holds
what there is to hold for the statements in memory, and each balance counts in micro-credits what the
account in memory has; a call that both are given is answered alike and leaves them related, as long as
what is posted is a whole number of micro-credits and balances stay in 64 bits. -/

namespace UsageLedger.Ledger

variable {σ : Type}

/-- A ledger after calls, the first of them first. -/
def after (serve : Service σ) (calls : List Call) (m : σ) : σ := calls.foldl (fun m call => (serve call m).2) m

theorem after_append (serve : Service σ) (calls more : List Call) (m : σ) :
    after serve (calls ++ more) m = after serve more (after serve calls m) := List.foldl_append

/-- Whether two answers to a call are the same; balances are compared by value. -/
def Agree : (call : Call) → Except Error call.Reply → Except Error call.Reply → Prop
  | .record _, x, y => x = y
  | .find _, x, y => x = y
  | .ensure _, x, y => x = y
  | .create _ _, x, y => x = y
  | .balance _, x, y => x.map Decimal.value = y.map Decimal.value

/-- Whether a call, if it is a posting, posts at its statement's amount, a whole number of micro-credits of
64 bits. -/
def IsWhole (call : Call) : Prop :=
  ∀ s delta, call = .create s delta →
    s.amount.same delta = true ∧ ∃ n : Int64, delta.value = n.toInt / 10 ^ amountPlaces

/-- Whether all balances, counted in micro-credits, are in the range of 64 bits. -/
def IsBounded (m : InMemory) : Prop :=
  ∀ a ∈ m.accounts, -(2 ^ 63) ≤ a.balance.value * 10 ^ amountPlaces ∧
    a.balance.value * 10 ^ amountPlaces < 2 ^ 63

/-- What an account in memory has and what a keyspace holds for it. -/
def SameBalance (account : Option Account) (value : Option Value) : Prop :=
  match account with
  | none => value = none
  | some a => ∃ n : Int64, value = some (.text (balanceText n)) ∧ a.balance.value = n.toInt / 10 ^ amountPlaces

/-- Whether a ledger in a keyspace that refuses nothing stands for a ledger in memory. -/
structure Simulates (k : Keyed) (m : InMemory) : Prop where
  keeps : Keeps k.keys k.store m.statements
  obliging : k.refusing = []
  balances : ∀ user, SameBalance (m.account? user) (k.store.value? (k.keys.balance user))

namespace Keyed

variable {k : Keyed} {m : InMemory}

/-- A command that is not refused is carried out. -/
theorem send_of_obliging {α : Type} (hobliging : k.refusing = []) (c : Command)
    (work : Keyspace → Except Refusal α × Keyspace) :
    k.send c work = ((work k.store).1, ⟨k.keys, (work k.store).2, [], c :: k.sent⟩) := by
  obtain ⟨keys, store, refusing, sent⟩ := k
  obtain rfl : refusing = [] := hobliging
  rfl

theorem simulates_fresh (lead : String) : Simulates (fresh lead) InMemory.empty where
  keeps := keeps_nil fun _ _ => rfl
  obliging := rfl
  balances _ := rfl

theorem record_simulates (h : Simulates k m) (e : Event) :
    (record e k).1 = .ok () ∧ Simulates (record e k).2 (m.record e) := by
  have hpush : ∃ items, k.store.push k.keys.audit (String.ofList e.print) =
      .ok (k.store.put k.keys.audit (.list items)) := by
    rw [Keyspace.push]
    cases hvalue : k.store.value? k.keys.audit with
    | none => exact ⟨_, rfl⟩
    | some v =>
        obtain ⟨items, rfl⟩ := h.keeps.audit v hvalue
        exact ⟨_, rfl⟩
  obtain ⟨items, hpush⟩ := hpush
  unfold record
  rw [send_of_obliging h.obliging, writing, hpush]
  refine ⟨rfl, h.keeps.push hpush, rfl, fun user => ?_⟩
  dsimp only
  rw [Keyspace.value?_put, if_neg (Keys.ne_of_letter (k := k.keys) (by simp))]
  exact h.balances user

theorem find_simulates (h : Simulates k m) (id : Uuid) :
    (find id k).1 = .ok (m.find? id) ∧ Simulates (find id k).2 m := by
  have hstatement := h.keeps.statement id
  unfold find
  rw [send_of_obliging h.obliging]
  dsimp only [reading]
  rw [Keyspace.text?, hstatement]
  change _ ∧ _
  cases hfound : m.statements.find? fun s => s.event == id with
  | none =>
      rw [InMemory.find?, hfound]
      exact ⟨rfl, h.keeps, rfl, h.balances⟩
  | some s =>
      rw [InMemory.find?, hfound]
      refine ⟨?_, h.keeps, rfl, h.balances⟩
      dsimp only [Option.map_some]
      rw [readStatement_print]
      rfl

theorem balance_simulates (h : Simulates k m) (user : String) :
    (balance user k).1.map Decimal.value = (m.balance user).map Decimal.value ∧
      Simulates (balance user k).2 m := by
  have hbalance := h.balances user
  unfold balance InMemory.balance
  rw [send_of_obliging h.obliging]
  dsimp only [reading]
  rw [Keyspace.text?]
  cases haccount : m.account? user with
  | none =>
      rw [haccount] at hbalance
      obtain hbalance : k.store.value? (k.keys.balance user) = none := hbalance
      rw [hbalance]
      exact ⟨rfl, h.keeps, rfl, h.balances⟩
  | some a =>
      rw [haccount] at hbalance
      obtain ⟨n, hvalue, hamount⟩ := hbalance
      rw [hvalue]
      dsimp only
      rw [integer64?_balanceText]
      refine ⟨?_, h.keeps, rfl, h.balances⟩
      dsimp only
      rw [Int64.ofInt_toInt]
      exact congrArg Except.ok ((MicroCredit.value_toDecimal n).trans hamount.symm)

theorem ensure_simulates (h : Simulates k m) (user : String) :
    (ensure user k).1 = .ok () ∧ Simulates (ensure user k).2 (m.ensure user) := by
  have hstatements : (m.ensure user).statements = m.statements := by
    unfold InMemory.ensure
    split <;> rfl
  unfold ensure
  dsimp only
  rw [send_of_obliging h.obliging]
  refine ⟨rfl, by rw [hstatements]; exact h.keeps.putNew user, rfl, fun other => ?_⟩
  dsimp only
  rw [InMemory.account?_ensure, Keyspace.putNew_eq]
  simp only [Keys.balance_eq_iff]
  have huser := h.balances user
  by_cases hother : other = user
  · subst hother
    rw [if_pos rfl]
    cases haccount : m.account? other with
    | none =>
        rw [haccount] at huser
        have hnone : k.store.value? (k.keys.balance other) = none := huser
        rw [hnone, if_pos ⟨rfl, rfl⟩]
        exact ⟨0, by rw [balanceText_zero], by simp [Account.fresh]⟩
    | some a =>
        rw [haccount] at huser
        obtain ⟨n, hvalue, hamount⟩ := huser
        rw [hvalue, if_neg (by simp)]
        exact ⟨n, rfl, hamount⟩
  · rw [if_neg hother, if_neg fun hopened => hother hopened.1]
    exact h.balances other

/-- What the memory makes of a posting to an account with a whole number of micro-credits. -/
theorem create_of_balances {s : Statement} {delta : Decimal} {a : Account} {n micros : Int64}
    (hnew : m.find? s.event = none) (haccount : m.account? s.user = some a)
    (hbalance : a.balance.value = n.toInt / 10 ^ amountPlaces)
    (hmicros : delta.value = micros.toInt / 10 ^ amountPlaces) :
    ∃ m' b, m.create s delta = .ok m' ∧ m'.statements = m.statements ++ [s] ∧
      b.value = ((n.toInt + micros.toInt : Int) : ℚ) / 10 ^ amountPlaces ∧
      ∀ user, m'.account? user = if user = s.user then some ⟨s.user, b⟩ else m.account? user := by
  have hn := n.le_toInt
  have hn' := n.toInt_lt
  have hm := micros.le_toInt
  have hm' := micros.toInt_lt
  obtain ⟨b, hb, hvalue⟩ := Decimal.add?_on_grid hbalance hmicros (by omega)
  obtain ⟨m', hm'⟩ := InMemory.create_of_add? hnew haccount hb
  obtain ⟨-, a', b', ha', hb', hstatements, haccounts⟩ := InMemory.create_eq_ok hm'
  obtain rfl := Option.some.inj (haccount.symm.trans ha')
  obtain rfl := Option.some.inj (hb.symm.trans hb')
  refine ⟨m', b, hm', hstatements, ?_, haccounts⟩
  rw [hvalue, hbalance, hmicros]
  push_cast
  ring

/-- A posting that is a whole number of micro-credits has the same outcome in both ledgers, as long as the
balance after it is in range. -/
theorem create_simulates (h : Simulates k m) {s : Statement} {delta : Decimal} (hwhole : IsWhole (.create s delta))
    (hbounded : IsBounded (InMemory.serve (.create s delta) m).2) :
    (create s delta k).1 = (InMemory.serve (.create s delta) m).1 ∧
      Simulates (create s delta k).2 (InMemory.serve (.create s delta) m).2 := by
  obtain ⟨hsame, micros, hmicros⟩ := hwhole s delta rfl
  have hamount : s.amount.value = micros.toInt / 10 ^ amountPlaces :=
    (Decimal.same_iff_value_eq.1 hsame).trans hmicros
  have hbalance := h.balances s.user
  have hfind : s.event ∉ m.statements.map (·.event) → m.find? s.event = none := by
    intro hnew
    cases hfound : m.find? s.event with
    | none => rfl
    | some t =>
        obtain ⟨ht, hevent⟩ := InMemory.find?_eq_some_iff.1 hfound
        exact absurd (List.mem_map.2 ⟨t, ht, hevent⟩) hnew
  rw [create_of_exact hsame (MicroCredit.exact_of_value hmicros), send_of_obliging h.obliging, script]
  rcases h.keeps.postScript_cases s micros with
    ⟨hold, hr⟩ | ⟨hnew, hnone, hr⟩ | ⟨hnew, n, hn, hr⟩
  · obtain ⟨t, ht, hevent⟩ := List.mem_map.1 hold
    have hduplicate : m.create s delta = .error (.duplicateEvent s.event) :=
      InMemory.create_of_find? (InMemory.find?_eq_some_iff.2 ⟨ht, hevent⟩)
    rw [hr, serve_create_error hduplicate]
    exact ⟨rfl, h.keeps, rfl, h.balances⟩
  · have haccount : m.account? s.user = none := by
      cases haccount : m.account? s.user with
      | none => rfl
      | some a =>
          rw [haccount] at hbalance
          obtain ⟨n, hvalue, -⟩ := hbalance
          rw [hnone] at hvalue
          cases hvalue
    rw [hr, serve_create_error (InMemory.create_of_account? (hfind hnew) haccount)]
    exact ⟨rfl, h.keeps, rfl, h.balances⟩
  · obtain ⟨a, haccount, hvalue⟩ : ∃ a, m.account? s.user = some a ∧
        a.balance.value = n.toInt / 10 ^ amountPlaces := by
      cases haccount : m.account? s.user with
      | none =>
          rw [haccount] at hbalance
          rw [show k.store.value? (k.keys.balance s.user) = none from hbalance] at hn
          cases hn
      | some a =>
          rw [haccount] at hbalance
          obtain ⟨n', hn', hvalue⟩ := hbalance
          obtain rfl := balanceText_injective (Value.text.inj (Option.some.inj (hn.symm.trans hn')))
          exact ⟨a, rfl, hvalue⟩
    obtain ⟨m', b, hcreate, hstatements, hb, haccounts⟩ :=
      create_of_balances (hfind hnew) haccount hvalue hmicros
    have hrange : -(2 ^ 63) ≤ n.toInt + micros.toInt ∧ n.toInt + micros.toInt < 2 ^ 63 := by
      have hmem : (⟨s.user, b⟩ : Account) ∈ m'.accounts :=
        (InMemory.account?_eq_some_iff.1 ((haccounts s.user).trans (if_pos rfl))).1
      rw [serve_create_eq hcreate] at hbounded
      obtain ⟨hlow, hhigh⟩ := hbounded _ hmem
      rw [hb, div_mul_cancel₀ _ (by positivity)] at hlow hhigh
      exact ⟨by exact_mod_cast hlow, by exact_mod_cast hhigh⟩
    rw [serve_create_eq hcreate]
    rcases hr with ⟨hover, -⟩ | ⟨-, members, hindex, hr⟩
    · exact absurd hrange hover
    · rw [hr]
      refine ⟨rfl, by rw [hstatements]; exact h.keeps.post hnew hindex hn hamount hrange.1 hrange.2, rfl,
        fun user => ?_⟩
      dsimp only
      rw [value?_written_balance, haccounts]
      by_cases huser : user = s.user
      · rw [if_pos huser, if_pos huser]
        exact ⟨_, rfl, by rw [toInt_ofInt_add hrange.1 hrange.2]; exact hb⟩
      · rw [if_neg huser, if_neg huser]
        exact h.balances user

/-- A call is answered alike by both ledgers and leaves them related. -/
theorem serve_simulates (h : Simulates k m) {call : Call} (hwhole : IsWhole call)
    (hbounded : IsBounded (InMemory.serve call m).2) :
    Agree call (serve call k).1 (InMemory.serve call m).1 ∧
      Simulates (serve call k).2 (InMemory.serve call m).2 := by
  cases call with
  | record e => exact record_simulates h e
  | find id => exact find_simulates h id
  | ensure user => exact ensure_simulates h user
  | create s delta => exact create_simulates h hwhole hbounded
  | balance user => exact balance_simulates h user

theorem after_simulates (h : Simulates k m) {calls : List Call} (hwhole : ∀ call ∈ calls, IsWhole call)
    (hbounded : ∀ before rest, calls = before ++ rest → IsBounded (after InMemory.serve before m)) :
    Simulates (after serve calls k) (after InMemory.serve calls m) := by
  induction calls generalizing k m with
  | nil => exact h
  | cons call calls ih =>
      have hstep := (serve_simulates h (hwhole call List.mem_cons_self) (hbounded [call] calls rfl)).2
      refine ih hstep (fun c hc => hwhole c (List.mem_cons_of_mem call hc)) fun before rest hsplit => ?_
      exact hbounded (call :: before) rest (by rw [hsplit]; rfl)

/-- At each of the calls, the ledgers are related before it and answer it alike. -/
theorem agree_at (lead : String) {calls : List Call} (hwhole : ∀ call ∈ calls, IsWhole call)
    (hbounded : ∀ before rest, calls = before ++ rest → IsBounded (after InMemory.serve before InMemory.empty))
    {before : List Call} {call : Call} {rest : List Call} (hcall : calls = before ++ call :: rest) :
    Agree call (serve call (after serve before (fresh lead))).1
      (InMemory.serve call (after InMemory.serve before InMemory.empty)).1 := by
  have hsimulates : Simulates (after serve before (fresh lead)) (after InMemory.serve before InMemory.empty) := by
    refine after_simulates (simulates_fresh lead) (fun c hc => hwhole c ?_) fun first more hsplit => ?_
    · rw [hcall]
      exact List.mem_append_left _ hc
    · exact hbounded first (more ++ call :: rest) (by rw [hcall, hsplit, List.append_assoc])
  have hmem : call ∈ calls := by rw [hcall]; exact List.mem_append_right _ List.mem_cons_self
  have hnext := hbounded (before ++ [call]) rest (by rw [hcall, List.append_assoc]; rfl)
  rw [after_append] at hnext
  exact (serve_simulates hsimulates (hwhole call hmem) hnext).1

end Keyed

/-- A ledger in a keyspace and one in memory, both empty at first and given the same calls, answer each of
them alike, a posting of an event with a statement as a duplicate whatever else is wrong with it. -/
theorem keyed_simulates_inMemory (lead : String) {calls : List Call} (hwhole : ∀ call ∈ calls, IsWhole call)
    (hbounded : ∀ before rest, calls = before ++ rest → IsBounded (after InMemory.serve before InMemory.empty))
    (before : List Call) (call : Call) (rest : List Call) (hcall : calls = before ++ call :: rest) :
    let k := after Keyed.serve before (Keyed.fresh lead)
    let m := after InMemory.serve before InMemory.empty
    Agree call (Keyed.serve call k).1 (InMemory.serve call m).1 ∧
      ∀ s delta, call = .create s delta → (m.find? s.event).isSome = true →
        (Keyed.serve (.create s delta) k).1 = .error (.duplicateEvent s.event) ∧
          (InMemory.serve (.create s delta) m).1 = .error (.duplicateEvent s.event) := by
  intro k m
  have hagree : Agree call (Keyed.serve call k).1 (InMemory.serve call m).1 :=
    Keyed.agree_at lead hwhole hbounded hcall
  refine ⟨hagree, ?_⟩
  rintro s delta rfl hold
  obtain ⟨t, ht⟩ := Option.isSome_iff_exists.1 hold
  have hduplicate : (InMemory.serve (.create s delta) m).1 = .error (.duplicateEvent s.event) := by
    rw [serve_create_error (InMemory.create_of_find? ht)]
  exact ⟨Eq.trans hagree hduplicate, hduplicate⟩

/-- Two and a half credits, written with two places more than micro-credits have. -/
def deposit : Statement where
  event := ⟨1⟩
  user := "u"
  value := Decimal.zero
  amount := ⟨250000000, 8, by decide, by decide⟩
  scene := .reserve
  operator := 0
  customer := "c"
  eventDate := Instant.epoch
  price := ""
  priceUnit := ""
  consumption := Decimal.zero
  duration := ""
  createdAt := Instant.epoch

/-- The deposit is posted twice. -/
def deposits : List Call :=
  [.ensure "u", .create deposit deposit.amount, .create deposit deposit.amount, .balance "u"]

theorem isWhole_of_amount {s : Statement} (hamount : s.amount = deposit.amount) :
    IsWhole (.create s s.amount) := by
  rintro _ _ ⟨rfl, rfl⟩
  refine ⟨Decimal.same_iff_value_eq.2 rfl, 2500000, ?_⟩
  rw [hamount, Decimal.value, deposit, show Int64.toInt 2500000 = 2500000 from rfl, amountPlaces]
  norm_num

theorem isWhole_of_mem_deposits : ∀ call ∈ deposits, IsWhole call := by
  simp only [deposits, List.forall_mem_cons, List.not_mem_nil, false_implies, implies_true, and_true]
  exact ⟨(fun _ _ heq => nomatch heq), isWhole_of_amount rfl, isWhole_of_amount rfl, (fun _ _ heq => nomatch heq)⟩

theorem isBounded_of_deposits : ∀ before rest, deposits = before ++ rest →
    IsBounded (after InMemory.serve before InMemory.empty) := by
  intro before rest hsplit
  have hprefix : before ∈ deposits.inits := (List.mem_inits _ _).2 ⟨rest, hsplit.symm⟩
  have hall : ∀ before ∈ deposits.inits, ∀ a ∈ (after InMemory.serve before InMemory.empty).accounts,
      -(2 ^ 63) ≤ a.balance.value * 10 ^ amountPlaces ∧ a.balance.value * 10 ^ amountPlaces < 2 ^ 63 := by
    decide +kernel
  exact hall before hprefix

theorem deposits_answered_alike :
    (∀ call ∈ deposits, IsWhole call) ∧
      (∀ before rest, deposits = before ++ rest → IsBounded (after InMemory.serve before InMemory.empty)) ∧
      Agree (.create deposit deposit.amount)
        (Keyed.serve (.create deposit deposit.amount)
          (after Keyed.serve [.ensure "u", .create deposit deposit.amount] (Keyed.fresh "tally"))).1
        (InMemory.serve (.create deposit deposit.amount)
          (after InMemory.serve [.ensure "u", .create deposit deposit.amount] InMemory.empty)).1 ∧
      Agree (.balance "u")
        (Keyed.serve (.balance "u") (after Keyed.serve (deposits.take 3) (Keyed.fresh "tally"))).1
        (InMemory.serve (.balance "u") (after InMemory.serve (deposits.take 3) InMemory.empty)).1 :=
  ⟨isWhole_of_mem_deposits, isBounded_of_deposits,
    (keyed_simulates_inMemory "tally" isWhole_of_mem_deposits isBounded_of_deposits
      [.ensure "u", .create deposit deposit.amount] _ [.balance "u"] rfl).1,
    (keyed_simulates_inMemory "tally" isWhole_of_mem_deposits isBounded_of_deposits
      (deposits.take 3) _ [] rfl).1⟩

end UsageLedger.Ledger
