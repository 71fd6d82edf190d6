import UsageLedger.Ledger.InMemory
import UsageLedger.Proofs.Decimal.Value
import UsageLedger.Proofs.Ledger.Books

/-! What a call does to the ledger in memory. Only a posting adds a statement, and it adds the one it was
asked for; statements and accounts never go away; and an exact posting moves its user's balance by its
delta and nobody else's. -/

namespace UsageLedger.Ledger

namespace InMemory

variable {m m' m'' : InMemory}

/-! ### Statements and accounts by key -/

theorem find?_eq_some_iff {id : Uuid} {s : Statement} :
    m.find? id = some s ↔ s ∈ m.statements ∧ s.event = id :=
  find?_event_eq_some_iff m.events_nodup

theorem account?_eq_some_iff {user : String} {a : Account} :
    m.account? user = some a ↔ a ∈ m.accounts ∧ a.user = user := by
  constructor
  · intro h
    exact ⟨List.mem_of_find?_eq_some h, by simpa using List.find?_some h⟩
  · rintro ⟨hmem, rfl⟩
    obtain ⟨b, hb⟩ : ∃ b, m.account? a.user = some b := by
      rw [← Option.isSome_iff_exists, account?, List.find?_isSome]
      exact ⟨a, hmem, by simp⟩
    have hbmem := List.mem_of_find?_eq_some hb
    have huser : b.user = a.user := by simpa using List.find?_some hb
    rw [hb, List.inj_on_of_nodup_map m.users_nodup hbmem hmem huser]

theorem account?_openAccount {a : Account} (hnew : m.account? a.user = none) (user : String) :
    (m.openAccount a hnew).account? user = if user = a.user then some a else m.account? user := by
  rw [openAccount, account?, List.find?_append]
  split
  · rename_i heq
    subst heq
    rw [account?] at hnew
    simp [hnew]
  · rename_i hne
    have hskip : (a.user == user) = false := by simpa using Ne.symm hne
    simp [account?, hskip]

theorem ensure_of_none {user : String} (h : m.account? user = none) :
    m.ensure user = m.openAccount (Account.fresh user) h := by
  unfold ensure
  split
  · rfl
  · rename_i hold
    rw [h] at hold
    cases hold

theorem ensure_of_some {user : String} {a : Account} (h : m.account? user = some a) : m.ensure user = m := by
  unfold ensure
  split
  · rename_i hnew
    rw [h] at hnew
    cases hnew
  · rfl

theorem account?_ensure (user other : String) :
    (m.ensure user).account? other =
      if other = user then some ((m.account? user).getD (Account.fresh user)) else m.account? other := by
  unfold ensure
  split
  · rename_i hnew
    rw [account?_openAccount hnew, hnew]
    rfl
  · rename_i a hold
    rw [hold]
    split
    · rename_i heq
      rw [heq, hold]
      rfl
    · rfl

theorem find?_ensure (user : String) (id : Uuid) : (m.ensure user).find? id = m.find? id := by
  unfold ensure
  split <;> rfl

theorem ensure_ensure (user : String) : (m.ensure user).ensure user = m.ensure user := by
  obtain ⟨a, ha⟩ : ∃ a, (m.ensure user).account? user = some a := by
    rw [account?_ensure, if_pos rfl]
    exact ⟨_, rfl⟩
  exact ensure_of_some ha

theorem record_ensure (e : Event) (user : String) : (m.ensure user).record e = (m.record e).ensure user := by
  cases h : m.account? user with
  | none =>
      rw [ensure_of_none h, ensure_of_none (m := m.record e) h]
      rfl
  | some a => rw [ensure_of_some h, ensure_of_some (m := m.record e) h]

theorem account?_addStatement {s : Statement} (hnew : m.find? s.event = none) (user : String) :
    (m.addStatement s hnew).account? user = m.account? user := rfl

theorem account?_withBalance (user : String) (balance : Decimal) (other : String) :
    (m.withBalance user balance).account? other =
      if other = user then (m.account? user).map fun _ => ⟨user, balance⟩ else m.account? other := by
  have hpick : ∀ accounts : List Account,
      (setBalance accounts user balance).find? (fun a => a.user == other) =
        if other = user then (accounts.find? fun a => a.user == user).map fun _ => ⟨user, balance⟩
        else accounts.find? fun a => a.user == other := by
    intro accounts
    induction accounts with
    | nil => simp [setBalance]
    | cons a rest ih =>
        rw [setBalance] at ih ⊢
        by_cases hother : other = user
        · subst hother
          by_cases ha : a.user = other <;> simp_all
        · by_cases ha : a.user = user
          · have hskip : (user == other) = false := by simpa using Ne.symm hother
            simp_all
          · by_cases hhit : a.user = other <;> simp_all
  exact hpick m.accounts

/-! ### Posting -/

/-- What a posting that succeeds has found and left. -/
theorem create_eq_ok {s : Statement} {delta : Decimal} (h : m.create s delta = .ok m') :
    m.find? s.event = none ∧ ∃ a b, m.account? s.user = some a ∧ a.balance.add? delta = some b ∧
      m'.statements = m.statements ++ [s] ∧
      ∀ user, m'.account? user = if user = s.user then some ⟨s.user, b⟩ else m.account? user := by
  unfold create at h
  split at h
  · cases h
  · rename_i hnew
    split at h
    · cases h
    · rename_i a ha
      split at h
      · cases h
      · rename_i b hb
        obtain rfl := Except.ok.inj h
        refine ⟨hnew, a, b, ha, hb, rfl, fun user => ?_⟩
        rw [account?_withBalance, account?_addStatement, account?_addStatement, ha]
        rfl

theorem find?_create {s : Statement} {delta : Decimal} (h : m.create s delta = .ok m') (id : Uuid) :
    m'.find? id = if s.event = id then some s else m.find? id := by
  obtain ⟨hnew, a, b, -, -, hstatements, -⟩ := create_eq_ok h
  rw [find?, hstatements, List.find?_append]
  split
  · rename_i hevent
    subst hevent
    rw [find?] at hnew
    simp [hnew]
  · rename_i hother
    simp [find?, hother]

/-- A posting of an event that has its statement is refused as a duplicate, whatever else is wrong. -/
theorem create_of_find? {s t : Statement} {delta : Decimal} (h : m.find? s.event = some t) :
    m.create s delta = .error (.duplicateEvent s.event) := by
  unfold create
  split
  · rfl
  · rename_i hnone
    rw [h] at hnone
    cases hnone

/-- Only an event that has its statement is refused as a duplicate. -/
theorem find?_of_create_duplicate {s : Statement} {delta : Decimal} {id : Uuid}
    (h : m.create s delta = .error (.duplicateEvent id)) : (m.find? s.event).isSome := by
  unfold create at h
  split at h
  · rename_i t hold
    rw [hold]
    rfl
  · split at h
    · cases h
    · split at h <;> cases h

/-- A posting of a new event for a user without an account is refused. -/
theorem create_of_account? {s : Statement} {delta : Decimal} (hnew : m.find? s.event = none)
    (ha : m.account? s.user = none) : m.create s delta = .error (.accountNotFound s.user) := by
  unfold create
  split
  · rename_i hold
    rw [hnew] at hold
    cases hold
  · rw [ha]

/-- A posting of a new event on an account that exists succeeds if the balance after it has a decimal. -/
theorem create_of_add? {s : Statement} {a : Account} {b delta : Decimal} (hnew : m.find? s.event = none)
    (ha : m.account? s.user = some a) (hb : a.balance.add? delta = some b) :
    ∃ m', m.create s delta = .ok m' := by
  unfold create
  split
  · rename_i hold
    rw [hnew] at hold
    cases hold
  · rw [ha]
    dsimp only
    rw [hb]
    exact ⟨_, rfl⟩

/-- A posting of a new event that leaves its user's balance without a decimal is refused for that. -/
theorem create_of_add?_eq_none {a : Account} (hnew : m.find? s.event = none) (ha : m.account? s.user = some a)
    (hb : a.balance.add? delta = none) : m.create s delta = .error (.backend (.overflow s.user delta)) := by
  unfold create
  split
  · rename_i hold
    rw [hnew] at hold
    cases hold
  · rw [ha]
    dsimp only
    rw [hb]

end InMemory

open InMemory

/-! ### Calls -/

variable {m : InMemory} {call : Call}

theorem serve_create_eq {s : Statement} {delta : Decimal} {m' : InMemory} (h : m.create s delta = .ok m') :
    serve (.create s delta) m = (.ok (), m') := by
  rw [serve, h]

theorem serve_create_error {s : Statement} {delta : Decimal} {e : Error} (h : m.create s delta = .error e) :
    serve (.create s delta) m = (.error e, m) := by
  rw [serve, h]

theorem posting?_of_create {s : Statement} {delta : Decimal} {m' : InMemory} (h : m.create s delta = .ok m') :
    Call.posting? serve m (.create s delta) = some s := by
  rw [Call.posting?, serve_create_eq h]

theorem create_of_posting? {s : Statement} (h : call.posting? serve m = some s) :
    ∃ delta m', call = .create s delta ∧ m.create s delta = .ok m' := by
  obtain ⟨delta, rfl, haccepted⟩ := Call.posting?_eq_some h
  cases hcreate : m.create s delta with
  | ok m' => exact ⟨delta, m', rfl, hcreate⟩
  | error e =>
      rw [serve_create_error hcreate] at haccepted
      cases haccepted

/-- A call adds the statement it posts, and no other. -/
theorem serve_statements (call : Call) (m : InMemory) :
    (serve call m).2.statements = m.statements ++ (call.posting? serve m).toList := by
  cases call with
  | record e => simp [serve, Call.posting?, record]
  | find id => simp [serve, Call.posting?]
  | ensure user =>
      simp only [serve, Call.posting?, Option.toList_none, List.append_nil, ensure]
      split <;> rfl
  | create s delta =>
      cases h : m.create s delta with
      | ok m' =>
          obtain ⟨-, a, b, -, -, hstatements, -⟩ := create_eq_ok h
          rw [posting?_of_create h, serve_create_eq h]
          exact hstatements
      | error e => simp [serve_create_error h, Call.posting?]
  | balance user => simp [serve, Call.posting?]

/-! ### Balances -/

/-- What a user's account holds; a user without one has nothing. -/
def InMemory.holding (m : InMemory) (user : String) : ℚ := (m.account? user).elim 0 fun a => a.balance.value

theorem holding_ensure (user other : String) : (m.ensure user).holding other = m.holding other := by
  rw [holding, holding, account?_ensure]
  split
  · rename_i heq
    rw [heq]
    cases m.account? user <;> simp [Account.fresh]
  · rfl

/-- A call moves the holding of nobody but the user it posts for. -/
theorem holding_serve (call : Call) (user : String)
    (hother : ∀ s, call.posting? serve m = some s → s.user ≠ user) :
    (serve call m).2.holding user = m.holding user := by
  cases call with
  | record e => rfl
  | find id => rfl
  | ensure other => exact holding_ensure other user
  | create s delta =>
      cases h : m.create s delta with
      | ok m' =>
          obtain ⟨-, a, b, -, -, -, haccounts⟩ := create_eq_ok h
          have huser : s.user ≠ user := hother s (posting?_of_create h)
          rw [serve_create_eq h, holding, haccounts, if_neg (Ne.symm huser)]
          rfl
      | error e => rw [serve_create_error h]
  | balance other => rfl

/-- The books of the ledgers in memory. -/
def InMemory.books : Books InMemory.serve where
  sound _ := True
  has m id := (m.find? id).isSome
  Entry := Statement
  entry s := s
  stores m s := s ∈ m.statements
  holding := InMemory.holding
  sound_serve _ _ := trivial
  has_serve {m} call id _ := by
    rw [find?, find?, serve_statements, List.find?_append, Option.isSome_or, Bool.or_eq_true]
    cases call.posting? serve m <;> simp
  has_of_find {m id found} _ h := by rw [← Except.ok.inj h]
  has_of_duplicate {m s delta} _ h := by
    cases hcreate : m.create s delta with
    | ok m' =>
        rw [serve_create_eq hcreate] at h
        cases h
    | error e =>
        rw [serve_create_error hcreate] at h
        obtain rfl := Except.error.inj h
        exact find?_of_create_duplicate hcreate
  not_has_of_posting {m call s} _ h := by
    obtain ⟨delta, m', rfl, hm'⟩ := create_of_posting? h
    rw [(create_eq_ok hm').1]
    simp
  stores_serve {m} call s _ := by
    rw [serve_statements, List.mem_append, Option.mem_toList]
    simp
  holding_serve call user _ := holding_serve call user

theorem InMemory.books_readsBalances : InMemory.books.ReadsBalances := by
  intro m user balance _ h
  change m.balance user = .ok balance at h
  change balance.value = m.holding user
  unfold InMemory.balance at h
  rw [InMemory.holding]
  cases ha : m.account? user with
  | none =>
      rw [ha] at h
      cases h
  | some a =>
      rw [ha] at h
      rw [← Except.ok.inj h]
      rfl

/-! ### Places -/

/-- All balances of a ledger have at most so many places. -/
def InMemory.HasPlaces (m : InMemory) (places : Nat) : Prop :=
  ∀ user a, m.account? user = some a → a.balance.scale ≤ places

theorem serve_hasPlaces {places : Nat} (hm : m.HasPlaces places)
    (hdelta : ∀ s delta, call = .create s delta → delta.scale ≤ places) :
    (serve call m).2.HasPlaces places := by
  intro user a ha
  cases call with
  | record e => exact hm user a ha
  | find id => exact hm user a ha
  | ensure other =>
      change (m.ensure other).account? user = some a at ha
      rw [account?_ensure] at ha
      split at ha
      · obtain rfl := Option.some.inj ha
        cases hold : m.account? other with
        | none => exact Nat.zero_le _
        | some b => exact hm other b hold
      · exact hm user a ha
  | create s delta =>
      cases h : m.create s delta with
      | ok m' =>
          obtain ⟨-, c, b, hc, hb, -, haccounts⟩ := create_eq_ok h
          rw [serve_create_eq h, haccounts] at ha
          split at ha
          · obtain rfl := Option.some.inj ha
            exact Decimal.add?_scale_le hb (hm s.user c hc) (hdelta s delta rfl)
          · exact hm user a ha
      | error e =>
          rw [serve_create_error h] at ha
          exact hm user a ha
  | balance other => exact hm user a ha

/-- A posting is exact if no balance after it reaches the coefficient bound at the places of all amounts. -/
theorem isExact_of_small {places : Nat} (hplaces : places ≤ 28) (hm : m.HasPlaces places)
    (hdelta : ∀ s delta, call = .create s delta → delta.scale ≤ places)
    (hsmall : ∀ user a, (serve call m).2.account? user = some a → |a.balance.value| * 10 ^ places < 2 ^ 96) :
    books.IsExact call m := by
  rintro s delta rfl hposting
  obtain ⟨delta', m', hcall, hm'⟩ := create_of_posting? hposting
  obtain rfl := (Call.create.inj hcall).2
  obtain ⟨-, a, b, ha, hb, -, haccounts⟩ := create_eq_ok hm'
  have hposted : (serve (.create s delta) m).2.account? s.user = some ⟨s.user, b⟩ := by
    rw [serve_create_eq hm', haccounts, if_pos rfl]
  change holding _ _ = holding _ _ + _
  rw [holding, holding, hposted, ha]
  exact Decimal.add?_exact hb (hm s.user a ha) (hdelta s delta rfl) hplaces (hsmall s.user _ hposted)

/-- The delta that a call asks to post. -/
def Call.delta? : Call → Option Decimal
  | .create _ delta => some delta
  | _ => none

/-- The coefficients of the balances on both sides of a posting can show that it is exact. -/
theorem isExact_of_coefficients {places : Nat} (hplaces : places ≤ 28)
    (hm : ∀ a ∈ m.accounts, a.balance.scale ≤ places) (hdelta : ∀ delta ∈ call.delta?, delta.scale ≤ places)
    (hsmall : ∀ a ∈ (serve call m).2.accounts, a.balance.coefficient.natAbs * 10 ^ places < 2 ^ 96) :
    books.IsExact call m := by
  refine isExact_of_small hplaces (fun user a ha => hm a (InMemory.account?_eq_some_iff.1 ha).1) ?_ ?_
  · rintro s delta rfl
    exact hdelta delta rfl
  · intro user a ha
    exact_mod_cast Decimal.abs_value_mul_lt (hsmall a (InMemory.account?_eq_some_iff.1 ha).1)

end UsageLedger.Ledger
