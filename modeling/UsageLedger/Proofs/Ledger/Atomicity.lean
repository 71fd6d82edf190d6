import UsageLedger.Proofs.Ledger.Consistency
import UsageLedger.Proofs.Ledger.Posting

/-! A posting happens whole or not at all. A posting that is refused leaves the ledger as it is; one that
succeeds adds its statement, moves its user's balance and enters the statement for its user, and touches
nothing else. How it is refused tells whether its event has a statement and whether its user has an
account. Both hold in memory and in a keyspace, where the script that posts is not undone when it stops. -/

namespace UsageLedger.Ledger

/-- A posting to ledgers `σ` that happens whole or not at all, by what it answered and left. It is `ready` when
nothing but its event, its user and the user's balance can stand against it; of the event it matters
whether it is `stored`, of the user whether there is a balance that the posting `fits`. -/
structure IsWholeOrNothing {σ : Type} (s : Statement) (ready stored opened fits : Prop) (same gains : σ → Prop)
    (r : Except Error Unit × σ) : Prop where
  refused : ∀ e, r.1 = .error e → same r.2
  accepted : r.1 = .ok () → gains r.2
  succeeds : r.1 = .ok () ↔ ready ∧ ¬stored ∧ fits
  duplicate : ∀ id, r.1 = .error (.duplicateEvent id) ↔ id = s.event ∧ ready ∧ stored
  noAccount : ∀ user, r.1 = .error (.accountNotFound user) ↔ user = s.user ∧ ready ∧ ¬stored ∧ ¬opened

variable {s : Statement} {delta : Decimal}

namespace IsWholeOrNothing

variable {σ : Type} {ready stored opened fits : Prop} {same gains : σ → Prop} {left : σ}

/-! The ways in which a posting ends. -/

theorem of_ok (hgains : gains left) (hready : ready) (hnew : ¬stored) (hopened : opened) (hfits : fits) :
    IsWholeOrNothing s ready stored opened fits same gains (.ok (), left) where
  refused _ h := nomatch h
  accepted _ := hgains
  succeeds := ⟨fun _ => ⟨hready, hnew, hfits⟩, fun _ => rfl⟩
  duplicate _ := ⟨fun h => (nomatch h), fun h => (hnew h.2.2).elim⟩
  noAccount _ := ⟨fun h => (nomatch h), fun h => (h.2.2.2 hopened).elim⟩

theorem of_duplicate (hsame : same left) (hready : ready) (hold : stored) :
    IsWholeOrNothing s ready stored opened fits same gains (.error (.duplicateEvent s.event), left) where
  refused _ _ := hsame
  accepted h := nomatch h
  succeeds := ⟨fun h => (nomatch h), fun h => (h.2.1 hold).elim⟩
  duplicate id := by
    rw [Except.error.injEq, Error.duplicateEvent.injEq, eq_comm]
    exact ⟨fun h => ⟨h, hready, hold⟩, fun h => h.1⟩
  noAccount _ := ⟨fun h => (nomatch h), fun h => (h.2.2.1 hold).elim⟩

theorem of_noAccount (hsame : same left) (hready : ready) (hnew : ¬stored) (hclosed : ¬opened)
    (hfits : fits → opened) :
    IsWholeOrNothing s ready stored opened fits same gains (.error (.accountNotFound s.user), left) where
  refused _ _ := hsame
  accepted h := nomatch h
  succeeds := ⟨fun h => (nomatch h), fun h => (hclosed (hfits h.2.2)).elim⟩
  duplicate _ := ⟨fun h => (nomatch h), fun h => (hnew h.2.2).elim⟩
  noAccount user := by
    rw [Except.error.injEq, Error.accountNotFound.injEq, eq_comm]
    exact ⟨fun h => ⟨h, hready, hnew, hclosed⟩, fun h => h.1⟩

/-- A posting that was not ready, or that its user's balance does not fit, is refused for something else. -/
theorem of_other {e : Error} (hsame : same left) (hevent : ∀ id, e ≠ .duplicateEvent id)
    (huser : ∀ user, e ≠ .accountNotFound user) (hwhy : ¬ready ∨ ¬stored ∧ opened ∧ ¬fits) :
    IsWholeOrNothing s ready stored opened fits same gains (.error e, left) where
  refused _ _ := hsame
  accepted h := nomatch h
  succeeds := by
    refine ⟨fun h => (nomatch h), fun ⟨hready, _, hfits⟩ => ?_⟩
    exact (hwhy.elim (· hready) (·.2.2 hfits)).elim
  duplicate id := by
    refine ⟨fun h => (hevent id (Except.error.inj h)).elim, fun ⟨_, hready, hold⟩ => ?_⟩
    exact (hwhy.elim (· hready) (·.1 hold)).elim
  noAccount user := by
    refine ⟨fun h => (huser user (Except.error.inj h)).elim, fun ⟨_, hready, _, hclosed⟩ => ?_⟩
    exact (hwhy.elim (· hready) (hclosed ·.2.1)).elim

end IsWholeOrNothing

/-! ### In memory -/

namespace InMemory

variable {m m' : InMemory}

/-- Whether a ledger in memory became another one by gaining a statement, with the move of its user's balance
by `delta`, and by nothing else. -/
structure Gains (m : InMemory) (s : Statement) (delta : Decimal) (m' : InMemory) : Prop where
  new : m.find? s.event = none
  found : serve (.find s.event) m' = (.ok (some s), m')
  statements : m'.statements = m.statements ++ [s]
  balance : ∃ a b, m.account? s.user = some a ∧ a.balance.add? delta = some b ∧
    m'.account? s.user = some ⟨s.user, b⟩
  users : m'.accounts.map (·.user) = m.accounts.map (·.user)
  others : ∀ user, user ≠ s.user → m'.account? user = m.account? user
  listings : ∀ q : Query, q.user ≠ s.user → m'.list q = m.list q
  audit : m'.audit = m.audit

theorem users_of_create (h : m.create s delta = .ok m') :
    m'.accounts.map (·.user) = m.accounts.map (·.user) ∧ m'.audit = m.audit := by
  unfold create at h
  split at h
  · cases h
  · split at h
    · cases h
    · split at h
      · cases h
      · obtain rfl := Except.ok.inj h
        exact ⟨map_user_setBalance _ _ _, rfl⟩

theorem gains_of_create (h : m.create s delta = .ok m') : m.Gains s delta m' := by
  obtain ⟨hnew, a, b, ha, hb, hstatements, haccounts⟩ := create_eq_ok h
  obtain ⟨husers, haudit⟩ := users_of_create h
  refine ⟨hnew, ?_, hstatements, ⟨a, b, ha, hb, ?_⟩, husers, fun user huser => ?_, fun q hq => ?_, haudit⟩
  · rw [serve, find?_create h, if_pos rfl]
  · rw [haccounts, if_pos rfl]
  · rw [haccounts, if_neg huser]
  · have hskip : q.selects s = false := by simp [Query.selects, Ne.symm hq]
    rw [list, list, hstatements, List.filter_append, List.filter_singleton, hskip, cond_false, List.append_nil]

/-- Whether the balance that a posting leaves to its user has a decimal. -/
def Fits (m : InMemory) (s : Statement) (delta : Decimal) : Prop :=
  ∃ a b, m.account? s.user = some a ∧ a.balance.add? delta = some b

theorem create_isWholeOrNothing (m : InMemory) (s : Statement) (delta : Decimal) :
    IsWholeOrNothing s True (m.find? s.event ≠ none) (m.account? s.user ≠ none) (m.Fits s delta) (· = m)
      (m.Gains s delta) (serve (.create s delta) m) := by
  have hopened : m.Fits s delta → m.account? s.user ≠ none := by
    rintro ⟨a, b, ha, -⟩
    simp [ha]
  cases hfind : m.find? s.event with
  | some t =>
      rw [serve_create_error (create_of_find? hfind)]
      exact .of_duplicate rfl trivial (by simp)
  | none =>
      cases haccount : m.account? s.user with
      | none =>
          rw [serve_create_error (create_of_account? hfind haccount)]
          rw [haccount] at hopened
          exact .of_noAccount rfl trivial (by simp) (by simp) hopened
      | some a =>
          cases hb : a.balance.add? delta with
          | none =>
              rw [serve_create_error (create_of_add?_eq_none hfind haccount hb)]
              refine .of_other rfl (by simp) (by simp) (.inr ⟨by simp, by simp, ?_⟩)
              rintro ⟨a', b, ha', hb'⟩
              rw [haccount] at ha'
              rw [← Option.some.inj ha', hb] at hb'
              cases hb'
          | some b =>
              obtain ⟨m', hm'⟩ := create_of_add? hfind haccount hb
              rw [serve_create_eq hm']
              exact .of_ok (gains_of_create hm') trivial (by simp) (by simp) ⟨a, b, haccount, hb⟩

end InMemory

/-! ### In a keyspace -/

variable {keys : Keys} {store : Keyspace} {posted : List Statement}

/-- Whether a keyspace became another one by gaining a statement, with the move of its user's balance by a
number of micro-credits, and by nothing else. -/
structure Keyspace.Gains (keys : Keys) (store : Keyspace) (s : Statement) (micros : Int64) (store' : Keyspace) :
    Prop where
  new : store.value? (keys.statement s.event) = none
  statement : store'.value? (keys.statement s.event) = some (.text (String.ofList s.print))
  balance : ∃ n total : Int64, store.value? (keys.balance s.user) = some (.text (balanceText n)) ∧
    total.toInt = n.toInt + micros.toInt ∧ store'.value? (keys.balance s.user) = some (.text (balanceText total))
  unnamed : (place s).2 ∉ (membersAt store (keys.statements s.user)).map (·.2)
  index : ∃ members, store'.value? (keys.statements s.user) = some (.scored members) ∧
    members.Perm (place s :: membersAt store (keys.statements s.user))
  statements : ∀ id, id ≠ s.event → store'.value? (keys.statement id) = store.value? (keys.statement id)
  balances : ∀ user, user ≠ s.user → store'.value? (keys.balance user) = store.value? (keys.balance user)
  indexes : ∀ user, user ≠ s.user → store'.value? (keys.statements user) = store.value? (keys.statements user)
  audit : store'.value? keys.audit = store.value? keys.audit
  foreign : ∀ key, ¬keys.IsOwn key → store'.value? key = store.value? key

theorem value?_written_foreign {s : Statement} {total : Int64} {members : List (Int × String)} {key : String}
    (hkey : ¬keys.IsOwn key) : (written keys store s total members).value? key = store.value? key := by
  have hindex : key ≠ keys.statements s.user := fun h => hkey (.inr (.inr (.inl ⟨_, h⟩)))
  have hstatement : key ≠ keys.statement s.event := fun h => hkey (.inl ⟨_, h⟩)
  have hbalance : key ≠ keys.balance s.user := fun h => hkey (.inr (.inl ⟨_, h⟩))
  rw [written, Keyspace.value?_put, if_neg hindex, Keyspace.value?_put, if_neg hstatement, Keyspace.value?_put,
    if_neg hbalance]

/-- What the posting script writes when it posts. -/
theorem Keeps.gains (h : Keeps keys store posted) {n micros : Int64} {members : List (Int × String)}
    (hnew : s.event ∉ posted.map (·.event)) (hold : store.value? (keys.balance s.user) = some (.text (balanceText n)))
    (hlow : -(2 ^ 63) ≤ n.toInt + micros.toInt) (hhigh : n.toInt + micros.toInt < 2 ^ 63)
    (hindex : IsIndex posted s.user members) :
    Keyspace.Gains keys store s micros
      (written keys store s (Int64.ofInt (n.toInt + micros.toInt)) (Keyspace.insertMember (place s) members)) where
  new := by
    rw [← Option.not_isSome_iff_eq_none]
    exact fun hhas => hnew ((h.has_statement s.event).1 hhas)
  statement := by rw [value?_written_statement, if_pos rfl]
  balance := ⟨n, _, hold, toInt_ofInt_add hlow hhigh, by rw [value?_written_balance, if_pos rfl]⟩
  unnamed := by
    rw [((h.membersAt_eq s.user).perm.map _).mem_iff, List.map_map]
    intro hmem
    obtain ⟨t, ht, hplace⟩ := List.mem_map.1 hmem
    exact hnew (List.mem_map.2 ⟨t, (List.mem_filter.1 ht).1, place_injOn_event hplace⟩)
  index := by
    refine ⟨_, by rw [value?_written_statements, if_pos rfl], (Keyspace.insertMember_perm _ _).trans (.cons _ ?_)⟩
    exact hindex.perm.trans (h.membersAt_eq s.user).perm.symm
  statements id hid := by rw [value?_written_statement, if_neg hid]
  balances user huser := by rw [value?_written_balance, if_neg huser]
  indexes user huser := by rw [value?_written_statements, if_neg huser]
  audit := value?_written_audit
  foreign _ hkey := value?_written_foreign hkey

namespace Keyed

variable {k k' : Keyed}

/-- A command that is not refused is carried out. -/
theorem send_of_not_refusing {α : Type} {c : Command} (h : k.isRefusing c = false)
    (work : Keyspace → Except Refusal α × Keyspace) :
    k.send c work = ((work k.store).1, { k with store := (work k.store).2, sent := c :: k.sent }) := by
  have hanswer : isRefusing { k with sent := c :: k.sent } c = false := h
  rw [send, hanswer]
  rfl

theorem send_of_refusing {α : Type} {c : Command} (h : k.isRefusing c = true)
    (work : Keyspace → Except Refusal α × Keyspace) : k.send c work =
      (.error .unavailable, { k with refusing := useRefusal k.refusing c, sent := c :: k.sent }) := by
  have hanswer : isRefusing { k with sent := c :: k.sent } c = true := h
  rw [send, hanswer]
  rfl

/-- Whether nothing but its event, its user and the user's balance can stand against a posting. -/
def IsReady (k : Keyed) (s : Statement) (delta : Decimal) : Prop :=
  s.amount.same delta = true ∧ (∃ micros, MicroCredit.exact delta = .ok micros) ∧ k.isRefusing .script = false

/-- Whether the balance that a posting leaves to its user is a number of 64 bits. -/
def Fits (k : Keyed) (s : Statement) (delta : Decimal) : Prop :=
  ∃ n micros : Int64, k.store.value? (k.keys.balance s.user) = some (.text (balanceText n)) ∧
    MicroCredit.exact delta = .ok micros ∧ -(2 ^ 63) ≤ n.toInt + micros.toInt ∧ n.toInt + micros.toInt < 2 ^ 63

/-- Whether a ledger in a keyspace became another one by a posting, and by nothing else. -/
structure Gains (k : Keyed) (s : Statement) (delta : Decimal) (k' : Keyed) : Prop where
  keys : k'.keys = k.keys
  store : ∃ micros, MicroCredit.exact delta = .ok micros ∧ Keyspace.Gains k.keys k.store s micros k'.store
  found : k'.isRefusing .text = false → (serve (.find s.event) k').1 = .ok (some s)

theorem find_of_statement {contents : String} {s : Statement} (hrefusing : k.isRefusing .text = false)
    (hvalue : k.store.value? (k.keys.statement s.event) = some (.text contents))
    (hread : readStatement contents = .ok s) : (find s.event k).1 = .ok (some s) := by
  have hlook : reading (fun store => store.text? (k.keys.statement s.event)) k.store =
      (.ok (some contents), k.store) := by
    rw [reading, Keyspace.text?, hvalue]
  rw [find, send_of_not_refusing hrefusing, hlook]
  dsimp only
  rw [hread]
  rfl

/-- A posting that is not ready is refused before anything is looked up. -/
theorem create_of_not_ready (h : ¬k.IsReady s delta) : ∃ e k', create s delta k = (.error e, k') ∧
    k'.store = k.store ∧ (∀ id, e ≠ .duplicateEvent id) ∧ ∀ user, e ≠ .accountNotFound user := by
  by_cases hsame : s.amount.same delta = true
  · cases hexact : MicroCredit.exact delta with
    | error e =>
        have hcreate : create s delta k = (.error e, k) := by
          rw [create, hsame, hexact]
          rfl
        rcases MicroCredit.exact_eq_error hexact with rfl | rfl
        · exact ⟨_, k, hcreate, rfl, by simp, by simp⟩
        · exact ⟨_, k, hcreate, rfl, by simp, by simp⟩
    | ok micros =>
        have hrefusing : k.isRefusing .script = true := by
          rw [← Bool.not_eq_false]
          exact fun hnot => h ⟨hsame, ⟨micros, hexact⟩, hnot⟩
        rw [create_of_exact hsame hexact, send_of_refusing hrefusing]
        exact ⟨_, _, rfl, rfl, by simp [failed], by simp [failed]⟩
  · have hcreate : create s delta k = (.error (.backend (.amountMismatch s.amount delta)), k) := by
      rw [create, if_pos (by simpa using hsame)]
    exact ⟨_, k, hcreate, rfl, by simp, by simp⟩

theorem create_isWholeOrNothing (h : Keeps k.keys k.store posted) (s : Statement) (delta : Decimal) :
    IsWholeOrNothing s (k.IsReady s delta) (k.store.value? (k.keys.statement s.event) ≠ none)
      (k.store.value? (k.keys.balance s.user) ≠ none) (k.Fits s delta) (fun k' => k'.store = k.store)
      (k.Gains s delta) (serve (.create s delta) k) := by
  change IsWholeOrNothing _ _ _ _ _ _ _ (create s delta k)
  by_cases hready : k.IsReady s delta
  · obtain ⟨hsame, ⟨micros, hexact⟩, hrefusing⟩ := hready
    have hstored : k.store.value? (k.keys.statement s.event) ≠ none ↔ s.event ∈ posted.map (·.event) := by
      rw [← h.has_statement, Keyspace.has, Option.isSome_iff_ne_none]
    rw [create_of_exact hsame hexact, send_of_not_refusing hrefusing]
    rcases h.postScript_cases s micros with
      ⟨hold, hr⟩ | ⟨hnew, hclosed, hr⟩ | ⟨hnew, n, hbalance, ⟨hrange, hr⟩ | ⟨⟨hlow, hhigh⟩, members, hindex, hr⟩⟩
    · rw [script, hr]
      exact .of_duplicate rfl ⟨hsame, ⟨micros, hexact⟩, hrefusing⟩ (hstored.2 hold)
    · rw [script, hr]
      refine .of_noAccount rfl ⟨hsame, ⟨micros, hexact⟩, hrefusing⟩ (mt hstored.1 hnew) (not_not.2 hclosed) ?_
      rintro ⟨n, -, hbalance, -⟩
      simp [hbalance]
    · rw [script, hr]
      refine .of_other rfl (by simp [failed]) (by simp [failed]) (.inr ⟨mt hstored.1 hnew, by simp [hbalance], ?_⟩)
      rintro ⟨n', micros', hbalance', hexact', hfits⟩
      rw [hbalance] at hbalance'
      rw [hexact] at hexact'
      obtain rfl := balanceText_injective (Value.text.inj (Option.some.inj hbalance'))
      obtain rfl := Except.ok.inj hexact'
      exact hrange hfits
    · rw [script, hr]
      have hgains := h.gains hnew hbalance hlow hhigh hindex
      refine .of_ok ⟨rfl, ⟨micros, hexact, hgains⟩, fun hrefusing' => ?_⟩ ⟨hsame, ⟨micros, hexact⟩, hrefusing⟩
        (mt hstored.1 hnew) (by simp [hbalance]) ⟨n, micros, hbalance, hexact, hlow, hhigh⟩
      exact find_of_statement hrefusing' hgains.statement (readStatement_print s)
  · obtain ⟨e, k', hcreate, hstore, hevent, huser⟩ := create_of_not_ready hready
    rw [hcreate]
    exact .of_other hstore hevent huser (.inl hready)

end Keyed

/-! ### Both -/

/-- A posting happens whole or not at all: to any ledger in memory, and to a ledger in a keyspace that clients
have led from one without a key of the ledger. -/
theorem postings_whole_or_nothing (s : Statement) (delta : Decimal) :
    (∀ m : InMemory, IsWholeOrNothing s True (m.find? s.event ≠ none) (m.account? s.user ≠ none) (m.Fits s delta)
      (· = m) (m.Gains s delta) (InMemory.serve (.create s delta) m)) ∧
    ∀ (opening : Keyspace) (k : Keyed), (∀ key, k.keys.IsOwn key → opening.value? key = none) →
      Reaches k.keys opening k.store →
      IsWholeOrNothing s (k.IsReady s delta) (k.store.value? (k.keys.statement s.event) ≠ none)
        (k.store.value? (k.keys.balance s.user) ≠ none) (k.Fits s delta) (fun k' => k'.store = k.store)
        (k.Gains s delta) (Keyed.serve (.create s delta) k) := by
  refine ⟨fun m => InMemory.create_isWholeOrNothing m s delta, fun opening k hforeign hreach => ?_⟩
  obtain ⟨posted, hkeeps⟩ := (keeps_nil hforeign).reaches hreach
  exact Keyed.create_isWholeOrNothing hkeeps s delta

/-- A refund of half a credit. -/
def refund : Statement := { charge with event := ⟨8⟩, amount := MicroCredit.toDecimal 500000 }

theorem sharedStore_refunded : let shared : Keyed := ⟨⟨"tally"⟩, sharedStore, [(.push, 1)], []⟩
    (Keyed.serve (.create refund refund.amount) shared).1 = .ok () ∧
      shared.Gains refund refund.amount (Keyed.serve (.create refund refund.amount) shared).2 := by
  intro shared
  have hwhole := (postings_whole_or_nothing refund refund.amount).2 foreignStore shared foreignStore_is_foreign
    sharedStore_reached
  have hready : shared.IsReady refund refund.amount := ⟨by decide, ⟨500000, by decide +kernel⟩, by decide⟩
  have hfits : shared.Fits refund refund.amount :=
    ⟨-1500000, 500000, by decide +kernel, by decide +kernel, by decide +kernel, by decide +kernel⟩
  have hposted := hwhole.succeeds.2 ⟨hready, by decide +kernel, hfits⟩
  exact ⟨hposted, hwhole.accepted hposted⟩

end UsageLedger.Ledger
