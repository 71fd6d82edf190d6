import UsageLedger.Proofs.Decimal.MicroCredit
import UsageLedger.Proofs.Ledger.Books
import UsageLedger.Proofs.Ledger.Keys

/-! What a call does to the ledger in a keyspace. The posting script writes all it has to write or nothing,
as long as what it keeps for a user is a set; nothing else writes a statement, and only the posting for a
user moves the user's balance. -/

namespace UsageLedger.Ledger

namespace Keyspace

variable {k k' : Keyspace} {key other : String}

/-- The number under a key; where there is no key it is zero. -/
def number? (k : Keyspace) (key : String) : Option Int :=
  match k.text? key with
  | .ok contents => integer? (contents.getD "0")
  | .error _ => none

theorem number?_congr (h : k'.value? key = k.value? key) : k'.number? key = k.number? key := by
  rw [number?, number?, text?, text?, h]

theorem increase_eq_ok {delta : Int} (h : k.increase key delta = .ok k') :
    ∃ n, k.number? key = some n ∧ -(2 ^ 63) ≤ n + delta ∧ n + delta < 2 ^ 63 ∧
      k' = k.put key (.text (String.ofList (Text.signed (n + delta)))) := by
  unfold increase at h
  split at h
  · cases h
  · rename_i contents htext
    split at h
    · cases h
    · rename_i n hn
      split at h
      · rename_i hrange
        refine ⟨n, ?_, hrange.1, hrange.2, (Except.ok.inj h).symm⟩
        rw [number?, htext]
        exact hn
      · cases h

theorem integer?_signed {n : Int} (hlow : -(2 ^ 63) ≤ n) (hhigh : n < 2 ^ 63) :
    integer? (String.ofList (Text.signed n)) = some n := by
  rw [integer?, String.toList_ofList, Text.integer64?_signed hlow hhigh]
  exact if_pos rfl

def IsSetAt (k : Keyspace) (key : String) : Prop :=
  k.value? key = none ∨ ∃ members, k.value? key = some (.scored members)

theorem addScored_of_isSetAt (h : k.IsSetAt key) (score : Int) (member : String) :
    ∃ members, k.addScored key score member = .ok (k.put key (.scored members)) := by
  unfold addScored
  rcases h with hnone | ⟨members, hset⟩
  · rw [hnone]
    exact ⟨_, rfl⟩
  · rw [hset]
    exact ⟨_, rfl⟩

theorem putNew_eq (k : Keyspace) (key contents : String) :
    (k.putNew key contents).2.value? other =
      if other = key ∧ k.value? key = none then some (.text contents) else k.value? other := by
  unfold putNew has
  cases h : k.value? key with
  | none => simp [value?_put]
  | some v => simp

theorem push_eq_ok {item : String} (h : k.push key item = .ok k') :
    ∃ items, k' = k.put key (.list items) := by
  unfold push at h
  split at h
  · exact ⟨_, (Except.ok.inj h).symm⟩
  · exact ⟨_, (Except.ok.inj h).symm⟩
  · cases h

end Keyspace

/-- What the posting script does when what it keeps for the user is a set: it refuses and changes nothing, or
it writes the balance, the statement and its place. -/
theorem postScript_cases {statementKey balanceKey indexKey : String} {k : Keyspace}
    (contents member : String) (delta : Int64) (score : Int) (hset : k.IsSetAt indexKey)
    (hstatement : indexKey ≠ statementKey) (hbalance : indexKey ≠ balanceKey) :
    let r := postScript statementKey balanceKey indexKey contents delta score member k
    (r.1 ≠ .ok .posted ∧ r.2 = k ∧ (r.1 = .ok .duplicate → k.has statementKey = true)) ∨
    (r.1 = .ok .posted ∧ k.has statementKey = false ∧ ∃ n members, k.number? balanceKey = some n ∧
      -(2 ^ 63) ≤ n + delta.toInt ∧ n + delta.toInt < 2 ^ 63 ∧
      r.2 = ((k.put balanceKey (.text (String.ofList (Text.signed (n + delta.toInt))))).put statementKey
        (.text contents)).put indexKey (.scored members)) := by
  unfold postScript
  split
  · rename_i hold
    exact .inl ⟨by simp, rfl, fun _ => hold⟩
  · rename_i hnew
    split
    · exact .inl ⟨by simp, rfl, by simp⟩
    · split
      · exact .inl ⟨by simp, rfl, by simp⟩
      · rename_i raised hraised
        obtain ⟨n, hn, hlow, hhigh, rfl⟩ := Keyspace.increase_eq_ok hraised
        have hset' : ((k.put balanceKey (.text (String.ofList (Text.signed (n + delta.toInt))))).put
            statementKey (.text contents)).IsSetAt indexKey := by
          rw [Keyspace.IsSetAt, Keyspace.value?_put, Keyspace.value?_put, if_neg hstatement, if_neg hbalance]
          exact hset
        obtain ⟨members, hmembers⟩ := Keyspace.addScored_of_isSetAt hset' score member
        dsimp only
        rw [hmembers]
        exact .inr ⟨rfl, by simpa using hnew, n, members, hn, hlow, hhigh, rfl⟩

namespace Keyed

variable {k k' : Keyed} {call : Call} {s : Statement} {delta : Decimal}

/-- A command is refused and does nothing, or it is carried out. -/
theorem send_cases {α : Type} (c : Command) (work : Keyspace → Except Refusal α × Keyspace) (k : Keyed) :
    (k.send c work).2.keys = k.keys ∧
      ((k.send c work).1 = .error .unavailable ∧ (k.send c work).2.store = k.store ∨
        (k.send c work).1 = (work k.store).1 ∧ (k.send c work).2.store = (work k.store).2) := by
  unfold send
  dsimp only
  split
  · exact ⟨rfl, .inl ⟨rfl, rfl⟩⟩
  · exact ⟨rfl, .inr ⟨rfl, rfl⟩⟩

/-- What is kept for users is in sets. -/
def HasSets (k : Keyed) : Prop := ∀ user, k.store.IsSetAt (k.keys.statements user)

/-- Whether statements, users' sets and balances are the same in two ledgers. -/
structure IsQuiet (k k' : Keyed) : Prop where
  keys : k'.keys = k.keys
  statement : ∀ id, k'.store.value? (k.keys.statement id) = k.store.value? (k.keys.statement id)
  index : ∀ user, k'.store.value? (k.keys.statements user) = k.store.value? (k.keys.statements user)
  number : ∀ user, k'.store.number? (k.keys.balance user) = k.store.number? (k.keys.balance user)

/-- What a ledger has become by posting a statement: it has the statement, and it has moved one balance. -/
structure HasPosted (k k' : Keyed) (s : Statement) (micros : Int64) : Prop where
  keys : k'.keys = k.keys
  new : k.store.has (k.keys.statement s.event) = false
  statement : ∀ id, k'.store.value? (k.keys.statement id) =
    if id = s.event then some (.text (String.ofList s.print)) else k.store.value? (k.keys.statement id)
  index : ∀ user, k.store.IsSetAt (k.keys.statements user) → k'.store.IsSetAt (k.keys.statements user)
  others : ∀ user, user ≠ s.user →
    k'.store.number? (k.keys.balance user) = k.store.number? (k.keys.balance user)
  own : ∃ n, k.store.number? (k.keys.balance s.user) = some n ∧
    -(2 ^ 63) ≤ n + micros.toInt ∧ n + micros.toInt < 2 ^ 63 ∧
    k'.store.value? (k.keys.balance s.user) = some (.text (String.ofList (Text.signed (n + micros.toInt))))

theorem IsQuiet.of_store (hkeys : k'.keys = k.keys) (hstore : k'.store = k.store) : k.IsQuiet k' :=
  ⟨hkeys, fun _ => by rw [hstore], fun _ => by rw [hstore], fun _ => by rw [hstore]⟩

theorem hasPosted_of_script {micros : Int64} {n : Int} {members : List (Int × String)}
    (hkeys : k'.keys = k.keys) (hnew : k.store.has (k.keys.statement s.event) = false)
    (hn : k.store.number? (k.keys.balance s.user) = some n) (hlow : -(2 ^ 63) ≤ n + micros.toInt)
    (hhigh : n + micros.toInt < 2 ^ 63)
    (hstore : k'.store = ((k.store.put (k.keys.balance s.user)
      (.text (String.ofList (Text.signed (n + micros.toInt))))).put (k.keys.statement s.event)
      (.text (String.ofList s.print))).put (k.keys.statements s.user) (.scored members)) :
    k.HasPosted k' s micros := by
  refine ⟨hkeys, hnew, ?_, ?_, ?_, n, hn, hlow, hhigh, ?_⟩
  · intro id
    rw [hstore, Keyspace.value?_put, if_neg (Keys.ne_of_letter (k := k.keys) (by simp)), Keyspace.value?_put,
      Keyspace.value?_put, if_neg (c := _ = k.keys.balance _) (Keys.ne_of_letter (k := k.keys) (by simp))]
    simp only [Keys.statement_eq_iff]
  · intro user hset
    rw [hstore, Keyspace.IsSetAt, Keyspace.value?_put]
    split
    · exact .inr ⟨members, rfl⟩
    · rw [Keyspace.value?_put, if_neg (Keys.ne_of_letter (k := k.keys) (by simp)), Keyspace.value?_put,
        if_neg (Keys.ne_of_letter (k := k.keys) (by simp))]
      exact hset
  · intro user huser
    refine Keyspace.number?_congr ?_
    rw [hstore, Keyspace.value?_put, if_neg (Keys.ne_of_letter (k := k.keys) (by simp)), Keyspace.value?_put,
      if_neg (Keys.ne_of_letter (k := k.keys) (by simp)), Keyspace.value?_put,
      if_neg fun heq => huser (Keys.balance_eq_iff.1 heq)]
  · rw [hstore, Keyspace.value?_put, if_neg (Keys.ne_of_letter (k := k.keys) (by simp)), Keyspace.value?_put,
      if_neg (Keys.ne_of_letter (k := k.keys) (by simp)), Keyspace.value?_put, if_pos rfl]

theorem exact_ne_duplicate {e : Error} (h : MicroCredit.exact delta = .error e) (id : Uuid) :
    e ≠ .duplicateEvent id := by
  rcases MicroCredit.exact_eq_error h with rfl | rfl
  · simp
  · simp

/-- A posting is refused and changes nothing, or is done. -/
theorem create_cases (hsets : k.HasSets) (s : Statement) (delta : Decimal) :
    (∃ error, (create s delta k).1 = .error error ∧ k.IsQuiet (create s delta k).2 ∧
      (error = .duplicateEvent s.event → k.store.has (k.keys.statement s.event) = true)) ∨
    (create s delta k).1 = .ok () ∧ ∃ micros, MicroCredit.exact delta = .ok micros ∧
      s.amount.same delta = true ∧ k.HasPosted (create s delta k).2 s micros := by
  unfold create
  split
  · exact .inl ⟨_, rfl, .of_store rfl rfl, by simp⟩
  · rename_i hsame
    split
    · rename_i e hexact
      exact .inl ⟨e, rfl, .of_store rfl rfl, fun h => (exact_ne_duplicate hexact _ h).elim⟩
    · rename_i micros hexact
      have hscript := postScript_cases (String.ofList s.print) (String.ofList s.event.toText) micros
        s.eventDate.toMillis (hsets s.user)
        (Keys.ne_of_letter (k := k.keys) (by simp) : _ ≠ k.keys.statement s.event)
        (Keys.ne_of_letter (k := k.keys) (by simp) : _ ≠ k.keys.balance s.user)
      have hsend := send_cases .script (postScript (k.keys.statement s.event) (k.keys.balance s.user)
        (k.keys.statements s.user) (String.ofList s.print) micros s.eventDate.toMillis
        (String.ofList s.event.toText)) k
      revert hscript hsend
      generalize postScript (k.keys.statement s.event) (k.keys.balance s.user) (k.keys.statements s.user)
        (String.ofList s.print) micros s.eventDate.toMillis (String.ofList s.event.toText) = script
      rintro hscript ⟨hkeys, hsend⟩
      dsimp only at hscript ⊢
      -- unless it posts, the script leaves the keyspace alone
      have hquiet : (k.send .script script).1 ≠ .ok .posted → k.IsQuiet (k.send .script script).2 := by
        intro hnot
        rcases hsend with ⟨-, hstore⟩ | ⟨hanswer, hstore⟩
        · exact .of_store hkeys hstore
        · rcases hscript with ⟨-, hsame, -⟩ | ⟨hposted, -⟩
          · exact .of_store hkeys (hstore.trans hsame)
          · exact (hnot (hanswer.trans hposted)).elim
      split
      · rename_i k' hposted
        rw [hposted] at hkeys hsend
        rcases hsend with ⟨hrefused, -⟩ | ⟨hanswer, hstore⟩
        · cases hrefused
        · rcases hscript with ⟨hnot, -⟩ | ⟨-, hnew, n, members, hn, hlow, hhigh, hwritten⟩
          · exact (hnot hanswer.symm).elim
          · refine .inr ⟨rfl, micros, hexact, by simpa using hsame, ?_⟩
            exact hasPosted_of_script hkeys hnew hn hlow hhigh (hstore.trans hwritten)
      · rename_i k' hduplicate
        rw [hduplicate] at hsend hquiet
        refine .inl ⟨_, rfl, hquiet (by simp), fun _ => ?_⟩
        rcases hsend with ⟨hrefused, -⟩ | ⟨hanswer, -⟩
        · cases hrefused
        · rcases hscript with ⟨-, -, hold⟩ | ⟨hposted, -⟩
          · exact hold hanswer.symm
          · rw [← hanswer] at hposted
            cases hposted
      · rename_i k' hmissing
        rw [hmissing] at hquiet
        exact .inl ⟨_, rfl, hquiet (by simp), by simp⟩
      · rename_i refusal k' hrefused
        rw [hrefused] at hquiet
        exact .inl ⟨_, rfl, hquiet (by simp), by simp [failed]⟩

/-! ### Calls -/

theorem send_reading {α : Type} (c : Command) (look : Keyspace → Except Refusal α) (k : Keyed) :
    k.IsQuiet (k.send c (reading look)).2 ∧
      ∀ a, (k.send c (reading look)).1 = .ok a → look k.store = .ok a := by
  obtain ⟨hkeys, ⟨hrefused, hstore⟩ | ⟨hanswer, hstore⟩⟩ := send_cases c (reading look) k
  · refine ⟨.of_store hkeys hstore, fun a ha => ?_⟩
    rw [hrefused] at ha
    cases ha
  · exact ⟨.of_store hkeys hstore, fun a ha => hanswer.symm.trans ha⟩

/-- Looking for a statement finds one where there is its key. -/
theorem find_quiet (id : Uuid) (k : Keyed) :
    k.IsQuiet (find id k).2 ∧ ∀ found, (find id k).1 = .ok found →
      (found.isSome ↔ k.store.has (k.keys.statement id) = true) := by
  obtain ⟨hquiet, hlook⟩ := send_reading .text (fun store => store.text? (k.keys.statement id)) k
  unfold find
  split
  · rename_i heq
    rw [heq] at hquiet
    exact ⟨hquiet, fun found h => by cases h⟩
  · rename_i heq
    rw [heq] at hquiet hlook
    refine ⟨hquiet, fun found h => ?_⟩
    obtain rfl := Except.ok.inj h
    have htext := hlook none rfl
    unfold Keyspace.text? at htext
    split at htext
    · rename_i hnone
      simp [Keyspace.has, hnone]
    · cases htext
    · cases htext
  · rename_i contents k' heq
    rw [heq] at hquiet hlook
    refine ⟨hquiet, fun found h => ?_⟩
    have htext := hlook (some contents) rfl
    have hfound : found.isSome = true := by
      dsimp only at h
      cases hread : readStatement contents with
      | error error =>
          rw [hread] at h
          cases h
      | ok t =>
          rw [hread] at h
          rw [← Except.ok.inj h]
          rfl
    unfold Keyspace.text? at htext
    split at htext
    · cases htext
    · rename_i hsome
      simp [Keyspace.has, hsome, hfound]
    · cases htext

theorem writing_cases (change : Keyspace → Except Refusal Keyspace) (store : Keyspace) :
    (writing change store).2 = store ∨ change store = .ok (writing change store).2 := by
  unfold writing
  split
  · rename_i heq
    exact .inr heq
  · exact .inl rfl

theorem record_quiet (e : Event) (k : Keyed) : k.IsQuiet (record e k).2 := by
  have hquiet : k.IsQuiet
      (k.send .push (writing fun store => store.push k.keys.audit (String.ofList e.print))).2 := by
    obtain ⟨hkeys, ⟨-, hstore⟩ | ⟨-, hstore⟩⟩ :=
      send_cases .push (writing fun store => store.push k.keys.audit (String.ofList e.print)) k
    · exact .of_store hkeys hstore
    · rcases writing_cases (fun store => store.push k.keys.audit (String.ofList e.print)) k.store with
        hsame | hpush
      · exact .of_store hkeys (hstore.trans hsame)
      · obtain ⟨items, hitems⟩ := Keyspace.push_eq_ok hpush
        have hother : ∀ key, k.keys.letter key ≠ some 'e' →
            (k.send .push (writing fun store => store.push k.keys.audit (String.ofList e.print))).2.store.value?
              key = k.store.value? key := by
          intro key hkey
          rw [hstore, hitems, Keyspace.value?_put]
          exact if_neg (Keys.ne_of_letter (k := k.keys) (by simpa using hkey))
        exact ⟨hkeys, fun id => hother _ (by simp), fun user => hother _ (by simp),
          fun user => Keyspace.number?_congr (hother _ (by simp))⟩
  unfold record
  split
  · rename_i heq
    rwa [heq] at hquiet
  · rename_i heq
    rwa [heq] at hquiet

/-- A new account holds the nothing that its user had without it. -/
theorem ensure_quiet (user : String) (k : Keyed) : k.IsQuiet (ensure user k).2 := by
  let work (store : Keyspace) : Except Refusal Bool × Keyspace :=
    (.ok (store.putNew (k.keys.balance user) "0").1, (store.putNew (k.keys.balance user) "0").2)
  have hquiet : k.IsQuiet (k.send .putNew work).2 := by
    obtain ⟨hkeys, ⟨-, hstore⟩ | ⟨-, hstore⟩⟩ := send_cases .putNew work k
    · exact .of_store hkeys hstore
    · have hvalue : ∀ key, (k.send .putNew work).2.store.value? key =
          if key = k.keys.balance user ∧ k.store.value? (k.keys.balance user) = none then some (.text "0")
          else k.store.value? key := by
        intro key
        rw [hstore]
        exact Keyspace.putNew_eq k.store (k.keys.balance user) "0"
      have hother : ∀ key, k.keys.letter key ≠ some 'b' →
          (k.send .putNew work).2.store.value? key = k.store.value? key := by
        intro key hkey
        rw [hvalue, if_neg fun h => Keys.ne_of_letter (k := k.keys) (by simpa using hkey) h.1]
      refine ⟨hkeys, fun id => hother _ (by simp), fun other => hother _ (by simp), fun other => ?_⟩
      by_cases hopened : k.keys.balance other = k.keys.balance user ∧
          k.store.value? (k.keys.balance user) = none
      · have hnew := hvalue (k.keys.balance other)
        rw [if_pos hopened, hopened.1] at hnew
        rw [hopened.1]
        simp [Keyspace.number?, Keyspace.text?, hnew, hopened.2]
      · refine Keyspace.number?_congr ?_
        rw [hvalue, if_neg hopened]
  have hsent : (ensure user k).2 = (k.send .putNew work).2 := by
    unfold ensure
    dsimp only
    split
    · rename_i heq
      exact (congrArg Prod.snd heq).symm
    · rename_i heq
      exact (congrArg Prod.snd heq).symm
  rwa [hsent]

theorem balance_quiet (user : String) (k : Keyed) : k.IsQuiet (balance user k).2 := by
  obtain ⟨hquiet, -⟩ := send_reading .text (fun store => store.text? (k.keys.balance user)) k
  unfold balance
  split
  · rename_i heq
    rwa [heq] at hquiet
  · rename_i heq
    rwa [heq] at hquiet
  · rename_i heq
    rw [heq] at hquiet
    split <;> exact hquiet

/-- A call that posts nothing leaves statements, sets and balances alone. -/
theorem serve_quiet (hsets : k.HasSets) (h : call.posting? serve k = none) : k.IsQuiet (serve call k).2 := by
  cases call with
  | record e => exact record_quiet e k
  | find id => exact (find_quiet id k).1
  | ensure user => exact ensure_quiet user k
  | create s delta =>
      rcases create_cases hsets s delta with ⟨error, -, hquiet, -⟩ | ⟨hok, -⟩
      · exact hquiet
      · rw [Call.posting?, show (serve (.create s delta) k).1 = .ok () from hok] at h
        cases h
  | balance user => exact balance_quiet user k

/-- A call that posts a statement has posted it. -/
theorem serve_hasPosted (hsets : k.HasSets) (h : call.posting? serve k = some s) :
    ∃ delta micros, call = .create s delta ∧ MicroCredit.exact delta = .ok micros ∧
      s.amount.same delta = true ∧ k.HasPosted (serve call k).2 s micros := by
  obtain ⟨delta, rfl, haccepted⟩ := Call.posting?_eq_some h
  rcases create_cases hsets s delta with ⟨error, herror, -⟩ | ⟨-, micros, hexact, hsame, hposted⟩
  · rw [show (serve (.create s delta) k).1 = _ from herror] at haccepted
    cases haccepted
  · exact ⟨delta, micros, rfl, hexact, hsame, hposted⟩

/-- What a user's balance counts, in credits; a user without one has nothing. -/
def holding (k : Keyed) (user : String) : ℚ :=
  ((k.store.number? (k.keys.balance user)).getD 0 : ℤ) / 10 ^ amountPlaces

/-- The books of the ledgers in a keyspace. An entry is the text of a statement under its event. -/
def books : Books Keyed.serve where
  sound := HasSets
  has k id := k.store.has (k.keys.statement id) = true
  Entry := Uuid × String
  entry s := (s.event, String.ofList s.print)
  stores k x := k.store.value? (k.keys.statement x.1) = some (.text x.2)
  holding := holding
  sound_serve {k} call hsets := by
    cases hposting : call.posting? serve k with
    | none =>
        have hquiet := serve_quiet hsets hposting
        intro user
        rw [hquiet.keys, Keyspace.IsSetAt, hquiet.index]
        exact hsets user
    | some s =>
        obtain ⟨delta, micros, -, -, -, hposted⟩ := serve_hasPosted hsets hposting
        intro user
        rw [hposted.keys]
        exact hposted.index user (hsets user)
  has_serve {k} call id hsets := by
    cases hposting : call.posting? serve k with
    | none =>
        have hquiet := serve_quiet hsets hposting
        rw [hquiet.keys, Keyspace.has, hquiet.statement]
        simp [Keyspace.has]
    | some s =>
        obtain ⟨delta, micros, -, -, -, hposted⟩ := serve_hasPosted hsets hposting
        rw [hposted.keys, Keyspace.has, hposted.statement]
        by_cases hid : id = s.event
        · simp [hid]
        · simp [hid, Ne.symm hid, Keyspace.has]
  has_of_find {k id found} _ h := (find_quiet id k).2 found h
  has_of_duplicate {k s delta} hsets h := by
    rcases create_cases hsets s delta with ⟨error, herror, -, hold⟩ | ⟨hok, -⟩
    · rw [show (serve (.create s delta) k).1 = _ from herror] at h
      exact hold (Except.error.inj h)
    · rw [show (serve (.create s delta) k).1 = _ from hok] at h
      cases h
  not_has_of_posting {k call s} hsets h := by
    obtain ⟨delta, micros, -, -, -, hposted⟩ := serve_hasPosted hsets h
    rw [hposted.new]
    exact Bool.false_ne_true
  stores_serve {k} call x hsets := by
    cases hposting : call.posting? serve k with
    | none =>
        have hquiet := serve_quiet hsets hposting
        rw [hquiet.keys, hquiet.statement]
        simp
    | some s =>
        obtain ⟨delta, micros, -, -, -, hposted⟩ := serve_hasPosted hsets hposting
        obtain ⟨id, contents⟩ := x
        rw [hposted.keys, hposted.statement]
        by_cases hid : id = s.event
        · subst hid
          have hnone : k.store.value? (k.keys.statement s.event) = none := by
            have hnew := hposted.new
            rwa [Keyspace.has, Option.isSome_eq_false_iff, Option.isNone_iff_eq_none] at hnew
          rw [if_pos rfl, hnone]
          constructor
          · intro h
            obtain rfl := Value.text.inj (Option.some.inj h)
            exact .inr ⟨s, rfl, rfl⟩
          · rintro (h | ⟨t, ht, hentry⟩)
            · cases h
            · rw [← Option.some.inj ht] at hentry
              rw [← (Prod.mk.inj hentry).2]
        · simp [hid, Ne.symm hid]
  holding_serve {k} call user hsets hother := by
    cases hposting : call.posting? serve k with
    | none =>
        have hquiet := serve_quiet hsets hposting
        rw [holding, holding, hquiet.keys, hquiet.number]
    | some s =>
        obtain ⟨delta, micros, -, -, -, hposted⟩ := serve_hasPosted hsets hposting
        rw [holding, holding, hposted.keys, hposted.others user (Ne.symm (hother s hposting))]

/-! ### Balances are exact -/

/-- A posting moves the balance by its delta exactly. -/
theorem isExact (hsets : k.HasSets) (call : Call) : books.IsExact call k := by
  rintro s delta hcall hposting
  obtain ⟨delta', micros, hcreate, hexact, -, hposted⟩ := serve_hasPosted hsets hposting
  obtain rfl : delta = delta' := (Call.create.inj (hcall.symm.trans hcreate)).2
  obtain ⟨n, hn, hlow, hhigh, hbalance⟩ := hposted.own
  have hafter : (serve call k).2.store.number? (k.keys.balance s.user) = some (n + micros.toInt) := by
    rw [Keyspace.number?, Keyspace.text?, hbalance]
    exact Keyspace.integer?_signed hlow hhigh
  change holding _ _ = holding _ _ + _
  rw [holding, holding, hposted.keys, hafter, hn, MicroCredit.value_of_exact hexact, Option.getD_some, Option.getD_some,
    Int.cast_add, add_div]

end Keyed

end UsageLedger.Ledger
