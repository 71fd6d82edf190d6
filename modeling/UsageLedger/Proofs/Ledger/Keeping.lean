import UsageLedger.Proofs.Json.Formats
import UsageLedger.Proofs.Ledger.Scripting

/-! What a keyspace holds for the statements that were posted: the text of each under its event, for each
user the places of the user's statements in order, and balances that count what was billed. Every call
keeps to that, the posting script by adding the statement in all three places at once; and what is held
says how each call is answered. -/

namespace UsageLedger

namespace Ledger

/-! ### Statements as text -/

theorem Keyed.readStatement_print (s : Statement) : readStatement (String.ofList s.print) = .ok s := by
  rw [readStatement, String.toList_ofList, Statement.decode_print]

/-! ### Sets in order -/

namespace Keyspace

theorem memberLe_iff {a b : Int × String} : memberLe a b = true ↔ a.1 < b.1 ∨ a.1 = b.1 ∧ a.2 ≤ b.2 := by
  simp [memberLe]

theorem memberLe_total (a b : Int × String) : memberLe a b = true ∨ memberLe b a = true := by
  rw [memberLe_iff, memberLe_iff]
  rcases lt_trichotomy a.1 b.1 with hlt | heq | hgt
  · exact .inl (.inl hlt)
  · rcases String.le_total a.2 b.2 with hle | hle
    · exact .inl (.inr ⟨heq, hle⟩)
    · exact .inr (.inr ⟨heq.symm, hle⟩)
  · exact .inr (.inl hgt)

theorem memberLe_trans {a b c : Int × String} (hab : memberLe a b = true) (hbc : memberLe b c = true) :
    memberLe a c = true := by
  rw [memberLe_iff] at hab hbc ⊢
  rcases hab with hab | ⟨hab, hab'⟩
  · rcases hbc with hbc | ⟨hbc, -⟩
    · exact .inl (hab.trans hbc)
    · exact .inl (hbc ▸ hab)
  · rcases hbc with hbc | ⟨hbc, hbc'⟩
    · exact .inl (hab ▸ hbc)
    · exact .inr ⟨hab.trans hbc, String.le_trans hab' hbc'⟩

theorem insertMember_perm (m : Int × String) (members : List (Int × String)) :
    (insertMember m members).Perm (m :: members) := by
  induction members with
  | nil => exact .refl _
  | cons x xs ih =>
      rw [insertMember]
      split
      · exact .refl _
      · exact (ih.cons x).trans (.swap m x xs)

theorem insertMember_pairwise (m : Int × String) {members : List (Int × String)}
    (h : members.Pairwise fun a b => memberLe a b = true) :
    (insertMember m members).Pairwise fun a b => memberLe a b = true := by
  induction members with
  | nil => exact List.pairwise_singleton _ _
  | cons x xs ih =>
      obtain ⟨hfirst, hrest⟩ := List.pairwise_cons.1 h
      rw [insertMember]
      split
      · rename_i hle
        refine List.pairwise_cons.2 ⟨fun y hy => ?_, h⟩
        rcases List.mem_cons.1 hy with rfl | hy
        · exact hle
        · exact memberLe_trans hle (hfirst y hy)
      · rename_i hnot
        refine List.pairwise_cons.2 ⟨fun y hy => ?_, ih hrest⟩
        rcases List.mem_cons.1 ((insertMember_perm m xs).mem_iff.1 hy) with rfl | hy
        · exact (memberLe_total x y).resolve_right hnot
        · exact hfirst y hy

end Keyspace

/-! ### What is held -/

/-- A number of micro-credits as the text of a balance. -/
def balanceText (n : Int64) : String := String.ofList (Text.signed n.toInt)

theorem balanceText_zero : balanceText 0 = "0" := by
  have hsigned : Text.signed 0 = ['0'] := by
    rw [Text.signed, if_neg (by decide), Text.digits]
    rfl
  exact congrArg String.ofList hsigned

theorem integer64?_balanceText (n : Int64) : Text.integer64? (balanceText n).toList = some n.toInt := by
  rw [balanceText, String.toList_ofList]
  exact Text.integer64?_signed n.le_toInt n.toInt_lt

theorem balanceText_injective {n m : Int64} (h : balanceText n = balanceText m) : n = m := by
  have hread := integer64?_balanceText n
  rw [h, integer64?_balanceText m] at hread
  exact Int64.toInt_inj.1 (Option.some.inj hread).symm

theorem integer?_balanceText (n : Int64) : Keyspace.integer? (balanceText n) = some n.toInt :=
  Keyspace.integer?_signed n.le_toInt n.toInt_lt

/-- A statement's place among those of its user: by the millisecond of its date, and by its event. -/
def place (s : Statement) : Int × String := (s.eventDate.toMillis, String.ofList s.event.toText)

theorem place_injOn_event {s t : Statement} (h : (place s).2 = (place t).2) : s.event = t.event :=
  Uuid.toText_injective (String.ofList_injective h)

/-- The places of a user's statements, in order. -/
structure IsIndex (posted : List Statement) (user : String) (members : List (Int × String)) : Prop where
  perm : members.Perm ((posted.filter fun s => s.user = user).map place)
  sorted : members.Pairwise fun a b => Keyspace.memberLe a b = true

/-- What a keyspace holds for the statements that were posted. -/
structure Keeps (keys : Keys) (store : Keyspace) (posted : List Statement) : Prop where
  events : (posted.map (·.event)).Nodup
  statement : ∀ id, store.value? (keys.statement id) =
    (posted.find? fun s => s.event == id).map fun s => .text (String.ofList s.print)
  index : ∀ user, ∃ members, IsIndex posted user members ∧
    store.value? (keys.statements user) = if members = [] then none else some (.scored members)
  account : ∀ s ∈ posted, store.has (keys.balance s.user) = true
  balance : ∀ user v, store.value? (keys.balance user) = some v →
    ∃ n : Int64, v = .text (balanceText n) ∧ billed posted user = n.toInt / 10 ^ amountPlaces
  audit : ∀ v, store.value? keys.audit = some v → ∃ items, v = .list items

/-- Whether a key is one that a ledger uses. -/
def Keys.IsOwn (k : Keys) (key : String) : Prop :=
  (∃ id, key = k.statement id) ∨ (∃ user, key = k.balance user) ∨ (∃ user, key = k.statements user) ∨ key = k.audit

variable {keys : Keys} {store store' : Keyspace} {posted : List Statement}

/-- A keyspace without any key of the ledger holds what there is for no statements. -/
theorem keeps_nil (h : ∀ key, keys.IsOwn key → store.value? key = none) : Keeps keys store [] where
  events := List.nodup_nil
  statement id := by rw [h _ (.inl ⟨id, rfl⟩)]; rfl
  index user := ⟨[], ⟨.refl _, .nil⟩, by rw [h _ (.inr (.inr (.inl ⟨user, rfl⟩))), if_pos rfl]⟩
  account s hs := absurd hs List.not_mem_nil
  balance user v hv := by rw [h _ (.inr (.inl ⟨user, rfl⟩))] at hv; cases hv
  audit v hv := by rw [h _ (.inr (.inr (.inr rfl)))] at hv; cases hv

theorem Keeps.has_statement (h : Keeps keys store posted) (id : Uuid) :
    store.has (keys.statement id) = true ↔ id ∈ posted.map (·.event) := by
  rw [Keyspace.has, h.statement, Option.isSome_map, List.find?_isSome]
  simp

/-- Opening an account adds a balance of nothing. -/
theorem Keeps.putNew (h : Keeps keys store posted) (user : String) :
    Keeps keys (store.putNew (keys.balance user) "0").2 posted := by
  have hvalue : ∀ key, (store.putNew (keys.balance user) "0").2.value? key =
      if key = keys.balance user ∧ store.value? (keys.balance user) = none then some (.text "0")
      else store.value? key := fun key => Keyspace.putNew_eq store (keys.balance user) "0"
  have hother : ∀ key, keys.letter key ≠ some 'b' →
      (store.putNew (keys.balance user) "0").2.value? key = store.value? key := by
    intro key hkey
    rw [hvalue, if_neg fun heq => Keys.ne_of_letter (k := keys) (by simpa using hkey) heq.1]
  refine ⟨h.events, fun id => ?_, fun other => ?_, fun s hs => ?_, fun other v hv => ?_, fun v hv => ?_⟩
  · rw [hother _ (by simp), h.statement]
  · rw [hother _ (by simp)]
    exact h.index other
  · have hold := h.account s hs
    rw [Keyspace.has, hvalue]
    split
    · rfl
    · exact hold
  · rw [hvalue] at hv
    split at hv
    · rename_i hopened
      obtain rfl := Keys.balance_eq_iff.1 hopened.1
      refine ⟨0, by rw [balanceText_zero, Option.some.inj hv], ?_⟩
      have hnone : posted.filter (fun s => s.user = other) = [] := by
        rw [List.filter_eq_nil_iff]
        intro s hs huser
        have hheld := h.account s hs
        rw [of_decide_eq_true huser, Keyspace.has, hopened.2] at hheld
        cases hheld
      simp [billed, hnone]
    · exact h.balance other v hv
  · rw [hother _ (by simp)] at hv
    exact h.audit v hv

/-- Recording an event adds to the audit log only. -/
theorem Keeps.push (h : Keeps keys store posted) {item : String} (hpush : store.push keys.audit item = .ok store') :
    Keeps keys store' posted := by
  obtain ⟨items, rfl⟩ := Keyspace.push_eq_ok hpush
  have hother : ∀ key, keys.letter key ≠ some 'e' →
      (store.put keys.audit (.list items)).value? key = store.value? key := by
    intro key hkey
    rw [Keyspace.value?_put, if_neg (Keys.ne_of_letter (k := keys) (by simpa using hkey))]
  refine ⟨h.events, fun id => ?_, fun other => ?_, fun s hs => ?_, fun other v hv => ?_, fun v hv => ?_⟩
  · rw [hother _ (by simp), h.statement]
  · rw [hother _ (by simp)]
    exact h.index other
  · rw [Keyspace.has, hother _ (by simp)]
    exact h.account s hs
  · rw [hother _ (by simp)] at hv
    exact h.balance other v hv
  · rw [Keyspace.value?_put, if_pos rfl] at hv
    exact ⟨items, (Option.some.inj hv).symm⟩

/-! ### Posting -/

theorem toInt_ofInt_add {n m : Int64} (hlow : -(2 ^ 63) ≤ n.toInt + m.toInt) (hhigh : n.toInt + m.toInt < 2 ^ 63) :
    (Int64.ofInt (n.toInt + m.toInt)).toInt = n.toInt + m.toInt :=
  Int64.toInt_ofInt_of_le hlow hhigh

/-- The set of a user's places takes the place of a new statement in. -/
theorem IsIndex.insert {user : String} {members : List (Int × String)} (h : IsIndex posted user members)
    {s : Statement} (huser : s.user = user) :
    IsIndex (posted ++ [s]) user (Keyspace.insertMember (place s) members) where
  perm := by
    refine (Keyspace.insertMember_perm _ _).trans ((h.perm.cons _).trans ?_)
    rw [List.filter_append, List.map_append, List.filter_singleton, decide_eq_true huser]
    exact (List.perm_append_singleton _ _).symm
  sorted := Keyspace.insertMember_pairwise _ h.sorted

theorem IsIndex.other {user : String} {members : List (Int × String)} (h : IsIndex posted user members)
    {s : Statement} (huser : s.user ≠ user) : IsIndex (posted ++ [s]) user members where
  perm := by
    rw [List.filter_append, List.filter_singleton, decide_eq_false huser, cond_false, List.append_nil]
    exact h.perm
  sorted := h.sorted

/-- The place of a new statement is not yet in the set. -/
theorem IsIndex.filter_ne {user : String} {members : List (Int × String)} (h : IsIndex posted user members)
    {s : Statement} (hnew : s.event ∉ posted.map (·.event)) :
    members.filter (fun x => x.2 != (place s).2) = members := by
  rw [List.filter_eq_self]
  intro x hx
  obtain ⟨t, ht, rfl⟩ := List.mem_map.1 (h.perm.mem_iff.1 hx)
  rw [bne_iff_ne]
  intro heq
  exact hnew (List.mem_map.2 ⟨t, (List.mem_filter.1 ht).1, place_injOn_event heq⟩)

/-- A keyspace with a user's balance, a statement and the places of the user's statements written. -/
def written (keys : Keys) (store : Keyspace) (s : Statement) (total : Int64) (members : List (Int × String)) :
    Keyspace :=
  ((store.put (keys.balance s.user) (.text (balanceText total))).put (keys.statement s.event)
    (.text (String.ofList s.print))).put (keys.statements s.user) (.scored members)

section Written

variable {s : Statement} {total : Int64} {members : List (Int × String)}

theorem value?_written_statement (id : Uuid) :
    (written keys store s total members).value? (keys.statement id) =
      if id = s.event then some (.text (String.ofList s.print)) else store.value? (keys.statement id) := by
  rw [written, Keyspace.value?_put, if_neg (Keys.ne_of_letter (k := keys) (by simp)), Keyspace.value?_put,
    Keyspace.value?_put, if_neg (c := _ = keys.balance _) (Keys.ne_of_letter (k := keys) (by simp))]
  simp only [Keys.statement_eq_iff]

theorem value?_written_balance (user : String) :
    (written keys store s total members).value? (keys.balance user) =
      if user = s.user then some (.text (balanceText total)) else store.value? (keys.balance user) := by
  rw [written, Keyspace.value?_put, if_neg (Keys.ne_of_letter (k := keys) (by simp)), Keyspace.value?_put,
    if_neg (Keys.ne_of_letter (k := keys) (by simp)), Keyspace.value?_put]
  simp only [Keys.balance_eq_iff]

theorem value?_written_statements (user : String) :
    (written keys store s total members).value? (keys.statements user) =
      if user = s.user then some (.scored members) else store.value? (keys.statements user) := by
  rw [written, Keyspace.value?_put, Keyspace.value?_put,
    if_neg (c := _ = keys.statement _) (Keys.ne_of_letter (k := keys) (by simp)), Keyspace.value?_put,
    if_neg (c := _ = keys.balance _) (Keys.ne_of_letter (k := keys) (by simp))]
  simp only [Keys.statements_eq_iff]

theorem value?_written_audit :
    (written keys store s total members).value? keys.audit = store.value? keys.audit := by
  rw [written, Keyspace.value?_put, if_neg (Keys.ne_of_letter (k := keys) (by simp)), Keyspace.value?_put,
    if_neg (Keys.ne_of_letter (k := keys) (by simp)), Keyspace.value?_put,
    if_neg (Keys.ne_of_letter (k := keys) (by simp))]

end Written

/-- Adding a new statement's place to what its user's set holds. -/
theorem Keeps.addScored (h : Keeps keys store posted) {s : Statement} {total : Int64}
    (hnew : s.event ∉ posted.map (·.event)) :
    ∃ members, IsIndex posted s.user members ∧
      ((store.put (keys.balance s.user) (.text (balanceText total))).put (keys.statement s.event)
        (.text (String.ofList s.print))).addScored (keys.statements s.user) s.eventDate.toMillis
          (String.ofList s.event.toText) =
        .ok (written keys store s total (Keyspace.insertMember (place s) members)) := by
  obtain ⟨members, hindex, hmembers⟩ := h.index s.user
  refine ⟨members, hindex, ?_⟩
  rw [Keyspace.addScored, Keyspace.value?_put, if_neg (Keys.ne_of_letter (k := keys) (by simp)),
    Keyspace.value?_put, if_neg (Keys.ne_of_letter (k := keys) (by simp)), hmembers]
  have hothers := hindex.filter_ne hnew
  cases members with
  | nil => rfl
  | cons m rest =>
      rw [if_neg (List.cons_ne_nil _ _)]
      dsimp only
      rw [show (m :: rest).filter (fun x => x.2 != String.ofList s.event.toText) = m :: rest from hothers]
      rfl

/-- What is held once the balance, the statement and its place are written is what is to be held with the
statement among those posted. -/
theorem Keeps.post (h : Keeps keys store posted) {s : Statement} {n micros : Int64}
    {members : List (Int × String)} (hnew : s.event ∉ posted.map (·.event))
    (hindex : IsIndex posted s.user members)
    (hold : store.value? (keys.balance s.user) = some (.text (balanceText n)))
    (hamount : s.amount.value = micros.toInt / 10 ^ amountPlaces) (hlow : -(2 ^ 63) ≤ n.toInt + micros.toInt)
    (hhigh : n.toInt + micros.toInt < 2 ^ 63) :
    Keeps keys (written keys store s (Int64.ofInt (n.toInt + micros.toInt))
      (Keyspace.insertMember (place s) members)) (posted ++ [s]) := by
  refine ⟨?_, fun id => ?_, fun user => ?_, fun t ht => ?_, fun user v hv => ?_, fun v hv => ?_⟩
  · rw [List.map_append]
    exact InMemory.nodup_concat h.events hnew
  · rw [value?_written_statement, List.find?_append, h.statement]
    by_cases hid : id = s.event
    · have hnone : posted.find? (fun t => t.event == s.event) = none := by
        rw [List.find?_eq_none]
        exact fun t ht heq => hnew (List.mem_map.2 ⟨t, ht, by simpa using heq⟩)
      rw [if_pos hid, hid, hnone]
      simp
    · have hskip : (s.event == id) = false := by simpa using Ne.symm hid
      rw [if_neg hid]
      simp [hskip]
  · by_cases huser : user = s.user
    · subst huser
      refine ⟨_, hindex.insert rfl, ?_⟩
      rw [value?_written_statements, if_pos rfl, if_neg]
      exact List.ne_nil_of_mem ((Keyspace.insertMember_perm _ _).mem_iff.2 List.mem_cons_self)
    · obtain ⟨others, hothers, hvalue⟩ := h.index user
      refine ⟨others, hothers.other (Ne.symm huser), ?_⟩
      rw [value?_written_statements, if_neg huser, hvalue]
  · rw [Keyspace.has, value?_written_balance]
    split
    · rfl
    · rename_i huser
      rcases List.mem_append.1 ht with ht | ht
      · exact h.account t ht
      · rw [List.mem_singleton.1 ht] at huser
        exact absurd rfl huser
  · rw [value?_written_balance] at hv
    rw [billed_append, billed_singleton]
    split at hv
    · rename_i huser
      obtain ⟨n', hn', hbilled⟩ := h.balance s.user _ hold
      obtain rfl := balanceText_injective (Value.text.inj hn')
      refine ⟨_, (Option.some.inj hv).symm, ?_⟩
      rw [toInt_ofInt_add hlow hhigh, huser, if_pos rfl, hbilled, hamount]
      push_cast
      ring
    · rename_i huser
      obtain ⟨n', hn', hbilled⟩ := h.balance user v hv
      exact ⟨n', hn', by rw [if_neg (Ne.symm huser), add_zero, hbilled]⟩
  · rw [value?_written_audit] at hv
    exact h.audit v hv

/-- What the posting script answers and does. -/
theorem Keeps.postScript_cases (h : Keeps keys store posted) (s : Statement) (micros : Int64) :
    let r := postScript (keys.statement s.event) (keys.balance s.user) (keys.statements s.user)
      (String.ofList s.print) micros s.eventDate.toMillis (String.ofList s.event.toText) store
    s.event ∈ posted.map (·.event) ∧ r = (.ok .duplicate, store) ∨
    s.event ∉ posted.map (·.event) ∧ store.value? (keys.balance s.user) = none ∧ r = (.ok .noAccount, store) ∨
    s.event ∉ posted.map (·.event) ∧ ∃ n : Int64,
      store.value? (keys.balance s.user) = some (.text (balanceText n)) ∧
      (¬(-(2 ^ 63) ≤ n.toInt + micros.toInt ∧ n.toInt + micros.toInt < 2 ^ 63) ∧ r = (.error .overflow, store) ∨
        (-(2 ^ 63) ≤ n.toInt + micros.toInt ∧ n.toInt + micros.toInt < 2 ^ 63) ∧
        ∃ members, IsIndex posted s.user members ∧ r = (.ok .posted, written keys store s
          (Int64.ofInt (n.toInt + micros.toInt)) (Keyspace.insertMember (place s) members))) := by
  intro r
  by_cases hold : s.event ∈ posted.map (·.event)
  · exact .inl ⟨hold, if_pos ((h.has_statement s.event).2 hold)⟩
  have hnew : ¬store.has (keys.statement s.event) = true := fun hhas => hold ((h.has_statement s.event).1 hhas)
  right
  cases hbalance : store.value? (keys.balance s.user) with
  | none =>
      refine .inl ⟨hold, rfl, ?_⟩
      have hno : (!store.has (keys.balance s.user)) = true := by simp [Keyspace.has, hbalance]
      change postScript _ _ _ _ _ _ _ _ = _
      rw [postScript, if_neg hnew, if_pos hno]
  | some v =>
      obtain ⟨n, rfl, -⟩ := h.balance s.user v hbalance
      refine .inr ⟨hold, n, rfl, ?_⟩
      have hyes : ¬(!store.has (keys.balance s.user)) = true := by simp [Keyspace.has, hbalance]
      have hincrease : store.increase (keys.balance s.user) micros.toInt =
          if -(2 ^ 63) ≤ n.toInt + micros.toInt ∧ n.toInt + micros.toInt < 2 ^ 63 then
            .ok (store.put (keys.balance s.user) (.text (String.ofList (Text.signed (n.toInt + micros.toInt)))))
          else .error .overflow := by
        rw [Keyspace.increase, Keyspace.text?, hbalance]
        dsimp only
        rw [Option.getD_some, integer?_balanceText]
      have hr : r = postScript (keys.statement s.event) (keys.balance s.user) (keys.statements s.user)
          (String.ofList s.print) micros s.eventDate.toMillis (String.ofList s.event.toText) store := rfl
      rw [postScript, if_neg hnew, if_neg hyes, hincrease] at hr
      by_cases hfits : -(2 ^ 63) ≤ n.toInt + micros.toInt ∧ n.toInt + micros.toInt < 2 ^ 63
      · have htext : String.ofList (Text.signed (n.toInt + micros.toInt)) =
            balanceText (Int64.ofInt (n.toInt + micros.toInt)) := by
          rw [balanceText, toInt_ofInt_add hfits.1 hfits.2]
        obtain ⟨members, hindex, hadd⟩ := h.addScored hold
        refine .inr ⟨hfits, members, hindex, ?_⟩
        rw [if_pos hfits, htext] at hr
        dsimp only at hr
        rw [hr, hadd]
      · rw [if_neg hfits] at hr
        exact .inl ⟨hfits, hr⟩

/-! ### Calls -/

namespace Keyed

variable {k : Keyed}

/-- The script that posts a statement. -/
def script (keys : Keys) (s : Statement) (micros : Int64) : Keyspace → Except Refusal PostOutcome × Keyspace :=
  postScript (keys.statement s.event) (keys.balance s.user) (keys.statements s.user) (String.ofList s.print)
    micros s.eventDate.toMillis (String.ofList s.event.toText)

/-- How a posting is answered after its script. -/
def postReply (s : Statement) : Except Refusal PostOutcome → Except Error Unit
  | .ok .posted => .ok ()
  | .ok .duplicate => .error (.duplicateEvent s.event)
  | .ok .noAccount => .error (.accountNotFound s.user)
  | .error _ => .error (failed .postScript)

/-- A posting whose amount is its delta, a whole number of micro-credits, is what its script makes of it. -/
theorem create_of_exact {s : Statement} {delta : Decimal} {micros : Int64} (hsame : s.amount.same delta = true)
    (hexact : MicroCredit.exact delta = .ok micros) :
    create s delta k =
      (postReply s (k.send .script (script k.keys s micros)).1, (k.send .script (script k.keys s micros)).2) := by
  unfold create
  rw [if_neg (by rw [hsame]; decide), hexact]
  dsimp only
  unfold script
  split
  all_goals
    rename_i heq
    rw [heq]
    rfl

/-- A posting is refused before its script is sent, or is what its script makes of it. -/
theorem create_cases_exact (s : Statement) (delta : Decimal) (k : Keyed) :
    (∃ error, create s delta k = (.error error, k)) ∨
      ∃ micros, s.amount.same delta = true ∧ MicroCredit.exact delta = .ok micros := by
  unfold create
  split
  · exact .inl ⟨_, rfl⟩
  · rename_i hsame
    cases hexact : MicroCredit.exact delta with
    | error e => exact .inl ⟨e, rfl⟩
    | ok micros => exact .inr ⟨micros, by simpa using hsame, rfl⟩

/-- A posting keeps to what is to be held. -/
theorem keeps_create (h : Keeps k.keys k.store posted) (s : Statement) (delta : Decimal) :
    Keeps k.keys (create s delta k).2.store
      (posted ++ if (create s delta k).1 = .ok () then [s] else []) := by
  rcases create_cases_exact s delta k with ⟨error, hrefused⟩ | ⟨micros, hsame, hexact⟩
  · rw [hrefused, if_neg (by simp), List.append_nil]
    exact h
  · have hamount : s.amount.value = micros.toInt / 10 ^ amountPlaces := by
      rw [Decimal.same_iff_value_eq.1 hsame, MicroCredit.value_of_exact hexact]
    rw [create_of_exact hsame hexact]
    obtain ⟨-, ⟨hanswer, hstore⟩ | ⟨hanswer, hstore⟩⟩ := send_cases .script (script k.keys s micros) k
    · rw [hanswer, hstore, if_neg (by simp [postReply]), List.append_nil]
      exact h
    · rw [hanswer, hstore]
      rcases h.postScript_cases s micros with
        ⟨-, hr⟩ | ⟨-, -, hr⟩ | ⟨hnew, n, hbalance, ⟨-, hr⟩ | ⟨⟨hlow, hhigh⟩, members, hindex, hr⟩⟩
      · rw [script, hr, if_neg (by simp [postReply]), List.append_nil]
        exact h
      · rw [script, hr, if_neg (by simp [postReply]), List.append_nil]
        exact h
      · rw [script, hr, if_neg (by simp [postReply]), List.append_nil]
        exact h
      · rw [script, hr, if_pos (by rfl)]
        exact h.post hnew hindex hbalance hamount hlow hhigh

theorem store_send_reading {α : Type} (c : Command) (look : Keyspace → Except Refusal α) (k : Keyed) :
    (k.send c (reading look)).2.store = k.store := by
  obtain ⟨-, ⟨-, hstore⟩ | ⟨-, hstore⟩⟩ := send_cases c (reading look) k
  · exact hstore
  · exact hstore

/-! A call leaves the ledger as the command leaves it that it sends. -/

theorem find_snd (id : Uuid) (k : Keyed) :
    (find id k).2 = (k.send .text (reading fun store => store.text? (k.keys.statement id))).2 := by
  unfold find
  split
  all_goals
    rename_i heq
    rw [heq]

theorem balance_snd (user : String) (k : Keyed) :
    (balance user k).2 = (k.send .text (reading fun store => store.text? (k.keys.balance user))).2 := by
  unfold balance
  split
  · rename_i heq
    rw [heq]
  · rename_i heq
    rw [heq]
  · rename_i heq
    rw [heq]
    split <;> rfl

theorem ensure_snd (user : String) (k : Keyed) :
    (ensure user k).2 = (k.send .putNew fun store : Keyspace =>
      (.ok (store.putNew (k.keys.balance user) "0").1, (store.putNew (k.keys.balance user) "0").2)).2 := by
  unfold ensure
  dsimp only
  split
  all_goals
    rename_i heq
    rw [heq]

theorem record_snd (e : Event) (k : Keyed) : (record e k).2 =
    (k.send .push (writing fun store => store.push k.keys.audit (String.ofList e.print))).2 := by
  unfold record
  split
  all_goals
    rename_i heq
    rw [heq]

theorem find_store (id : Uuid) (k : Keyed) : (find id k).2.store = k.store := by
  rw [find_snd, store_send_reading]

theorem balance_store (user : String) (k : Keyed) : (balance user k).2.store = k.store := by
  rw [balance_snd, store_send_reading]

theorem ensure_store (user : String) (k : Keyed) : (ensure user k).2.store = k.store ∨
    (ensure user k).2.store = (k.store.putNew (k.keys.balance user) "0").2 := by
  rw [ensure_snd]
  exact (send_cases .putNew _ k).2.imp And.right And.right

theorem record_store (e : Event) (k : Keyed) : (record e k).2.store = k.store ∨
    k.store.push k.keys.audit (String.ofList e.print) = .ok (record e k).2.store := by
  have hwriting := writing_cases (fun store => store.push k.keys.audit (String.ofList e.print)) k.store
  rw [record_snd]
  rcases (send_cases .push (writing fun store => store.push k.keys.audit (String.ofList e.print)) k).2 with
    ⟨-, hsame⟩ | ⟨-, hdone⟩
  · exact .inl hsame
  · rw [hdone]
    exact hwriting

/-- Every call keeps to what is to be held, and adds the statement it posts. -/
theorem keeps_serve (h : Keeps k.keys k.store posted) (call : Call) :
    Keeps k.keys (serve call k).2.store (posted ++ (call.posting? serve k).toList) := by
  cases call with
  | record e =>
      simp only [Call.posting?, Option.toList_none, List.append_nil]
      rcases record_store e k with hsame | hpush
      · change Keeps k.keys (record e k).2.store posted
        rwa [hsame]
      · exact h.push hpush
  | find id =>
      simp only [Call.posting?, Option.toList_none, List.append_nil]
      change Keeps k.keys (find id k).2.store posted
      rwa [find_store]
  | ensure user =>
      simp only [Call.posting?, Option.toList_none, List.append_nil]
      change Keeps k.keys (ensure user k).2.store posted
      rcases ensure_store user k with hsame | hopened
      · rwa [hsame]
      · rw [hopened]
        exact h.putNew user
  | create s delta =>
      have hkeeps := keeps_create h s delta
      have hposted : (Call.posting? serve k (.create s delta)).toList =
          if (create s delta k).1 = .ok () then [s] else [] := by
        cases hanswer : (create s delta k).1 with
        | ok reply =>
            rw [Call.posting?, show (serve (.create s delta) k).1 = _ from hanswer]
            rfl
        | error e =>
            rw [Call.posting?, show (serve (.create s delta) k).1 = _ from hanswer]
            rfl
      rwa [hposted]
  | balance user =>
      simp only [Call.posting?, Option.toList_none, List.append_nil]
      change Keeps k.keys (balance user k).2.store posted
      rwa [balance_store]

end Keyed

end Ledger

end UsageLedger
