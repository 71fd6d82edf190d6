import Mathlib.Logic.Relation
import UsageLedger.Proofs.Ledger.Keeping

/-! Consistency of the keyspace of a ledger. Whatever clients do one command at a time, the keys that are there
agree: the statement under an event's key is that event's, a user's set names the user's statements with
their milliseconds, and a balance counts the amounts of the user's statements. A listing therefore finds
every statement that its scan of a set named, whatever happens before it fetches them. -/

namespace UsageLedger.Ledger

/-- The statement that an entry holds, if it is under the key of the statement's event. -/
def statementOf (keys : Keys) (entry : String × Value) : Option Statement :=
  match entry.2 with
  | .text contents =>
    match Keyed.readStatement contents with
    | .ok s => if entry.1 = keys.statement s.event then some s else none
    | .error _ => none
  | _ => none

/-- The statements that are stored. -/
def storedIn (keys : Keys) (store : Keyspace) : List Statement := store.entries.filterMap (statementOf keys)

/-- The scored members under a key; there are none where there is no set. -/
def membersAt (store : Keyspace) (key : String) : List (Int × String) :=
  match store.value? key with
  | some (.scored members) => members
  | _ => []

/-- Whether the keys of a ledger agree with each other. -/
structure IsConsistent (keys : Keys) (store : Keyspace) : Prop where
  readable : ∀ id v, store.value? (keys.statement id) = some v →
    ∃ contents s, v = .text contents ∧ Keyed.readStatement contents = .ok s ∧ s.event = id
  set : ∀ user v, store.value? (keys.statements user) = some v → ∃ members, v = .scored members
  indexed : ∀ user score id, (score, id) ∈ membersAt store (keys.statements user) ↔
    ∃ s ∈ storedIn keys store, s.user = user ∧ s.eventDate.toMillis = score ∧
      String.ofList s.event.toText = id
  once : ∀ user, ((membersAt store (keys.statements user)).map (·.2)).Nodup
  account : ∀ s ∈ storedIn keys store, store.has (keys.balance s.user) = true
  balance : ∀ user v, store.value? (keys.balance user) = some v →
    ∃ n : Int64, v = .text (balanceText n) ∧
      (n.toInt : ℚ) = billed (storedIn keys store) user * 10 ^ amountPlaces

/-! ### Stored statements -/

variable {keys : Keys} {store : Keyspace} {posted : List Statement}

theorem Keyspace.value?_eq_some_iff {key : String} {v : Value} :
    store.value? key = some v ↔ (key, v) ∈ store.entries := by
  have hnodup := store.keys_nodup
  rw [Keyspace.value?]
  generalize store.entries = entries at hnodup
  induction entries with
  | nil => simp
  | cons entry rest ih =>
      obtain ⟨key', v'⟩ := entry
      obtain ⟨hnew, hrest⟩ := List.nodup_cons.1 hnodup
      rw [List.lookup_cons, List.mem_cons]
      by_cases hkey : key = key'
      · subst hkey
        have habsent : (key, v) ∉ rest := fun hmem => hnew (List.mem_map.2 ⟨_, hmem, rfl⟩)
        simp [habsent, eq_comm]
      · have hskip : (key == key') = false := by simpa using hkey
        simp [hskip, ih hrest, hkey]

theorem statementOf_eq_some_iff {entry : String × Value} {s : Statement} :
    statementOf keys entry = some s ↔
      ∃ contents, entry = (keys.statement s.event, .text contents) ∧ Keyed.readStatement contents = .ok s := by
  obtain ⟨key, v⟩ := entry
  constructor
  · intro h
    unfold statementOf at h
    split at h
    · rename_i contents hv
      split at h
      · rename_i t hread
        split at h
        · rename_i hkey
          obtain rfl := Option.some.inj h
          exact ⟨contents, Prod.ext hkey hv, hread⟩
        · cases h
      · cases h
    · cases h
  · rintro ⟨contents, hentry, hread⟩
    obtain ⟨rfl, rfl⟩ := Prod.mk.inj hentry
    simp [statementOf, hread]

theorem mem_storedIn_iff {s : Statement} : s ∈ storedIn keys store ↔
    ∃ contents, store.value? (keys.statement s.event) = some (.text contents) ∧
      Keyed.readStatement contents = .ok s := by
  simp only [storedIn, List.mem_filterMap, statementOf_eq_some_iff, Keyspace.value?_eq_some_iff]
  constructor
  · rintro ⟨entry, hentry, contents, rfl, hread⟩
    exact ⟨contents, hentry, hread⟩
  · rintro ⟨contents, hentry, hread⟩
    exact ⟨_, hentry, contents, rfl, hread⟩

theorem storedIn_keys_sublist (keys : Keys) (store : Keyspace) :
    ((storedIn keys store).map fun s => keys.statement s.event).Sublist (store.entries.map (·.1)) := by
  rw [storedIn]
  generalize store.entries = entries
  induction entries with
  | nil => exact .slnil
  | cons entry rest ih =>
      cases hentry : statementOf keys entry with
      | none =>
          rw [List.filterMap_cons_none hentry]
          exact ih.trans (List.sublist_cons_self _ _)
      | some s =>
          obtain ⟨contents, rfl, -⟩ := statementOf_eq_some_iff.1 hentry
          rw [List.filterMap_cons_some hentry]
          exact ih.cons_cons _

/-- The statements that were posted are those that are stored. -/
theorem Keeps.mem_storedIn (h : Keeps keys store posted) {s : Statement} :
    s ∈ storedIn keys store ↔ s ∈ posted := by
  rw [mem_storedIn_iff, h.statement]
  constructor
  · rintro ⟨contents, hvalue, hread⟩
    obtain ⟨t, ht, hcontents⟩ := Option.map_eq_some_iff.1 hvalue
    rw [← Value.text.inj hcontents, Keyed.readStatement_print] at hread
    rw [← Except.ok.inj hread]
    exact List.mem_of_find?_eq_some ht
  · intro hs
    rw [(find?_event_eq_some_iff h.events).2 ⟨hs, rfl⟩]
    exact ⟨_, rfl, Keyed.readStatement_print s⟩

theorem Keeps.storedIn_perm (h : Keeps keys store posted) : (storedIn keys store).Perm posted := by
  have hstored := (storedIn_keys_sublist keys store).nodup store.keys_nodup
  exact (List.perm_ext_iff_of_nodup hstored.of_map h.events.of_map).2 fun s => h.mem_storedIn

theorem billed_perm {xs ys : List Statement} (h : xs.Perm ys) (user : String) : billed xs user = billed ys user :=
  ((h.filter _).map _).sum_eq

theorem Keeps.membersAt_eq (h : Keeps keys store posted) (user : String) :
    IsIndex posted user (membersAt store (keys.statements user)) := by
  obtain ⟨members, hindex, hvalue⟩ := h.index user
  rw [membersAt, hvalue]
  by_cases hnone : members = []
  · rw [if_pos hnone]
    exact hnone ▸ hindex
  · rw [if_neg hnone]
    exact hindex

theorem Keeps.isConsistent (h : Keeps keys store posted) : IsConsistent keys store where
  readable id v hv := by
    rw [h.statement] at hv
    obtain ⟨s, hs, rfl⟩ := Option.map_eq_some_iff.1 hv
    exact ⟨_, s, rfl, Keyed.readStatement_print s, by simpa using List.find?_some hs⟩
  set user v hv := by
    obtain ⟨members, -, hvalue⟩ := h.index user
    rw [hvalue] at hv
    split at hv
    · cases hv
    · exact ⟨members, (Option.some.inj hv).symm⟩
  indexed user score id := by
    rw [(h.membersAt_eq user).perm.mem_iff, List.mem_map]
    simp only [List.mem_filter, decide_eq_true_eq, h.mem_storedIn, place, Prod.mk.injEq, and_assoc]
  once user := by
    have hevents : ((posted.filter fun s => s.user = user).map (·.event)).Nodup :=
      (List.filter_sublist.map _).nodup h.events
    have hids := hevents.map fun a b heq => Uuid.toText_injective (String.ofList_injective heq)
    rw [((h.membersAt_eq user).perm.map _).nodup_iff]
    rwa [List.map_map] at hids ⊢
  account s hs := h.account s (h.mem_storedIn.1 hs)
  balance user v hv := by
    obtain ⟨n, hn, hbilled⟩ := h.balance user v hv
    refine ⟨n, hn, ?_⟩
    rw [billed_perm h.storedIn_perm, hbilled]
    rw [div_mul_cancel₀ _ (by positivity)]

/-! ### Clients -/

/-- Whether a client's call, which is one command at most, leaves a keyspace as another one. A client is told
by what it has sent and what is going to be refused to it. -/
def Moves (keys : Keys) (store store' : Keyspace) : Prop :=
  ∃ call refusing sent, (Keyed.serve call ⟨keys, store, refusing, sent⟩).2.store = store'

/-- Whether clients can lead from a keyspace to another one. -/
def Reaches (keys : Keys) : Keyspace → Keyspace → Prop := Relation.ReflTransGen (Moves keys)

theorem Keeps.reaches {later : Keyspace} (h : Keeps keys store posted) (hreach : Reaches keys store later) :
    ∃ more, Keeps keys later (posted ++ more) := by
  induction hreach with
  | refl => exact ⟨[], by rwa [List.append_nil]⟩
  | tail _ hmove ih =>
      obtain ⟨more, hmore⟩ := ih
      obtain ⟨call, refusing, sent, rfl⟩ := hmove
      have hkeeps := Keyed.keeps_serve (k := ⟨keys, _, refusing, sent⟩) hmore call
      rw [List.append_assoc] at hkeeps
      exact ⟨_, hkeeps⟩

/-! ### Listings -/

/-- The identifiers of a listing's page. -/
def scan (keys : Keys) (q : Query) (store : Keyspace) : Except Refusal (List String) :=
  store.rangeByScore (keys.statements q.user) q.start.toMillis q.stop.toMillis q.page.offset.toInt64.toInt
    q.page.size.toInt64.toInt

/-- The texts of the statements with some identifiers. -/
def fetch (keys : Keys) (ids : List String) (store : Keyspace) : List (Option String) :=
  store.texts (ids.map keys.statementText)

/-- A listing scans a set and fetches what the scan named; either command may be refused. -/
theorem Keyed.list_eq (q : Query) (k : Keyed) : Keyed.list q k =
    if q.page.size = 0 then (.ok [], k)
    else
      match k.send .rangeByScore (reading (scan k.keys q)) with
      | (.error _, k) => (.error (failed .indexScan), k)
      | (.ok [], k) => (.ok [], k)
      | (.ok ids, k) =>
        match k.send .texts (reading fun store => .ok (fetch k.keys ids store)) with
        | (.error _, k) => (.error (failed .statementFetch), k)
        | (.ok contents, k) => ((contents.filterMap id).mapM readStatement, k) := rfl

theorem exists_statements {ids : List String}
    (h : ∀ id ∈ ids, ∃ s ∈ posted, String.ofList s.event.toText = id) :
    ∃ found : List Statement, found.map (fun s => String.ofList s.event.toText) = ids ∧
      ∀ s ∈ found, s ∈ posted := by
  induction ids with
  | nil => exact ⟨[], rfl, by simp⟩
  | cons id ids ih =>
      obtain ⟨s, hs, rfl⟩ := h id List.mem_cons_self
      obtain ⟨found, rfl, hfound⟩ := ih fun id hid => h id (List.mem_cons_of_mem _ hid)
      exact ⟨s :: found, rfl, by simpa using ⟨hs, hfound⟩⟩

/-- A scan names statements that were posted. -/
theorem Keeps.scan_eq (h : Keeps keys store posted) (q : Query) : ∃ found : List Statement,
    scan keys q store = .ok (found.map fun s => String.ofList s.event.toText) ∧ ∀ s ∈ found, s ∈ posted := by
  obtain ⟨members, hindex, hvalue⟩ := h.index q.user
  have hmember : ∀ id ∈ members.map (·.2), ∃ s ∈ posted, String.ofList s.event.toText = id := by
    intro id hid
    obtain ⟨x, hx, rfl⟩ := List.mem_map.1 hid
    obtain ⟨s, hs, rfl⟩ := List.mem_map.1 (hindex.perm.mem_iff.1 hx)
    exact ⟨s, (List.mem_filter.1 hs).1, rfl⟩
  have hscan : ∃ ids, scan keys q store = .ok ids ∧ ids.Sublist (members.map (·.2)) := by
    rw [scan, Keyspace.rangeByScore, hvalue]
    by_cases hnone : members = []
    · rw [if_pos hnone]
      exact ⟨[], rfl, List.nil_sublist _⟩
    · rw [if_neg hnone]
      dsimp only
      have hselected : ((members.filter fun x => q.start.toMillis ≤ x.1 && x.1 ≤ q.stop.toMillis).map (·.2)).Sublist
          (members.map (·.2)) := List.filter_sublist.map _
      split
      · exact ⟨[], rfl, List.nil_sublist _⟩
      · refine ⟨_, rfl, ?_⟩
        split
        · exact (List.drop_sublist _ _).trans hselected
        · exact (List.take_sublist _ _).trans ((List.drop_sublist _ _).trans hselected)
  obtain ⟨ids, hids, hsublist⟩ := hscan
  obtain ⟨found, rfl, hfound⟩ := exists_statements fun id hid => hmember id (hsublist.subset hid)
  exact ⟨found, hids, hfound⟩

/-- Statements that were posted are fetched by their identifiers. -/
theorem Keeps.fetch_eq (h : Keeps keys store posted) {found : List Statement} (hfound : ∀ s ∈ found, s ∈ posted) :
    fetch keys (found.map fun s => String.ofList s.event.toText) store =
      found.map fun s => some (String.ofList s.print) := by
  rw [fetch, Keyspace.texts, List.map_map, List.map_map]
  refine List.map_congr_left fun s hs => ?_
  have hvalue : store.value? (keys.statement s.event) = some (.text (String.ofList s.print)) := by
    rw [h.statement, (find?_event_eq_some_iff h.events).2 ⟨hfound s hs, rfl⟩]
    rfl
  change (store.text? (keys.statement s.event)).toOption.join = _
  rw [Keyspace.text?, hvalue]
  rfl

theorem mapM_readStatement (found : List Statement) :
    ((found.map fun s => some (String.ofList s.print)).filterMap id).mapM Keyed.readStatement = .ok found := by
  induction found with
  | nil => rfl
  | cons s found ih =>
      rw [List.map_cons, List.filterMap_cons]
      dsimp only [id]
      rw [List.mapM_cons, Keyed.readStatement_print, ih]
      rfl

/-- Whatever clients do to a keyspace that had no key of their ledger, the keys of the ledger agree, and a
listing finds each statement that its scan named, in the order of the scan, however long after the scan
it fetches them. -/
theorem reachable_isConsistent {opening : Keyspace}
    (hforeign : ∀ key, keys.IsOwn key → opening.value? key = none) (hreach : Reaches keys opening store) :
    IsConsistent keys store ∧
      ∀ q, ∃ ids, scan keys q store = .ok ids ∧ ∀ later, Reaches keys store later →
        ∃ found : List Statement, found.map (fun s => String.ofList s.event.toText) = ids ∧
          (∀ s ∈ found, s ∈ storedIn keys later) ∧
          fetch keys ids later = found.map (fun s => some (String.ofList s.print)) ∧
          ((fetch keys ids later).filterMap id).mapM Keyed.readStatement = .ok found := by
  obtain ⟨posted, hkeeps⟩ := (keeps_nil hforeign).reaches hreach
  refine ⟨hkeeps.isConsistent, fun q => ?_⟩
  obtain ⟨found, hscan, hfound⟩ := hkeeps.scan_eq q
  refine ⟨_, hscan, fun later hlater => ?_⟩
  obtain ⟨more, hkeeps'⟩ := hkeeps.reaches hlater
  have hfound' : ∀ s ∈ found, s ∈ [] ++ posted ++ more := fun s hs => List.mem_append_left _ (hfound s hs)
  have hfetch := hkeeps'.fetch_eq hfound'
  refine ⟨found, rfl, fun s hs => hkeeps'.mem_storedIn.2 (hfound' s hs), hfetch, ?_⟩
  rw [hfetch]
  exact mapM_readStatement found

/-- A charge of one and a half credits. -/
def charge : Statement where
  event := ⟨7⟩
  user := "u:1"
  value := ⟨-15, 1, by decide, by decide⟩
  amount := ⟨-1500000, 6, by decide, by decide⟩
  scene := .space
  operator := 3
  customer := ""
  eventDate := Instant.epoch
  price := ""
  priceUnit := ""
  consumption := Decimal.zero
  duration := ""
  createdAt := Instant.epoch

/-- A keyspace that somebody else uses. -/
def foreignStore : Keyspace := Keyspace.empty.put "other" (.text "x")

/-- One client opens the account, another posts to it, and a third is refused. -/
def sharedStore : Keyspace :=
  let opened := (Keyed.serve (.ensure "u:1") ⟨⟨"tally"⟩, foreignStore, [], []⟩).2.store
  let charged := (Keyed.serve (.create charge charge.amount) ⟨⟨"tally"⟩, opened, [], []⟩).2.store
  (Keyed.serve (.ensure "u:2") ⟨⟨"tally"⟩, charged, [(.putNew, 1)], []⟩).2.store

theorem foreignStore_is_foreign (key : String) (h : Keys.IsOwn ⟨"tally"⟩ key) : foreignStore.value? key = none := by
  have hletter : Keys.letter ⟨"tally"⟩ "other" = none := by decide
  rw [foreignStore, Keyspace.value?_put, if_neg, Keyspace.value?_empty]
  refine Keys.ne_of_letter (k := ⟨"tally"⟩) ?_
  rw [hletter]
  rcases h with ⟨id, rfl⟩ | ⟨user, rfl⟩ | ⟨user, rfl⟩ | rfl
  · simp
  · simp
  · simp
  · simp

theorem sharedStore_reached : Reaches ⟨"tally"⟩ foreignStore sharedStore :=
  ((Relation.ReflTransGen.single ⟨.ensure "u:1", [], [], rfl⟩).tail
    ⟨.create charge charge.amount, [], [], rfl⟩).tail ⟨.ensure "u:2", [(.putNew, 1)], [], rfl⟩

theorem sharedStore_isConsistent :
    sharedStore.has (Keys.statement ⟨"tally"⟩ charge.event) = true ∧ IsConsistent ⟨"tally"⟩ sharedStore :=
  ⟨by decide +kernel, (reachable_isConsistent foreignStore_is_foreign sharedStore_reached).1⟩

end UsageLedger.Ledger
