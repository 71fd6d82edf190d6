import Mathlib.Data.List.Sort
import UsageLedger.Proofs.Ledger.Consistency
import UsageLedger.Proofs.Ledger.Simulation

/-! Listings of the two ledgers. In memory, statements are selected and ordered by their full date; in a
keyspace, by the millisecond of it, and those of one millisecond by event. Pages are cut alike from both,
also where sizes and offsets are beyond what the keyspace counts in. The listings are therefore the same
exactly when the milliseconds tell the selected statements apart from the others and in the same order,
as they do for dates of whole milliseconds. -/

namespace UsageLedger.Ledger

/-- The same query for another page. -/
def Query.on (q : Query) (page : Page) : Query := { q with page := page }

/-- Whether a statement is found by the millisecond of its date. -/
def Query.spans (q : Query) (s : Statement) : Bool :=
  s.user == q.user && q.start.toMillis ≤ s.eventDate.toMillis && s.eventDate.toMillis ≤ q.stop.toMillis

/-- The order of a listing by date and event. -/
def dateLe (a b : Statement) : Bool := Statement.listingOrder a b != .gt

/-- The order of a listing by the millisecond of the date and event. -/
def millisLe (a b : Statement) : Bool :=
  a.eventDate.toMillis < b.eventDate.toMillis ||
    (a.eventDate.toMillis == b.eventDate.toMillis && a.event.bits.toNat ≤ b.event.bits.toNat)

/-! ### Orders -/

theorem compare_then_ne_gt_iff {α : Type} [LinearOrder α] {a b : α} {o : Ordering} :
    (compare a b).then o ≠ .gt ↔ a < b ∨ a = b ∧ o ≠ .gt := by
  rcases lt_trichotomy a b with hlt | heq | hgt
  · rw [compare_lt_iff_lt.2 hlt]
    simp [hlt]
  · rw [compare_eq_iff_eq.2 heq]
    simp [heq]
  · rw [compare_gt_iff_gt.2 hgt]
    simp [hgt.ne', hgt.le]

theorem instant_le_iff {a b : Instant} : a.le b = true ↔
    a.day < b.day ∨ a.day = b.day ∧ (a.second < b.second ∨ a.second = b.second ∧ a.nano ≤ b.nano) := by
  rw [Instant.le, bne_iff_ne, Instant.compare, compare_then_ne_gt_iff, compare_then_ne_gt_iff, ne_eq,
    compare_gt_iff_gt, not_lt]

theorem dateLe_iff {a b : Statement} : dateLe a b = true ↔
    a.eventDate.day < b.eventDate.day ∨ a.eventDate.day = b.eventDate.day ∧
      (a.eventDate.second < b.eventDate.second ∨ a.eventDate.second = b.eventDate.second ∧
        (a.eventDate.nano < b.eventDate.nano ∨ a.eventDate.nano = b.eventDate.nano ∧
          a.event.bits.toNat ≤ b.event.bits.toNat)) := by
  rw [dateLe, bne_iff_ne, Statement.listingOrder, Instant.compare, Ordering.then_assoc, Ordering.then_assoc,
    compare_then_ne_gt_iff, compare_then_ne_gt_iff, compare_then_ne_gt_iff, Uuid.compare, ne_eq,
    compare_gt_iff_gt, not_lt]

theorem millisLe_iff {a b : Statement} : millisLe a b = true ↔
    a.eventDate.toMillis < b.eventDate.toMillis ∨
      a.eventDate.toMillis = b.eventDate.toMillis ∧ a.event.bits.toNat ≤ b.event.bits.toNat := by
  simp [millisLe]

theorem millisLe_eq (a b : Statement) : millisLe a b = Keyspace.memberLe (place a) (place b) := by
  rw [Bool.eq_iff_iff, millisLe_iff, Keyspace.memberLe_iff, place, place, Uuid.ofList_toText_le_iff]

theorem millisLe_total (a b : Statement) : millisLe a b = true ∨ millisLe b a = true := by
  rw [millisLe_iff, millisLe_iff]
  omega

theorem millisLe_trans {a b c : Statement} (hab : millisLe a b = true) (hbc : millisLe b c = true) :
    millisLe a c = true := by
  rw [millisLe_iff] at hab hbc ⊢
  omega

theorem dateLe_total (a b : Statement) : dateLe a b = true ∨ dateLe b a = true := by
  rw [dateLe_iff, dateLe_iff]
  omega

theorem dateLe_trans {a b c : Statement} (hab : dateLe a b = true) (hbc : dateLe b c = true) :
    dateLe a c = true := by
  rw [dateLe_iff] at hab hbc ⊢
  omega

theorem event_eq_of_bits {a b : Uuid} (h : a.bits.toNat = b.bits.toNat) : a = b :=
  Uuid.ext (BitVec.eq_of_toNat_eq h)

theorem millisLe_antisymm {a b : Statement} (hab : millisLe a b = true) (hba : millisLe b a = true) :
    a.event = b.event := by
  rw [millisLe_iff] at hab hba
  exact event_eq_of_bits (by omega)

theorem dateLe_antisymm {a b : Statement} (hab : dateLe a b = true) (hba : dateLe b a = true) :
    a.event = b.event := by
  rw [dateLe_iff] at hab hba
  exact event_eq_of_bits (by omega)

theorem pairwise_mergeSort_of (le : Statement → Statement → Bool)
    (htrans : ∀ a b c, le a b = true → le b c = true → le a c = true)
    (htotal : ∀ a b, le a b = true ∨ le b a = true) (l : List Statement) :
    (l.mergeSort le).Pairwise fun a b => le a b = true :=
  List.pairwise_mergeSort htrans (fun a b => Bool.or_eq_true_iff.2 (htotal a b)) l

/-! ### Pages -/

/-- What a keyspace takes of a page, in numbers of 64 bits with a sign, is the page, as long as there are not
too many items for such numbers. -/
theorem slice_eq {α : Type} (p : Page) {items : List α} (hcount : items.length < 2 ^ 63) :
    (if p.offset.toInt64.toInt < 0 then []
      else
        let rest := items.drop p.offset.toInt64.toInt.toNat
        if p.size.toInt64.toInt < 0 then rest else rest.take p.size.toInt64.toInt.toNat) = p.slice items := by
  have hsigned : ∀ u : UInt64, u.toInt64.toInt = if u.toNat < 2 ^ 63 then (u.toNat : Int) else u.toNat - 2 ^ 64 := by
    intro u
    change u.toBitVec.toInt = _
    rw [BitVec.toInt_eq_toNat_cond]
    have hbits : u.toBitVec.toNat = u.toNat := rfl
    rw [hbits]
    split <;> split <;> omega
  have hoffset := p.offset.toNat_lt
  have hsize := p.size.toNat_lt
  rw [Page.slice, hsigned, hsigned]
  by_cases hfar : p.offset.toNat < 2 ^ 63
  · rw [if_pos hfar, if_neg (by omega), Int.toNat_natCast]
    by_cases hlong : p.size.toNat < 2 ^ 63
    · rw [if_pos hlong, if_neg (by omega), Int.toNat_natCast]
    · rw [if_neg hlong, if_pos (by omega), List.take_of_length_le]
      rw [List.length_drop]
      omega
  · rw [if_neg hfar, if_pos (by omega), List.drop_of_length_le (by omega), List.take_nil]

theorem slice_map {α β : Type} (p : Page) (f : α → β) (items : List α) :
    p.slice (items.map f) = (p.slice items).map f := by
  rw [Page.slice, Page.slice, List.map_take, List.map_drop]

theorem mem_of_mem_slice {α : Type} {p : Page} {items : List α} {a : α} (h : a ∈ p.slice items) : a ∈ items :=
  List.mem_of_mem_drop (List.mem_of_mem_take h)

/-- A page that holds everything there is. -/
theorem slice_whole {α : Type} {items : List α} (hcount : items.length < 2 ^ 63) :
    Page.slice ⟨UInt64.ofNat (2 ^ 64 - 1), 1⟩ items = items := by
  have hsize : (UInt64.ofNat (2 ^ 64 - 1)).toNat = 2 ^ 64 - 1 := rfl
  rw [Page.slice, Page.toNat_offset, hsize]
  simp
  omega

/-! ### The keyspace -/

variable {posted : List Statement}

/-- The members of a user's set in a range of milliseconds are the places of the statements there. -/
theorem IsIndex.selected {q : Query} {members : List (Int × String)} (h : IsIndex posted q.user members) :
    members.filter (fun x => q.start.toMillis ≤ x.1 && x.1 ≤ q.stop.toMillis) =
      ((posted.filter q.spans).mergeSort millisLe).map place := by
  have hperm : (members.filter fun x => q.start.toMillis ≤ x.1 && x.1 ≤ q.stop.toMillis).Perm
      (((posted.filter q.spans).mergeSort millisLe).map place) := by
    refine (h.perm.filter _).trans ?_
    rw [List.filter_map, List.filter_filter]
    refine List.Perm.trans (List.Perm.of_eq ?_) ((List.mergeSort_perm _ _).symm.map _)
    refine congrArg _ (List.filter_congr fun s _ => ?_)
    rw [Query.spans, Bool.and_comm, Bool.and_assoc, beq_eq_decide]
    rfl
  have hsorted : (((posted.filter q.spans).mergeSort millisLe).map place).Pairwise
      fun a b => Keyspace.memberLe a b = true := by
    rw [List.pairwise_map]
    have hmillis := pairwise_mergeSort_of millisLe (fun _ _ _ => millisLe_trans) millisLe_total (posted.filter q.spans)
    simpa only [millisLe_eq] using hmillis
  refine hperm.eq_of_pairwise ?_ (h.sorted.filter _) hsorted
  intro a b _ _ hab hba
  rw [Keyspace.memberLe_iff] at hab hba
  rcases hab with hab | ⟨hscore, hab⟩
  · rcases hba with hba | ⟨hscore, -⟩ <;> omega
  · rcases hba with hba | ⟨-, hba⟩
    · omega
    · exact Prod.ext hscore (String.le_antisymm hab hba)

theorem Keeps.scan_slice {keys : Keys} {store : Keyspace} (h : Keeps keys store posted)
    (hcount : posted.length < 2 ^ 63) (q : Query) :
    scan keys q store = .ok ((q.page.slice ((posted.filter q.spans).mergeSort millisLe)).map
      fun s => String.ofList s.event.toText) := by
  obtain ⟨members, hindex, hvalue⟩ := h.index q.user
  have hselected := hindex.selected
  have hshort : (((posted.filter q.spans).mergeSort millisLe).map fun s => String.ofList s.event.toText).length <
      2 ^ 63 := by
    rw [List.length_map, List.length_mergeSort]
    exact (List.length_filter_le _ _).trans_lt hcount
  rw [← slice_map, ← slice_eq q.page hshort, scan, Keyspace.rangeByScore, hvalue]
  by_cases hnone : members = []
  · subst hnone
    rw [List.filter_nil, eq_comm, List.map_eq_nil_iff] at hselected
    rw [if_pos rfl, hselected]
    simp
  · rw [if_neg hnone]
    dsimp only
    rw [hselected, List.map_map]
    change (if _ then _ else _) = _
    split <;> rfl

namespace Keyed

/-- A listing of a keyspace that refuses nothing is the page of the statements found by millisecond, in the
order of milliseconds. -/
theorem list_of_keeps {k : Keyed} (h : Keeps k.keys k.store posted) (hobliging : k.refusing = [])
    (hcount : posted.length < 2 ^ 63) (q : Query) :
    (list q k).1 = .ok (q.page.slice ((posted.filter q.spans).mergeSort millisLe)) := by
  have hscan := h.scan_slice hcount q
  have hmem : ∀ s ∈ q.page.slice ((posted.filter q.spans).mergeSort millisLe), s ∈ posted := by
    intro s hs
    exact (List.mem_filter.1 ((List.mergeSort_perm _ _).mem_iff.1 (mem_of_mem_slice hs))).1
  rw [list_eq]
  split
  · rename_i hsize
    rw [Page.slice, hsize]
    rfl
  · generalize q.page.slice ((posted.filter q.spans).mergeSort millisLe) = found at hscan hmem
    rw [send_of_obliging hobliging]
    dsimp only [reading]
    rw [hscan]
    cases found with
    | nil => rfl
    | cons s rest =>
        have hfetch := h.fetch_eq hmem
        have hread := mapM_readStatement (s :: rest)
        rw [← hfetch] at hread
        rw [List.map_cons] at hread ⊢
        dsimp only
        rw [send_of_obliging rfl]
        dsimp only
        exact hread

end Keyed

/-! ### Agreement -/

/-- Whether the milliseconds tell the statements that a query selects apart from the others, and put them in
the order of their dates. -/
structure MillisSuffice (q : Query) (statements : List Statement) : Prop where
  spans : ∀ s ∈ statements, q.spans s = q.selects s
  order : ∀ s ∈ statements, ∀ t ∈ statements, q.selects s = true → q.selects t = true →
    dateLe s t = true → millisLe s t = true

theorem mem_sorted_iff {p : Statement → Bool} {le : Statement → Statement → Bool} {statements : List Statement}
    {s : Statement} : s ∈ (statements.filter p).mergeSort le ↔ s ∈ statements ∧ p s = true := by
  rw [(List.mergeSort_perm _ _).mem_iff, List.mem_filter]

/-- The statements in both orders are the same exactly when milliseconds suffice. -/
theorem sorted_eq_iff {q : Query} {statements : List Statement}
    (hevents : (statements.map (·.event)).Nodup) :
    (statements.filter q.spans).mergeSort millisLe = (statements.filter q.selects).mergeSort dateLe ↔
      MillisSuffice q statements := by
  have hsame : ∀ {s t}, s ∈ statements → t ∈ statements → s.event = t.event → s = t :=
    fun hs ht => List.inj_on_of_nodup_map hevents hs ht
  have hdates := pairwise_mergeSort_of dateLe (fun _ _ _ => dateLe_trans) dateLe_total (statements.filter q.selects)
  have hmillis := pairwise_mergeSort_of millisLe (fun _ _ _ => millisLe_trans) millisLe_total
    (statements.filter q.spans)
  constructor
  · intro heq
    have hmem : ∀ s ∈ statements, (q.spans s = true ↔ q.selects s = true) := by
      intro s hs
      have hiff : s ∈ (statements.filter q.spans).mergeSort millisLe ↔
          s ∈ (statements.filter q.selects).mergeSort dateLe := by rw [heq]
      simpa [mem_sorted_iff, hs] using hiff
    refine ⟨fun s hs => Bool.eq_iff_iff.2 (hmem s hs), fun s hs t ht hs' ht' hle => ?_⟩
    -- in a list that is in both orders, any two are in both orders one way or the other
    rw [heq] at hmillis
    have hrefl : ∀ a : Statement, dateLe a a = true ∧ millisLe a a = true := by
      intro a
      exact ⟨(dateLe_total a a).elim id id, (millisLe_total a a).elim id id⟩
    have hpair : dateLe s t = true ∧ millisLe s t = true ∨ dateLe t s = true ∧ millisLe t s = true :=
      List.Pairwise.forall_of_forall_of_flip
        (R := fun a b => dateLe a b = true ∧ millisLe a b = true ∨ dateLe b a = true ∧ millisLe b a = true)
        (fun a _ => .inl (hrefl a)) ((hdates.and hmillis).imp .inl) ((hdates.and hmillis).imp .inr)
        (mem_sorted_iff.2 ⟨hs, hs'⟩) (mem_sorted_iff.2 ⟨ht, ht'⟩)
    rcases hpair with ⟨-, hst⟩ | ⟨hback, -⟩
    · exact hst
    · rw [hsame hs ht (dateLe_antisymm hle hback)]
      exact (hrefl t).2
  · intro hsuffice
    have hfilter : statements.filter q.spans = statements.filter q.selects :=
      List.filter_congr hsuffice.spans
    have hperm : ((statements.filter q.spans).mergeSort millisLe).Perm
        ((statements.filter q.selects).mergeSort dateLe) := by
      rw [hfilter]
      exact (List.mergeSort_perm _ _).trans (List.mergeSort_perm _ _).symm
    refine hperm.eq_of_pairwise ?_ hmillis (hdates.imp_of_mem fun {a b} ha hb hle => ?_)
    · intro a b ha hb hab hba
      exact hsame (mem_sorted_iff.1 ha).1 (mem_sorted_iff.1 hb).1 (millisLe_antisymm hab hba)
    · obtain ⟨ha, ha'⟩ := mem_sorted_iff.1 ha
      obtain ⟨hb, hb'⟩ := mem_sorted_iff.1 hb
      exact hsuffice.order a ha b hb ha' hb' hle

/-- An instant on a whole millisecond, in no leap second. -/
def IsWholeMilli (a : Instant) : Prop := a.nano % 1000000 = 0 ∧ a.nano < 1000000000

theorem toMillis_lt_iff {a b : Instant} (ha : IsWholeMilli a) (hb : IsWholeMilli b) :
    a.toMillis < b.toMillis ↔ a.day < b.day ∨ a.day = b.day ∧
      (a.second < b.second ∨ a.second = b.second ∧ a.nano < b.nano) := by
  obtain ⟨ha, ha'⟩ := ha
  obtain ⟨hb, hb'⟩ := hb
  have hsecond := a.second_lt
  have hsecond' := b.second_lt
  rw [Instant.toMillis, Instant.toMillis]
  omega

/-- Milliseconds suffice for dates that are on whole milliseconds, none of them in a leap second. -/
theorem millisSuffice_of_whole {q : Query} {statements : List Statement} (hstart : IsWholeMilli q.start)
    (hstop : IsWholeMilli q.stop) (hdates : ∀ s ∈ statements, IsWholeMilli s.eventDate) :
    MillisSuffice q statements := by
  have hle : ∀ {a b : Instant}, IsWholeMilli a → IsWholeMilli b → (a.toMillis ≤ b.toMillis ↔ a.le b = true) := by
    intro a b ha hb
    rw [← not_lt, toMillis_lt_iff hb ha, instant_le_iff]
    omega
  refine ⟨fun s hs => ?_, fun s hs t ht _ _ hdate => ?_⟩
  · have hlow := hle hstart (hdates s hs)
    have hhigh := hle (hdates s hs) hstop
    rw [Bool.eq_iff_iff]
    simp only [Query.spans, Query.selects, Bool.and_eq_true, decide_eq_true_eq, hlow, hhigh]
  · have hlt := toMillis_lt_iff (hdates s hs) (hdates t ht)
    have hgt := toMillis_lt_iff (hdates t ht) (hdates s hs)
    rw [dateLe_iff] at hdate
    rw [millisLe_iff]
    omega

/-! ### Runs -/

/-- Whether two ledgers that are given the same calls post the same statements at each of them. -/
def PostsAlike (calls : List Call) (k : Keyed) (m : InMemory) : Prop :=
  ∀ before call rest, calls = before ++ call :: rest →
    call.posting? Keyed.serve (after Keyed.serve before k) =
      call.posting? InMemory.serve (after InMemory.serve before m)

namespace Keyed

variable {k : Keyed} {m : InMemory}

theorem serve_obliging (h : k.refusing = []) (call : Call) : (serve call k).2.keys = k.keys ∧
    (serve call k).2.refusing = [] := by
  cases call with
  | record e =>
      change (record e k).2.keys = _ ∧ (record e k).2.refusing = _
      rw [record_snd, send_of_obliging h]
      exact ⟨rfl, rfl⟩
  | find id =>
      change (find id k).2.keys = _ ∧ (find id k).2.refusing = _
      rw [find_snd, send_of_obliging h]
      exact ⟨rfl, rfl⟩
  | ensure user =>
      change (ensure user k).2.keys = _ ∧ (ensure user k).2.refusing = _
      rw [ensure_snd, send_of_obliging h]
      exact ⟨rfl, rfl⟩
  | create s delta =>
      change (create s delta k).2.keys = _ ∧ (create s delta k).2.refusing = _
      rcases create_cases_exact s delta k with ⟨error, hrefused⟩ | ⟨micros, hsame, hexact⟩
      · rw [hrefused]
        exact ⟨rfl, h⟩
      · rw [create_of_exact hsame hexact, send_of_obliging h]
        exact ⟨rfl, rfl⟩
  | balance user =>
      change (balance user k).2.keys = _ ∧ (balance user k).2.refusing = _
      rw [balance_snd, send_of_obliging h]
      exact ⟨rfl, rfl⟩

/-- Ledgers that post alike keep the same statements. -/
theorem keeps_after (hkeeps : Keeps k.keys k.store m.statements) (hobliging : k.refusing = []) {calls : List Call}
    (halike : PostsAlike calls k m) :
    Keeps (after serve calls k).keys (after serve calls k).store (after InMemory.serve calls m).statements ∧
      (after serve calls k).refusing = [] := by
  induction calls generalizing k m with
  | nil => exact ⟨hkeeps, hobliging⟩
  | cons call calls ih =>
      obtain ⟨hkeys, hobliging'⟩ := serve_obliging hobliging call
      refine ih ?_ hobliging' fun before c rest hsplit => halike (call :: before) c rest (by rw [hsplit]; rfl)
      have hposting : call.posting? serve k = call.posting? InMemory.serve m := halike [] call calls rfl
      rw [hkeys, serve_statements, ← hposting]
      exact keeps_serve hkeeps call

end Keyed

/-- Ledgers that are empty at first post alike as long as what is posted is a whole number of micro-credits
and balances stay in 64 bits. -/
theorem postsAlike_of_whole (lead : String) {calls : List Call} (hwhole : ∀ call ∈ calls, IsWhole call)
    (hbounded : ∀ before rest, calls = before ++ rest → IsBounded (after InMemory.serve before InMemory.empty)) :
    PostsAlike calls (Keyed.fresh lead) InMemory.empty := by
  intro before call rest hsplit
  have hagree := Keyed.agree_at lead hwhole hbounded hsplit
  cases call with
  | create s delta =>
      have hsame : (Keyed.serve (.create s delta) (after Keyed.serve before (Keyed.fresh lead))).1 =
          (InMemory.serve (.create s delta) (after InMemory.serve before InMemory.empty)).1 := hagree
      unfold Call.posting?
      dsimp only
      rw [hsame]
  | record e => rfl
  | find id => rfl
  | ensure user => rfl
  | balance user => rfl

/-- After calls at which a ledger in a keyspace and one in memory, both empty at first, post alike, the one in
memory lists the statements of a user and a range of dates by date and event, and the one in the keyspace
those of the range of milliseconds by millisecond and event. The two agree on all pages exactly when
milliseconds suffice, and so whenever all dates are on whole milliseconds and in no leap second. -/
theorem listings_agree_iff (lead : String) {calls : List Call}
    (halike : PostsAlike calls (Keyed.fresh lead) InMemory.empty)
    (hcount : (after InMemory.serve calls InMemory.empty).statements.length < 2 ^ 63) (q : Query) :
    let k := after Keyed.serve calls (Keyed.fresh lead)
    let m := after InMemory.serve calls InMemory.empty
    (∀ page, m.list (q.on page) = page.slice ((m.statements.filter q.selects).mergeSort dateLe)) ∧
      (∀ page, (Keyed.list (q.on page) k).1 =
        .ok (page.slice ((m.statements.filter q.spans).mergeSort millisLe))) ∧
      ((∀ page, (Keyed.list (q.on page) k).1 = .ok (m.list (q.on page))) ↔ MillisSuffice q m.statements) ∧
      (IsWholeMilli q.start → IsWholeMilli q.stop → (∀ s ∈ m.statements, IsWholeMilli s.eventDate) →
        ∀ page, (Keyed.list (q.on page) k).1 = .ok (m.list (q.on page))) := by
  intro k m
  obtain ⟨hkeeps, hobliging⟩ := Keyed.keeps_after (keeps_nil fun _ _ => rfl) rfl halike
  have hmemory : ∀ page, m.list (q.on page) = page.slice ((m.statements.filter q.selects).mergeSort dateLe) :=
    fun _ => rfl
  have hkeyed : ∀ page, (Keyed.list (q.on page) k).1 =
      .ok (page.slice ((m.statements.filter q.spans).mergeSort millisLe)) :=
    fun page => Keyed.list_of_keeps hkeeps hobliging hcount (q.on page)
  have hiff : (∀ page, (Keyed.list (q.on page) k).1 = .ok (m.list (q.on page))) ↔
      MillisSuffice q m.statements := by
    rw [← sorted_eq_iff m.events_nodup]
    constructor
    · intro hagree
      have hwhole := hagree ⟨UInt64.ofNat (2 ^ 64 - 1), 1⟩
      rw [hkeyed, hmemory, slice_whole, slice_whole] at hwhole
      · exact Except.ok.inj hwhole
      · rw [List.length_mergeSort]
        exact (List.length_filter_le _ _).trans_lt hcount
      · rw [List.length_mergeSort]
        exact (List.length_filter_le _ _).trans_lt hcount
    · intro hsame page
      rw [hkeyed, hmemory, hsame]
  exact ⟨hmemory, hkeyed, hiff, fun hstart hstop hdates => hiff.2 (millisSuffice_of_whole hstart hstop hdates)⟩

/-- The deposit, for an event of its own some nanoseconds into the epoch. -/
def depositAt (event : Uuid) (nano : Nat) : Statement :=
  { deposit with event := event, eventDate := (Instant.mk? 0 0 nano).getD Instant.epoch }

def early : Statement := depositAt ⟨2⟩ 100

def late : Statement := depositAt ⟨1⟩ 200

/-- Two deposits of one millisecond; the event of the later one comes first. -/
def swapped : List Call := [.ensure "u", .create early early.amount, .create late late.amount]

/-- All that the user has in the first second. -/
def firstSecond : Query where
  user := "u"
  start := Instant.epoch
  stop := (Instant.mk? 0 1 0).getD Instant.epoch
  page := ⟨10, 1⟩

theorem isBounded_of_swapped : ∀ before rest, swapped = before ++ rest →
    IsBounded (after InMemory.serve before InMemory.empty) := by
  intro before rest hsplit
  have hall : ∀ before ∈ swapped.inits, ∀ a ∈ (after InMemory.serve before InMemory.empty).accounts,
      -(2 ^ 63) ≤ a.balance.value * 10 ^ amountPlaces ∧ a.balance.value * 10 ^ amountPlaces < 2 ^ 63 := by
    decide +kernel
  exact hall before ((List.mem_inits _ _).2 ⟨rest, hsplit.symm⟩)

theorem swapped_postsAlike : PostsAlike swapped (Keyed.fresh "tally") InMemory.empty := by
  refine postsAlike_of_whole "tally" ?_ isBounded_of_swapped
  simp only [swapped, List.forall_mem_cons, List.not_mem_nil, false_implies, implies_true, and_true]
  exact ⟨(fun _ _ heq => nomatch heq), isWhole_of_amount rfl, isWhole_of_amount rfl⟩

theorem statements_swapped : (after InMemory.serve swapped InMemory.empty).statements = [early, late] := by
  decide +kernel

theorem swapped_listings_agree_iff :
    PostsAlike swapped (Keyed.fresh "tally") InMemory.empty ∧
      (after InMemory.serve swapped InMemory.empty).statements.length < 2 ^ 63 ∧
      ((∀ page, (Keyed.list (firstSecond.on page) (after Keyed.serve swapped (Keyed.fresh "tally"))).1 =
          .ok ((after InMemory.serve swapped InMemory.empty).list (firstSecond.on page))) ↔
        MillisSuffice firstSecond (after InMemory.serve swapped InMemory.empty).statements) :=
  ⟨swapped_postsAlike, by rw [statements_swapped]; decide,
    (listings_agree_iff "tally" swapped_postsAlike (by rw [statements_swapped]; decide) firstSecond).2.2.1⟩

/-- Two deposits of one millisecond, posted alike, are listed in memory by date and in the keyspace by event. -/
theorem swapped_listed_by_event :
    PostsAlike swapped (Keyed.fresh "tally") InMemory.empty ∧
      (after InMemory.serve swapped InMemory.empty).list firstSecond = [early, late] ∧
      (Keyed.list firstSecond (after Keyed.serve swapped (Keyed.fresh "tally"))).1 = .ok [late, early] := by
  obtain ⟨hkeeps, hobliging⟩ := Keyed.keeps_after (keeps_nil fun _ _ => rfl) rfl swapped_postsAlike
  rw [statements_swapped] at hkeeps
  refine ⟨swapped_postsAlike, ?_, ?_⟩
  · have hsorted : [early, late].mergeSort dateLe = [early, late] := List.mergeSort_of_pairwise (by decide)
    have hselected : [early, late].filter firstSecond.selects = [early, late] := by decide
    rw [InMemory.list, statements_swapped, hselected]
    exact congrArg firstSecond.page.slice hsorted
  · have hsorted : [early, late].mergeSort millisLe = [late, early] := by
      have hafter : millisLe early late = false := by decide
      simp [List.mergeSort, List.MergeSort.Internal.splitInTwo, hafter]
    have hspanned : [early, late].filter firstSecond.spans = [early, late] := by decide
    rw [Keyed.list_of_keeps hkeeps hobliging (by decide) firstSecond, hspanned, hsorted]
    rfl

end UsageLedger.Ledger
