import Mathlib.Algebra.Order.Floor.Div
import UsageLedger.Proofs.Ledger.Listing

/-! Going through a listing page by page. The pages of one size are windows of the ordered selection that lie
side by side, so that the first of them, up to the one that is empty, give every selected statement once and
in order. An offset that stops at the end of its range is still behind every statement there can be. -/

namespace UsageLedger.Ledger

/-! ### Windows -/

/-- A page is the window at its offset, also where the offset is beyond its range, as long as the items can be
counted. -/
theorem slice_eq_window {α : Type} (p : Page) {items : List α} (hcount : items.length < 2 ^ 64) :
    p.slice items = (items.drop ((p.number.toNat - 1) * p.size.toNat)).take p.size.toNat := by
  rw [Page.slice, Page.toNat_offset]
  by_cases hfits : (p.number.toNat - 1) * p.size.toNat ≤ 2 ^ 64 - 1
  · rw [min_eq_left hfits]
  · rw [min_eq_right (by omega), List.drop_of_length_le (by omega), List.drop_of_length_le (by omega)]

theorem flatMap_windows {α : Type} (items : List α) (size count : Nat) :
    ((List.range count).flatMap fun i => (items.drop (i * size)).take size) = items.take (count * size) := by
  induction count with
  | zero => simp
  | succ count ih => rw [List.range_succ, List.flatMap_append, ih, List.flatMap_singleton, Nat.succ_mul, List.take_add]

theorem length_window {α : Type} {items : List α} {start size : Nat} (h : start + size ≤ items.length) :
    ((items.drop start).take size).length = size := by
  rw [List.length_take, List.length_drop]
  omega

theorem window_ne_nil {α : Type} {items : List α} {start size : Nat} (hsize : 0 < size) (h : start < items.length) :
    (items.drop start).take size ≠ [] := by
  rw [ne_eq, List.take_eq_nil_iff, List.drop_eq_nil_iff]
  omega

theorem slice_zero {α : Type} (number : UInt64) (items : List α) : Page.slice ⟨0, number⟩ items = [] :=
  List.take_zero

theorem slice_number_zero {α : Type} (size : UInt64) (items : List α) :
    Page.slice ⟨size, 0⟩ items = Page.slice ⟨size, 1⟩ items := by
  rw [Page.slice, Page.slice, Page.offset_zero]

/-! ### The ordered selection -/

theorem listingOrder_eq_lt {a b : Statement} (hle : dateLe a b = true) (hevent : a.event ≠ b.event) :
    Statement.listingOrder a b = .lt := by
  cases horder : Statement.listingOrder a b with
  | lt => rfl
  | gt => simp [dateLe, horder] at hle
  | eq =>
      rw [Statement.listingOrder, Ordering.then_eq_eq, Uuid.compare, compare_eq_iff_eq] at horder
      exact absurd (event_eq_of_bits horder.2) hevent

namespace InMemory

/-- The statements that a query selects, in the order of a listing. -/
def selection (m : InMemory) (q : Query) : List Statement := (m.statements.filter q.selects).mergeSort dateLe

theorem list_on (m : InMemory) (q : Query) (page : Page) : m.list (q.on page) = page.slice (m.selection q) := rfl

theorem mem_selection {m : InMemory} {q : Query} {s : Statement} :
    s ∈ m.selection q ↔ s ∈ m.statements ∧ q.selects s = true :=
  mem_sorted_iff

theorem length_selection_le (m : InMemory) (q : Query) : (m.selection q).length ≤ m.count := by
  rw [selection, List.length_mergeSort]
  exact List.length_filter_le _ _

theorem selection_nodup (m : InMemory) (q : Query) : (m.selection q).Nodup := by
  have hstatements : m.statements.Nodup := m.events_nodup.of_map _
  exact (List.mergeSort_perm _ _).nodup_iff.2 (hstatements.filter _)

theorem selection_sorted (m : InMemory) (q : Query) : (m.selection q).Pairwise fun a b => dateLe a b = true :=
  pairwise_mergeSort_of dateLe (fun _ _ _ => dateLe_trans) dateLe_total _

theorem eq_of_event_eq {m : InMemory} {s t : Statement} (hs : s ∈ m.statements) (ht : t ∈ m.statements)
    (h : s.event = t.event) : s = t :=
  List.inj_on_of_nodup_map m.events_nodup hs ht h

theorem selection_increasing (m : InMemory) (q : Query) :
    (m.selection q).Pairwise fun a b => Statement.listingOrder a b = .lt := by
  refine ((m.selection_sorted q).and (m.selection_nodup q)).imp_of_mem fun {a b} ha hb ⟨hle, hne⟩ => ?_
  exact listingOrder_eq_lt hle fun hevent => hne (eq_of_event_eq (mem_selection.1 ha).1 (mem_selection.1 hb).1 hevent)

/-- The order in which a ledger holds its statements is not seen in what it selects. -/
theorem selection_congr {m m' : InMemory} (h : m'.statements.Perm m.statements) (q : Query) :
    m'.selection q = m.selection q := by
  have hperm : (m'.selection q).Perm (m.selection q) :=
    (List.mergeSort_perm _ _).trans ((h.filter _).trans (List.mergeSort_perm _ _).symm)
  refine hperm.eq_of_pairwise ?_ (m'.selection_sorted q) (m.selection_sorted q)
  intro a b ha hb hab hba
  exact eq_of_event_eq (h.mem_iff.1 (mem_selection.1 ha).1) (mem_selection.1 hb).1 (dateLe_antisymm hab hba)

/-! ### Pages -/

/-- The first pages of one size, one after the other. -/
def firstPages (m : InMemory) (q : Query) (size : UInt64) (count : Nat) : List Statement :=
  (List.range count).flatMap fun i => m.list (q.on ⟨size, UInt64.ofNat (i + 1)⟩)

/-- What pages of one size are for a query when so many of them are not empty: all but the last are full, those
after the last are empty and there is such a page, and the ones before it hold what the query selects, each
statement once and by date and event. -/
structure Paged (m : InMemory) (q : Query) (size : UInt64) (count : Nat) : Prop where
  numbered : count + 1 < 2 ^ 64
  inhabited : ∀ number : UInt64, number ≠ 0 → number.toNat ≤ count → m.list (q.on ⟨size, number⟩) ≠ []
  full : ∀ number : UInt64, number ≠ 0 → number.toNat < count → (m.list (q.on ⟨size, number⟩)).length = size.toNat
  past : ∀ number : UInt64, count < number.toNat → m.list (q.on ⟨size, number⟩) = []
  exact : ∀ s, s ∈ m.firstPages q size count ↔ s ∈ m.statements ∧ q.selects s = true
  once : (m.firstPages q size count).Nodup
  increasing : (m.firstPages q size count).Pairwise fun a b => Statement.listingOrder a b = .lt

theorem firstPages_eq {m : InMemory} {q : Query} {size : UInt64} {count : Nat}
    (hcount : (m.selection q).length < 2 ^ 64) (hnumbers : count < 2 ^ 64) :
    m.firstPages q size count = (m.selection q).take (count * size.toNat) := by
  rw [firstPages, ← flatMap_windows]
  refine List.flatMap_congr fun i hi => ?_
  have hnumber : i + 1 < 2 ^ 64 := Nat.lt_of_le_of_lt (List.mem_range.1 hi) hnumbers
  rw [list_on, slice_eq_window _ hcount, UInt64.toNat_ofNat_of_lt' hnumber, Nat.add_sub_cancel]

theorem exists_paged (m : InMemory) (hcount : m.count + 1 < 2 ^ 64) (q : Query) {size : UInt64} (hsize : size ≠ 0) :
    ∃ count, m.Paged q size count := by
  have hlength := m.length_selection_le q
  have hpositive : 0 < size.toNat := Nat.pos_of_ne_zero fun h => hsize (UInt64.toNat_inj.1 h)
  obtain ⟨count, hceil⟩ : ∃ count, count = (m.selection q).length ⌈/⌉ size.toNat := ⟨_, rfl⟩
  have hreach : ∀ n, (m.selection q).length ≤ n * size.toNat ↔ count ≤ n := by
    intro n
    rw [hceil, ceilDiv_le_iff_le_mul hpositive, mul_comm]
  have hwithin : count ≤ (m.selection q).length := (hreach _).1 (Nat.le_mul_of_pos_right _ hpositive)
  have hpage : ∀ number, m.list (q.on ⟨size, number⟩) =
      ((m.selection q).drop ((number.toNat - 1) * size.toNat)).take size.toNat :=
    fun number => slice_eq_window _ (show (m.selection q).length < 2 ^ 64 by omega)
  have hnumber : ∀ number : UInt64, number ≠ 0 → 0 < number.toNat :=
    fun number h => Nat.pos_of_ne_zero fun hzero => h (UInt64.toNat_inj.1 hzero)
  have hall : m.firstPages q size count = m.selection q := by
    rw [firstPages_eq (by omega) (by omega), List.take_of_length_le ((hreach _).2 le_rfl)]
  refine ⟨count, by omega, fun number hne hle => ?_, fun number hne hlt => ?_, fun number hlt => ?_, ?_, ?_, ?_⟩
  · rw [hpage]
    have hpos := hnumber number hne
    have hbefore := (hreach (number.toNat - 1)).not.2 (by omega)
    exact window_ne_nil hpositive (not_le.1 hbefore)
  · rw [hpage]
    have hpos := hnumber number hne
    have hnext := (hreach number.toNat).not.2 (by omega)
    refine length_window ?_
    rw [← Nat.succ_mul, Nat.succ_eq_add_one, Nat.sub_add_cancel hpos]
    exact (not_le.1 hnext).le
  · rw [hpage, List.drop_of_length_le ((hreach _).2 (by omega)), List.take_nil]
  · intro s
    rw [hall]
    exact mem_selection
  · rw [hall]
    exact m.selection_nodup q
  · rw [hall]
    exact m.selection_increasing q

/-- Pages of any size but zero, taken from the first to the one that is empty, give every statement of the
user that is dated from `start` to `stop` once and nothing else, strictly increasing by date and event, all of
them full but the last; every page behind is empty, up to the largest size and number. Page zero is page one,
pages of size zero are empty, and the order in which the ledger holds its statements makes no difference.
There are fewer statements than page numbers: one more, with a page for each, and no page would be empty. -/
theorem pages_partition_listing (m : InMemory) (hcount : m.count + 1 < 2 ^ 64) (q : Query) :
    (∀ size : UInt64, size ≠ 0 → ∃ count, m.Paged q size count) ∧
      (∀ size, m.list (q.on ⟨size, 0⟩) = m.list (q.on ⟨size, 1⟩)) ∧
      (∀ number, m.list (q.on ⟨0, number⟩) = []) ∧
      (∀ page : Page, (m.selection q).length ≤ (page.number.toNat - 1) * page.size.toNat →
        m.list (q.on page) = []) ∧
      ∀ m' : InMemory, m'.statements.Perm m.statements → ∀ page, m'.list (q.on page) = m.list (q.on page) := by
  have hlength := m.length_selection_le q
  refine ⟨fun size hsize => m.exists_paged hcount q hsize, fun size => slice_number_zero size _,
    fun number => slice_zero number _, fun page hbehind => ?_, fun m' hperm page => ?_⟩
  · rw [list_on, slice_eq_window _ (by omega), List.drop_of_length_le hbehind, List.take_nil]
  · rw [list_on, list_on, selection_congr hperm]

/-- Three deposits of one user, two of them of one date. -/
def deposits : List Statement := [late, depositAt ⟨3⟩ 100, early]

def withDeposits : InMemory :=
  after serve (.ensure "u" :: deposits.map fun s => .create s s.amount) empty

theorem withDeposits_partition_listing :
    withDeposits.statements = deposits ∧ withDeposits.count + 1 < 2 ^ 64 ∧
      (∃ count, withDeposits.Paged firstSecond 2 count) ∧
      withDeposits.list (firstSecond.on ⟨UInt64.ofNat (2 ^ 64 - 1), UInt64.ofNat (2 ^ 64 - 1)⟩) = [] := by
  have hstatements : withDeposits.statements = deposits := by decide +kernel
  have hcount : withDeposits.count + 1 < 2 ^ 64 := by
    rw [count, hstatements]
    decide
  have hlength := withDeposits.length_selection_le firstSecond
  obtain ⟨hpaged, -, -, hbehind, -⟩ := pages_partition_listing withDeposits hcount firstSecond
  refine ⟨hstatements, hcount, hpaged 2 (by decide), hbehind _ ?_⟩
  rw [count, hstatements] at hlength
  exact hlength.trans (by decide)

end InMemory

end UsageLedger.Ledger
