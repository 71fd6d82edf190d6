import UsageLedger.Account
import UsageLedger.Ledger.Call
import UsageLedger.Ledger.Page

/-! The ledger that is kept in memory: statements, one for an event at most, accounts, one for a user at
most, and the events recorded for audit, oldest first. A posting changes the balance and adds the
statement in one step, or changes nothing. -/

namespace UsageLedger.Ledger

/-- Which statements of a user are wanted: those dated from `start` to `stop`, both included. -/
structure Query where
  user : String
  start : Instant
  stop : Instant
  page : Page
  deriving DecidableEq, Repr

/-- Whether a statement is among those wanted, whatever the page. -/
def Query.selects (q : Query) (s : Statement) : Bool :=
  s.user == q.user && q.start.le s.eventDate && s.eventDate.le q.stop

/-- A ledger in memory. -/
@[ext] structure InMemory where
  statements : List Statement
  accounts : List Account
  audit : List Event
  events_nodup : (statements.map (·.event)).Nodup
  users_nodup : (accounts.map (·.user)).Nodup
  deriving DecidableEq, Repr

/-- Accounts with the balance of one user replaced. -/
def setBalance (accounts : List Account) (user : String) (balance : Decimal) : List Account :=
  accounts.map fun a => if a.user = user then ⟨user, balance⟩ else a

theorem map_user_setBalance (accounts : List Account) (user : String) (balance : Decimal) :
    (setBalance accounts user balance).map (·.user) = accounts.map (·.user) := by
  rw [setBalance, List.map_map]
  refine List.map_congr_left fun a _ => ?_
  by_cases h : a.user = user <;> simp [h]

namespace InMemory

def empty : InMemory := ⟨[], [], [], List.nodup_nil, List.nodup_nil⟩

instance : Inhabited InMemory := ⟨empty⟩

def find? (m : InMemory) (id : Uuid) : Option Statement := m.statements.find? fun s => s.event == id

def account? (m : InMemory) (user : String) : Option Account := m.accounts.find? fun a => a.user == user

def count (m : InMemory) : Nat := m.statements.length

theorem event_notMem_of_find?_eq_none {m : InMemory} {id : Uuid} (h : m.find? id = none) :
    id ∉ m.statements.map (·.event) := by
  intro member
  obtain ⟨s, hs, rfl⟩ := List.mem_map.1 member
  simpa using List.find?_eq_none.1 h s hs

theorem user_notMem_of_account?_eq_none {m : InMemory} {user : String} (h : m.account? user = none) :
    user ∉ m.accounts.map (·.user) := by
  intro member
  obtain ⟨a, ha, rfl⟩ := List.mem_map.1 member
  simpa using List.find?_eq_none.1 h a ha

theorem nodup_concat {α : Type} {xs : List α} {x : α} (nodup : xs.Nodup) (new : x ∉ xs) :
    (xs ++ [x]).Nodup := by
  refine List.nodup_append.2 ⟨nodup, by simp, ?_⟩
  rintro a ha b hb rfl
  exact new (List.mem_singleton.1 hb ▸ ha)

def openAccount (m : InMemory) (a : Account) (new : m.account? a.user = none) : InMemory :=
  { m with
    accounts := m.accounts ++ [a]
    users_nodup := by
      rw [List.map_append]
      exact nodup_concat m.users_nodup (user_notMem_of_account?_eq_none new) }

/-- Replaces the balance of a user. -/
def withBalance (m : InMemory) (user : String) (balance : Decimal) : InMemory :=
  { m with
    accounts := setBalance m.accounts user balance
    users_nodup := by rw [map_user_setBalance]; exact m.users_nodup }

/-- Adds the statement of an event that has none. -/
def addStatement (m : InMemory) (s : Statement) (new : m.find? s.event = none) : InMemory :=
  { m with
    statements := m.statements ++ [s]
    events_nodup := by
      rw [List.map_append]
      exact nodup_concat m.events_nodup (event_notMem_of_find?_eq_none new) }

/-- Gives a user an account with an opening balance, instead of the one that the user may have. -/
def seed (m : InMemory) (a : Account) : InMemory :=
  match h : m.account? a.user with
  | none => m.openAccount a h
  | some _ => m.withBalance a.user a.balance

def ensure (m : InMemory) (user : String) : InMemory :=
  match h : m.account? user with
  | none => m.openAccount (Account.fresh user) h
  | some _ => m

/-- Adds an event to the end of the audit log. -/
def record (m : InMemory) (e : Event) : InMemory := { m with audit := m.audit ++ [e] }

/-- Posts a statement: its event must not have one, its user must have an account, and the balance with
`delta` added must have a decimal. -/
def create (m : InMemory) (s : Statement) (delta : Decimal) : Except Error InMemory :=
  match h : m.find? s.event with
  | some _ => .error (.duplicateEvent s.event)
  | none =>
    match m.account? s.user with
    | none => .error (.accountNotFound s.user)
    | some a =>
      match a.balance.add? delta with
      | none => .error (.backend (.overflow s.user delta))
      | some balance => .ok ((m.addStatement s h).withBalance s.user balance)

def balance (m : InMemory) (user : String) : Except Error Decimal :=
  match m.account? user with
  | some a => .ok a.balance
  | none => .error (.accountNotFound user)

/-- The wanted page of a user's statements, in the order of listings. -/
def list (m : InMemory) (q : Query) : List Statement :=
  q.page.slice ((m.statements.filter q.selects).mergeSort fun a b => Statement.listingOrder a b != .gt)

def serve : Service InMemory
  | .record e, m => (.ok (), m.record e)
  | .find id, m => (.ok (m.find? id), m)
  | .ensure user, m => (.ok (), m.ensure user)
  | .create s delta, m =>
    match m.create s delta with
    | .ok m' => (.ok (), m')
    | .error e => (.error e, m)
  | .balance user, m => (m.balance user, m)

end InMemory

end UsageLedger.Ledger
