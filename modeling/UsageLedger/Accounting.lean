import UsageLedger.Config.Basic
import UsageLedger.Ledger.Keyed
import UsageLedger.Metrics

/-! The service as its callers see it: a configuration, a ledger, the counters, and questions about
balances and statements. -/

namespace UsageLedger

/-- The ledger of a service, in memory or in a keyspace. -/
inductive Backend
  | inMemory (ledger : Ledger.InMemory)
  | keyed (ledger : Ledger.Keyed)
  deriving DecidableEq, Repr

/-- The schemes of the addresses at which a keyspace can be. -/
def Backend.schemes : List String :=
  ["redis://", "rediss://", "redis+unix://", "unix://"]

/-- Whether a text has the form of a keyspace's address. -/
def Backend.isAddress (address : String) : Bool :=
  schemes.any fun scheme => scheme.toList.isPrefixOf address.toList && scheme.length < address.length

/-- A service. -/
structure Accounting where
  config : Config
  backend : Backend
  metrics : Metrics
  deriving DecidableEq, Repr

namespace Accounting

/-- A service over a given ledger. -/
def ofBackend (config : Config) (backend : Backend) : Accounting := ⟨config, backend, Metrics.zero⟩

/-- The service that a configuration describes: over the keyspace at its address, and over an empty ledger
in memory if it has none. -/
def start (config : Config) : Except Error Accounting :=
  match config.storeUrl with
  | none => .ok (ofBackend config (.inMemory .empty))
  | some address =>
    if Backend.isAddress address then .ok (ofBackend config (.keyed (.fresh config.keyspace)))
    else .error (.config .badStoreAddress)

def balance (a : Accounting) (user : String) : Except Error Decimal × Accounting :=
  match a.backend with
  | .inMemory ledger => (ledger.balance user, a)
  | .keyed ledger =>
    let (answer, ledger) := Ledger.Keyed.balance user ledger
    (answer, { a with backend := .keyed ledger })

/-- The wanted page of a user's statements. -/
def statements (a : Accounting) (q : Ledger.Query) : Except Error (List Statement) × Accounting :=
  match a.backend with
  | .inMemory ledger => (.ok (ledger.list q), a)
  | .keyed ledger =>
    let (answer, ledger) := Ledger.Keyed.list q ledger
    (answer, { a with backend := .keyed ledger })

end Accounting

end UsageLedger
