import UsageLedger.Ledger.InMemory
import UsageLedger.Ledger.Keyspace
import UsageLedger.MicroCredit
import UsageLedger.Text.Utf8

/-! The ledger that is kept in a keyspace. Under a common beginning, each statement has a key with its
text, each user one with the balance in micro-credits and one with the statements' identifiers scored by
date, and a list holds the recorded events. A posting is one script: it raises the balance before it
writes anything, so a balance that cannot be raised leaves no trace. -/

namespace UsageLedger.Ledger

/-- The commands that are sent to a keyspace. -/
inductive Command
  | putNew
  | text
  | script
  | rangeByScore
  | texts
  | push
  deriving DecidableEq, Repr

def Command.name : Command → String
  | putNew => "SETNX"
  | text => "GET"
  | script => "EVALSHA"
  | rangeByScore => "ZRANGEBYSCORE"
  | texts => "MGET"
  | push => "RPUSH"

def Command.all : List Command := [putNew, text, script, rangeByScore, texts, push]

/-- The keys of a ledger under a common beginning. -/
structure Keys where
  lead : String
  deriving DecidableEq, Repr

namespace Keys

def statementText (k : Keys) (id : String) : String := k.lead ++ ":statement:" ++ id

def statement (k : Keys) (id : Uuid) : String := k.statementText (String.ofList id.toText)

def balance (k : Keys) (user : String) : String := k.lead ++ ":balance:" ++ user

def statements (k : Keys) (user : String) : String := k.lead ++ ":user:" ++ user ++ ":statements"

def audit (k : Keys) : String := k.lead ++ ":events"

end Keys

/-- What the posting script answers. -/
inductive PostOutcome
  | posted
  | duplicate
  | noAccount
  deriving DecidableEq, Repr

/-- The script that posts a statement. What it did before a refusal stays done. -/
def postScript (statementKey balanceKey indexKey contents : String) (delta : Int64) (score : Int)
    (member : String) (k : Keyspace) : Except Refusal PostOutcome × Keyspace :=
  if k.has statementKey then (.ok .duplicate, k)
  else if !k.has balanceKey then (.ok .noAccount, k)
  else
    match k.increase balanceKey delta.toInt with
    | .error refusal => (.error refusal, k)
    | .ok raised =>
      let written := raised.put statementKey (.text contents)
      match written.addScored indexKey score member with
      | .error refusal => (.error refusal, written)
      | .ok indexed => (.ok .posted, indexed)

/-- A ledger in a keyspace, with the commands it sent, newest first, and how many of the next uses of a
command are going to be refused. -/
structure Keyed where
  keys : Keys
  store : Keyspace
  refusing : List (Command × Nat)
  sent : List Command
  deriving DecidableEq, Repr

namespace Keyed

/-- A ledger in an empty keyspace that refuses nothing. -/
def fresh (lead : String) : Keyed := ⟨⟨lead⟩, Keyspace.empty, [], []⟩

/-- Whether the next use of a command is refused. -/
def isRefusing (k : Keyed) (c : Command) : Bool := 0 < (k.refusing.lookup c).getD 0

/-- One use of a command fewer to refuse. -/
def useRefusal (refusing : List (Command × Nat)) (c : Command) : List (Command × Nat) :=
  refusing.map fun entry => if entry.1 = c then (c, entry.2 - 1) else entry

/-- Lets the next uses of a command be refused. -/
def refuseNext (k : Keyed) (c : Command) (times : Nat) : Keyed :=
  { k with refusing := (c, times) :: k.refusing.filter fun entry => entry.1 != c }

/-- Sends a command; `work` is what it does. -/
def send {α : Type} (c : Command) (work : Keyspace → Except Refusal α × Keyspace) (k : Keyed) :
    Except Refusal α × Keyed :=
  let k := { k with sent := c :: k.sent }
  if k.isRefusing c then (.error .unavailable, { k with refusing := useRefusal k.refusing c })
  else
    let (answer, store) := work k.store
    (answer, { k with store := store })

def reading {α : Type} (look : Keyspace → Except Refusal α) (k : Keyspace) : Except Refusal α × Keyspace :=
  (look k, k)

/-- A command that only writes; refused, it changes nothing. -/
def writing (change : Keyspace → Except Refusal Keyspace) (k : Keyspace) : Except Refusal Unit × Keyspace :=
  match change k with
  | .ok k' => (.ok (), k')
  | .error refusal => (.error refusal, k)

/-- The error of a call that the keyspace refused. -/
def failed (call : StoreCall) : Error := .backend (.call call)

/-- Reads a statement back. -/
def readStatement (contents : String) : Except Error Statement :=
  match Statement.decode (Text.encode contents.toList) with
  | .ok s => .ok s
  | .error fault => .error (.undecodableStatement fault)

/-- Posts a statement. Its amount must be the change of the balance, and a whole number of
micro-credits. -/
def create (s : Statement) (delta : Decimal) (k : Keyed) : Except Error Unit × Keyed :=
  if !s.amount.same delta then (.error (.backend (.amountMismatch s.amount delta)), k)
  else
    match MicroCredit.exact delta with
    | .error e => (.error e, k)
    | .ok micros =>
      let script := postScript (k.keys.statement s.event) (k.keys.balance s.user)
        (k.keys.statements s.user) (String.ofList s.print) micros s.eventDate.toMillis
        (String.ofList s.event.toText)
      match k.send .script script with
      | (.ok .posted, k) => (.ok (), k)
      | (.ok .duplicate, k) => (.error (.duplicateEvent s.event), k)
      | (.ok .noAccount, k) => (.error (.accountNotFound s.user), k)
      | (.error _, k) => (.error (failed .postScript), k)

def find (id : Uuid) (k : Keyed) : Except Error (Option Statement) × Keyed :=
  match k.send .text (reading fun store => store.text? (k.keys.statement id)) with
  | (.error _, k) => (.error (failed .statementLookup), k)
  | (.ok none, k) => (.ok none, k)
  | (.ok (some contents), k) => ((readStatement contents).map some, k)

/-- The wanted page of a user's statements. Statements are found by the millisecond of their date. -/
def list (q : Query) (k : Keyed) : Except Error (List Statement) × Keyed :=
  if q.page.size = 0 then (.ok [], k)
  else
    let look := fun store : Keyspace =>
      store.rangeByScore (k.keys.statements q.user) q.start.toMillis q.stop.toMillis
        q.page.offset.toInt64.toInt q.page.size.toInt64.toInt
    match k.send .rangeByScore (reading look) with
    | (.error _, k) => (.error (failed .indexScan), k)
    | (.ok [], k) => (.ok [], k)
    | (.ok ids, k) =>
      match k.send .texts (reading fun store => .ok (store.texts (ids.map k.keys.statementText))) with
      | (.error _, k) => (.error (failed .statementFetch), k)
      | (.ok contents, k) => ((contents.filterMap id).mapM readStatement, k)

def ensure (user : String) (k : Keyed) : Except Error Unit × Keyed :=
  let work := fun store : Keyspace =>
    let (new, store) := store.putNew (k.keys.balance user) "0"
    (.ok new, store)
  match k.send .putNew work with
  | (.error _, k) => (.error (failed .accountCreation), k)
  | (.ok _, k) => (.ok (), k)

def balance (user : String) (k : Keyed) : Except Error Decimal × Keyed :=
  match k.send .text (reading fun store => store.text? (k.keys.balance user)) with
  | (.error _, k) => (.error (failed .balanceRead), k)
  | (.ok none, k) => (.error (.accountNotFound user), k)
  | (.ok (some contents), k) =>
    match Text.integer64? contents.toList with
    | some micros => (.ok (MicroCredit.toDecimal (Int64.ofInt micros)), k)
    | none => (.error (failed .balanceRead), k)

/-- Adds an event to the end of the audit log. -/
def record (e : Event) (k : Keyed) : Except Error Unit × Keyed :=
  match k.send .push (writing fun store => store.push k.keys.audit (String.ofList e.print)) with
  | (.error _, k) => (.error (failed .auditAppend), k)
  | (.ok _, k) => (.ok (), k)

def serve : Service Keyed
  | .record e => record e
  | .find id => find id
  | .ensure user => ensure user
  | .create s delta => create s delta
  | .balance user => balance user

end Keyed

end UsageLedger.Ledger
