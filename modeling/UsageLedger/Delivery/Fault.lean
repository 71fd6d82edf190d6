import UsageLedger.Ledger.Call

/-! Faults: how calls across the seams of a consumer depart from answering at once. Each seam has its own
script, and each call across it uses up the next entry. -/

namespace UsageLedger.Delivery

/-- Where a call can go wrong. -/
inductive Seam
  | record
  | find
  | ensure
  | create
  | balance
  | createStream
  | updateStream
  | createConsumer
  | publish (subject : String)
  deriving DecidableEq, Repr

namespace Seam

/-- What a publication is named by, before its subject. -/
def publishLead : List Char := "publish ".toList

def name : Seam → String
  | record => "record"
  | find => "get"
  | ensure => "ensure"
  | create => "create"
  | balance => "balance"
  | createStream => "create_stream"
  | updateStream => "update_stream"
  | createConsumer => "create_consumer"
  | publish subject => String.ofList (publishLead ++ subject.toList)

/-- The seams other than publications. -/
def plain : List Seam :=
  [record, find, ensure, create, balance, createStream, updateStream, createConsumer]

def ofName? (name : String) : Option Seam :=
  if publishLead.isPrefixOf name.toList then
    some (publish (String.ofList (name.toList.drop publishLead.length)))
  else plain.find? fun seam => seam.name == name

/-- The seam that a call on the ledger crosses. -/
def ofCall : Ledger.Call → Seam
  | .record _ => record
  | .find _ => find
  | .ensure _ => ensure
  | .create _ _ => create
  | .balance _ => balance

end Seam

/-- How one call goes: how long it takes, for ever if no delay is given, whether it fails, and whether its
work is done before the wait or only after it and unless it fails. -/
structure Fault where
  delay : Option Nat
  failure : Option String
  workFirst : Bool
  deriving DecidableEq, Repr

/-- A call that answers at once. -/
def Fault.none : Fault := ⟨some 0, Option.none, false⟩

instance : Inhabited Fault := ⟨Fault.none⟩

/-- The scripts of the seams; calls beyond a script answer at once. -/
abbrev Faults := List (Seam × List Fault)

namespace Faults

/-- What is left of the script of a seam. -/
def script (faults : Faults) (seam : Seam) : List Fault := (faults.lookup seam).getD []

/-- The scripts after one more call across a seam. -/
def afterCall (faults : Faults) (seam : Seam) : Faults :=
  faults.map fun entry => if entry.1 = seam then (entry.1, entry.2.tail) else entry

def next (faults : Faults) (seam : Seam) : Fault × Faults :=
  ((faults.script seam).headD Fault.none, faults.afterCall seam)

/-- A call uses up an entry of its own script and of no other. -/
theorem script_afterCall (faults : Faults) (seam other : Seam) :
    (faults.afterCall seam).script other =
      if other = seam then (faults.script seam).tail else faults.script other := by
  induction faults with
  | nil => simp [afterCall, script]
  | cons entry rest ih =>
    obtain ⟨key, entries⟩ := entry
    by_cases here : other = key
    · subst here
      by_cases same : other = seam
      · subst same; simp [afterCall, script]
      · simp [afterCall, script, same]
    · have skip : (other == key) = false := by simp [here]
      by_cases same : key = seam
      · subst same
        simp only [afterCall, script, List.map_cons, if_true, List.lookup_cons, skip, here, if_false]
        simpa [afterCall, script, here] using ih
      · by_cases hit : other = seam
        · subst hit
          simp only [afterCall, script, List.map_cons, same, if_false, List.lookup_cons, skip]
          simpa [afterCall, script] using ih
        · simp only [afterCall, script, List.map_cons, same, if_false, List.lookup_cons, skip, hit]
          simpa [afterCall, script, hit] using ih

end Faults

end UsageLedger.Delivery
