import UsageLedger.Event

/-! Alerts, the notices that go back to the producers of events. -/

namespace UsageLedger

/-- Why an alert is raised. -/
inductive Reason
  | success
  | invalidFormat
  | chargeFail
  | lackBalance
  | duplicated
  | other (code : Int32)
  deriving DecidableEq, Repr

def Reason.ofCode (n : Int32) : Reason :=
  if n = 0 then success
  else if n = 1 then invalidFormat
  else if n = 2 then chargeFail
  else if n = 3 then lackBalance
  else if n = 4 then duplicated
  else other n

def Reason.code : Reason → Int32
  | success => 0
  | invalidFormat => 1
  | chargeFail => 2
  | lackBalance => 3
  | duplicated => 4
  | other n => n

/-- An alert about an event. -/
@[ext] structure Alert where
  event : Uuid
  user : String
  createdAt : Instant
  reason : Reason
  message : String
  deriving DecidableEq, Repr

namespace Alert

/-- An alert about an event. -/
def ofEvent (e : Event) (reason : Reason) (message : String) (createdAt : Instant) : Alert :=
  ⟨e.id, e.user, createdAt, reason, message⟩

/-- The alert that the event has left its user without balance. -/
def lackOfBalance (e : Event) (createdAt : Instant) : Alert :=
  ofEvent e .lackBalance "insufficient funds" createdAt

def schema : Json.Schema :=
  ⟨"Alert",
    [⟨"uuid", .uuid, none⟩, ⟨"user_id", .text, none⟩, ⟨"created_at", .instant, none⟩,
      ⟨"reason_code", .int32, none⟩, ⟨"reason_msg", .text, none⟩]⟩

/-- The fields of an alert in the order of the format. -/
def toRow (a : Alert) : Json.Row schema.fields :=
  (a.event, a.user, a.createdAt, a.reason.code, a.message, ())

def ofRow : Json.Row schema.fields → Alert
  | (event, user, createdAt, code, message, ()) => ⟨event, user, createdAt, .ofCode code, message⟩

def print (a : Alert) : List Char := schema.print a.toRow

def decode (bytes : Text.Bytes) : Except Json.Fault Alert := (schema.decode bytes).map ofRow

end Alert

end UsageLedger
