import UsageLedger.Error
import UsageLedger.Json.Record

/-! Usage events: the records of metered use that arrive from outside and are never changed. An event's
identifier is what billing is keyed by. Its extra is a JSON text of its own, with the customer's details,
and is read on demand. -/

namespace UsageLedger

/-- What an event's value counts: money, or raw units that a rate converts. -/
inductive ValueKind
  | monetary
  | rawUnit
  deriving DecidableEq, Repr

/-- The kind of an ordinal; all but 1 are monetary. -/
def ValueKind.ofOrdinal (n : Int64) : ValueKind := if n = 1 then rawUnit else monetary

def ValueKind.ordinal : ValueKind → Int64
  | monetary => 0
  | rawUnit => 1

/-- Where an event was produced. -/
inductive Scene
  | reserve
  | portalCharge
  | modelInference
  | space
  | modelFinetune
  | starship
  | unknown
  deriving DecidableEq, Repr

/-- The scene of an ordinal; those not listed are unknown. -/
def Scene.ofOrdinal (n : Int64) : Scene :=
  if n = 0 then reserve
  else if n = 1 then portalCharge
  else if n = 10 then modelInference
  else if n = 11 then space
  else if n = 12 then modelFinetune
  else if n = 20 then starship
  else unknown

def Scene.ordinal : Scene → Int64
  | reserve => 0
  | portalCharge => 1
  | modelInference => 10
  | space => 11
  | modelFinetune => 12
  | starship => 20
  | unknown => 99

/-- Whether consumption in a scene is a duration. -/
def Scene.isDurationBilled : Scene → Bool
  | modelInference => true
  | space => true
  | modelFinetune => true
  | _ => false

/-- The customer and pricing details that an event carries along, all as text. -/
@[ext] structure Extra where
  customer : String
  unitPrice : String
  priceUnit : String
  duration : String
  deriving DecidableEq, Repr

/-- Details that say nothing. -/
def Extra.blank : Extra := ⟨"", "", "", ""⟩

def Extra.schema : Json.Schema :=
  ⟨"EventExtra",
    [⟨"customer_id", .text, some ""⟩, ⟨"customer_price", .text, some ""⟩,
      ⟨"price_unit", .text, some ""⟩, ⟨"customer_duration", .text, some ""⟩]⟩

/-- The fields of the details in the order of the format. -/
def Extra.toRow (x : Extra) : Json.Row Extra.schema.fields :=
  (x.customer, x.unitPrice, x.priceUnit, x.duration, ())

def Extra.ofRow : Json.Row Extra.schema.fields → Extra
  | (customer, unitPrice, priceUnit, duration, ()) => ⟨customer, unitPrice, priceUnit, duration⟩

@[simp] theorem Extra.ofRow_toRow (x : Extra) : Extra.ofRow x.toRow = x := rfl

def Extra.print (x : Extra) : List Char := Extra.schema.print x.toRow

/-- The duration as a number: zero when it is blank, and none when it is not a number. -/
def Extra.durationUnits? (x : Extra) : Option Decimal :=
  match Text.trim x.duration.toList with
  | [] => some Decimal.zero
  | cs => Decimal.ofText? cs

/-- What a statement records as consumed: the value of a starship's event, the duration in a scene that is
billed by duration, and otherwise nothing. A duration that is not a number counts as zero. -/
def Scene.consumption (scene : Scene) (value : Decimal) (extra : Extra) : Decimal :=
  match scene with
  | starship => value
  | s => if s.isDurationBilled then extra.durationUnits?.getD Decimal.zero else Decimal.zero

/-- A usage event. -/
@[ext] structure Event where
  id : Uuid
  user : String
  value : Decimal
  kind : ValueKind
  scene : Scene
  operator : Int64
  occurredAt : Instant
  extra : String
  deriving DecidableEq, Repr

namespace Event

def schema : Json.Schema :=
  ⟨"UsageEvent",
    [⟨"uuid", .uuid, none⟩, ⟨"user_id", .text, none⟩, ⟨"value", .double, none⟩,
      ⟨"value_type", .int64, some 0⟩, ⟨"scene", .int64, some 0⟩, ⟨"op_uid", .int64, some 0⟩,
      ⟨"created_at", .instant, none⟩, ⟨"extra", .text, some ""⟩]⟩

/-- The fields of an event in the order of the format. -/
def toRow (e : Event) : Json.Row schema.fields :=
  (e.id, e.user, e.value, e.kind.ordinal, e.scene.ordinal, e.operator, e.occurredAt, e.extra, ())

def ofRow : Json.Row schema.fields → Event
  | (id, user, value, kind, scene, operator, occurredAt, extra, ()) =>
    ⟨id, user, value, .ofOrdinal kind, .ofOrdinal scene, operator, occurredAt, extra⟩

def print (e : Event) : List Char := schema.print e.toRow

/-- Reads an event from the bytes of a message. -/
def decode (payload : Text.Bytes) : Except Error Event :=
  match schema.decode payload with
  | .ok row => .ok (ofRow row)
  | .error fault => .error (.payload (.undecodableEvent payload fault))

/-- Reads the details that an event carries; a blank text carries none. -/
def details (e : Event) : Except Error Extra :=
  match Text.trim e.extra.toList with
  | [] => .ok Extra.blank
  | _ =>
    match Extra.schema.decode (Text.encode e.extra.toList) with
    | .ok row => .ok (Extra.ofRow row)
    | .error fault => .error (.payload (.undecodableExtra e.id fault))

/-- A monetary event without details. -/
def monetary (id : Uuid) (user : String) (value : Decimal) (scene : Scene) (at_ : Instant) : Event :=
  ⟨id, user, value, .monetary, scene, 0, at_, ""⟩

def withRawUnits (e : Event) : Event := { e with kind := .rawUnit }

def withDetails (e : Event) (x : Extra) : Event := { e with extra := String.ofList x.print }

end Event

theorem ValueKind.ofOrdinal_ordinal (k : ValueKind) : ValueKind.ofOrdinal k.ordinal = k := by
  cases k <;> decide

theorem Scene.ofOrdinal_ordinal (s : Scene) : Scene.ofOrdinal s.ordinal = s := by
  cases s <;> decide

@[simp] theorem Event.ofRow_toRow (e : Event) : Event.ofRow e.toRow = e := by
  simp [Event.ofRow, Event.toRow, ValueKind.ofOrdinal_ordinal, Scene.ofOrdinal_ordinal]

end UsageLedger
