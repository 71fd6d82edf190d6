import UsageLedger.Event

/-! Statements, the billing records of the ledger. A statement is written once per event and says which
amount was applied to the user's balance and what was consumed. -/

namespace UsageLedger

/-- A posted billing record. -/
@[ext] structure Statement where
  event : Uuid
  user : String
  value : Decimal
  amount : Decimal
  scene : Scene
  operator : Int64
  customer : String
  eventDate : Instant
  price : String
  priceUnit : String
  consumption : Decimal
  duration : String
  createdAt : Instant
  deriving DecidableEq, Repr

namespace Statement

/-- The statement of an event with its details, once its amount is known. -/
def ofEvent (e : Event) (x : Extra) (amount : Decimal) (createdAt : Instant) : Statement where
  event := e.id
  user := e.user
  value := e.value
  amount := amount
  scene := e.scene
  operator := e.operator
  customer := x.customer
  eventDate := e.occurredAt
  price := x.unitPrice
  priceUnit := x.priceUnit
  consumption := e.scene.consumption e.value x
  duration := x.duration
  createdAt := createdAt

def schema : Json.Schema :=
  ⟨"LedgerStatement",
    [⟨"event_id", .uuid, none⟩, ⟨"user_id", .text, none⟩, ⟨"value", .decimal, none⟩,
      ⟨"amount", .decimal, none⟩, ⟨"scene", .int64, none⟩, ⟨"operator_id", .int64, none⟩,
      ⟨"customer_id", .text, none⟩, ⟨"event_date", .instant, none⟩, ⟨"price", .text, none⟩,
      ⟨"price_unit", .text, none⟩, ⟨"consumption", .decimal, none⟩, ⟨"duration", .text, some ""⟩,
      ⟨"created_at", .instant, none⟩]⟩

/-- The fields of a statement in the order of the format. -/
def toRow (s : Statement) : Json.Row schema.fields :=
  (s.event, s.user, s.value, s.amount, s.scene.ordinal, s.operator, s.customer, s.eventDate, s.price,
    s.priceUnit, s.consumption, s.duration, s.createdAt, ())

def ofRow : Json.Row schema.fields → Statement
  | (event, user, value, amount, scene, operator, customer, eventDate, price, priceUnit, consumption,
      duration, createdAt, ()) =>
    ⟨event, user, value, amount, .ofOrdinal scene, operator, customer, eventDate, price, priceUnit,
      consumption, duration, createdAt⟩

def print (s : Statement) : List Char := schema.print s.toRow

def decode (bytes : Text.Bytes) : Except Json.Fault Statement := (schema.decode bytes).map ofRow

/-- The order of a listing: by date, then by event. -/
def listingOrder (a b : Statement) : Ordering :=
  (a.eventDate.compare b.eventDate).then (a.event.compare b.event)

@[simp] theorem ofRow_toRow (s : Statement) : ofRow s.toRow = s := by
  simp [ofRow, toRow, Scene.ofOrdinal_ordinal]

end Statement

end UsageLedger
