import UsageLedger.Json.Record

/-! Accounts: a user's balance. -/

namespace UsageLedger

/-- A user's account. -/
@[ext] structure Account where
  user : String
  balance : Decimal
  deriving DecidableEq, Repr

namespace Account

def fresh (user : String) : Account := ⟨user, Decimal.zero⟩

def isExhausted (a : Account) : Bool := a.balance.isNonpositive

def schema : Json.Schema := ⟨"UserAccount", [⟨"user_id", .text, none⟩, ⟨"balance", .decimal, none⟩]⟩

/-- The fields of an account in the order of the format. -/
def toRow (a : Account) : Json.Row schema.fields := (a.user, a.balance, ())

def ofRow : Json.Row schema.fields → Account
  | (user, balance, ()) => ⟨user, balance⟩

def print (a : Account) : List Char := schema.print a.toRow

def decode (bytes : Text.Bytes) : Except Json.Fault Account := (schema.decode bytes).map ofRow

@[simp] theorem ofRow_toRow (a : Account) : ofRow a.toRow = a := rfl

end Account

end UsageLedger
