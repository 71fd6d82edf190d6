/-! The fixed limits of the service. Times are in milliseconds. -/

namespace UsageLedger.Limits

def version : String := "0.1.0"

/-- How many messages one fetch asks for. -/
def batchSize : Nat := 5

def fetchFailures : Nat := 10

/-- How often a connection is provisioned before it is given up. -/
def provisionRounds : Nat := 5

def attempts : Nat := 3

/-- The bound on the ledger calls of one attempt. -/
def attemptTimeout : Nat := 5000

/-- How long a side channel may keep a message waiting. -/
def idleInterval : Nat := 10000

/-- The pause after a refused connection. -/
def reconnectDelay : Nat := 10000

end UsageLedger.Limits
