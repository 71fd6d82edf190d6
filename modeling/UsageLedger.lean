import UsageLedger.Accounting
import UsageLedger.Config.Load
import UsageLedger.Delivery.Log
import UsageLedger.Delivery.Supervisor
import UsageLedger.Proofs.Decimal.Value
import UsageLedger.Proofs.Ledger.Posting
import UsageLedger.Proofs.Delivery.Contract
import UsageLedger.Proofs.Delivery.Settlement
import UsageLedger.Proofs.Delivery.Surroundings
import UsageLedger.Proofs.Delivery.Billing
import UsageLedger.Proofs.Delivery.Session
import UsageLedger.Proofs.Delivery.ExactlyOnce
import UsageLedger.Proofs.Delivery.Acknowledgement
import UsageLedger.Proofs.Delivery.Reports
import UsageLedger.Proofs.Delivery.Overflow
import UsageLedger.Proofs.Delivery.Concurrency
import UsageLedger.Proofs.Ledger.Keys
import UsageLedger.Proofs.Ledger.Scripting
import UsageLedger.Proofs.Text.Utf8
import UsageLedger.Proofs.Decimal.Text
import UsageLedger.Proofs.Json.Token
import UsageLedger.Proofs.Instant.Calendar
import UsageLedger.Proofs.Instant.Text
import UsageLedger.Proofs.Json.Record
import UsageLedger.Proofs.Json.Formats
import UsageLedger.Proofs.Ledger.Keeping
import UsageLedger.Proofs.Ledger.Consistency
import UsageLedger.Proofs.Ledger.Simulation
import UsageLedger.Proofs.Ledger.Listing
import UsageLedger.Proofs.Delivery.Exchanges
import UsageLedger.Proofs.Delivery.Reporting
import UsageLedger.Proofs.Delivery.Passage
import UsageLedger.Proofs.Delivery.Conservation
import UsageLedger.Proofs.Delivery.Tally
import UsageLedger.Proofs.Delivery.Course
import UsageLedger.Proofs.Delivery.SideChannels
import UsageLedger.Proofs.Binary64.Nearest
import UsageLedger.Proofs.Binary64.Shortest
import UsageLedger.Proofs.Binary64.Text
import UsageLedger.Proofs.Binary64.Arithmetic
import UsageLedger.Proofs.Decimal.Binary64
import UsageLedger.Proofs.Json.Reading
import UsageLedger.Proofs.Json.Shown
import UsageLedger.Proofs.Json.Double
import UsageLedger.Proofs.Ledger.Audit
import UsageLedger.Proofs.Delivery.Desk
import UsageLedger.Proofs.Delivery.Exhaustion
import UsageLedger.Proofs.Delivery.Independence
import UsageLedger.Proofs.Delivery.LowBalance
import UsageLedger.Proofs.Delivery.Reordering
import UsageLedger.Proofs.Decimal.Sum
import UsageLedger.Proofs.Ledger.Atomicity
import UsageLedger.Proofs.Ledger.Exactness
import UsageLedger.Proofs.Delivery.Traces
import UsageLedger.Proofs.Delivery.Unreadable
import UsageLedger.Proofs.Decimal.Product
import UsageLedger.Proofs.Credit
import UsageLedger.Proofs.Ledger.Counting
import UsageLedger.Proofs.Delivery.Auditing
import UsageLedger.Proofs.Delivery.AuditTrail
import UsageLedger.Proofs.Delivery.Verdicts
import UsageLedger.Proofs.Json.Substitution
import UsageLedger.Proofs.Ledger.Paging
import UsageLedger.Proofs.Delivery.BrokerSide
import UsageLedger.Proofs.Delivery.Breaker
import UsageLedger.Proofs.Delivery.Turns
import UsageLedger.Proofs.Delivery.Lifecycle
import UsageLedger.Proofs.Json.Grammar
import UsageLedger.Proofs.Json.Members
import UsageLedger.Proofs.Json.Derivation
import UsageLedger.Proofs.Json.Rearrangement
import UsageLedger.Proofs.Delivery.Watch
import UsageLedger.Proofs.Delivery.Punctuality
import UsageLedger.Proofs.Config.Retyping
import UsageLedger.Proofs.Config.Layers
