import UsageLedger.Delivery.World

/-! Logs: what a history looks like to somebody who watches a consumer. A log has a line for each call of
its kind, with the time at which it began; equal neighbours are one entry with a count. -/

namespace UsageLedger.Delivery

/-- An entry of a log: equal lines at one time, and how many. -/
structure LogEntry where
  time : Nat
  line : String
  count : Nat
  deriving DecidableEq, Repr

/-- A subscription in a line. -/
def Subscription.line (s : Subscription) : String := s.stream ++ " " ++ s.consumer ++ " " ++ s.subject

def acknowledgedLine (message : Nat) : String := "ack m" ++ toString message

/-- The line of a call on the broker; other happenings have none. -/
def Happening.brokerLine? : Happening → Option String
  | connecting => some "connect"
  | creatingStream s => some (Seam.createStream.name ++ " " ++ s.line)
  | updatingStream s => some (Seam.updateStream.name ++ " " ++ s.line)
  | creatingConsumer s => some (Seam.createConsumer.name ++ " " ++ s.line)
  | fetching batchSize maxWait => some ("fetch " ++ toString batchSize ++ " " ++ toString maxWait)
  | acknowledged message => some (acknowledgedLine message)
  | closing => some "close"
  | released => some "released"
  | _ => none

/-- The line of a call on the ledger or of an acknowledgement; other happenings have none. -/
def Happening.callLine? : Happening → Option String
  | called call => some (Seam.ofCall call).name
  | acknowledged message => some (acknowledgedLine message)
  | _ => none

/-- Puts a line in front of a log. -/
def addLine (time : Nat) (line : String) : List LogEntry → List LogEntry
  | [] => [⟨time, line, 1⟩]
  | entry :: rest =>
    if entry.time = time ∧ entry.line = line then { entry with count := entry.count + 1 } :: rest
    else ⟨time, line, 1⟩ :: entry :: rest

namespace History

/-- The log of those happenings that have a line. -/
def log (line? : Happening → Option String) (h : History) : List LogEntry :=
  h.foldl
    (fun log (time, what) =>
      match line? what with
      | some line => addLine time line log
      | none => log)
    []

/-- What was published, oldest first, with time and subject. -/
def published (h : History) : List (Nat × String × Notice) :=
  h.reverse.filterMap fun (time, what) =>
    match what with
    | .published subject notice => some (time, subject, notice)
    | _ => none

/-- The subjects that something was published to. -/
def subjects (h : History) : List String := (h.published.map (·.2.1)).eraseDups

/-- What was published to a subject, oldest first. -/
def publishedTo (h : History) (subject : String) : List (Nat × Notice) :=
  (h.published.filter fun entry => entry.2.1 == subject).map fun (time, _, notice) => (time, notice)

/-- Splits a history, given oldest first, into what follows each attempt to connect. -/
def attemptsToConnect (oldestFirst : History) : List History :=
  (oldestFirst.foldl
    (fun parts entry =>
      match entry.2, parts with
      | .connecting, _ => [] :: parts
      | _, part :: rest => (entry :: part) :: rest
      | _, [] => [])
    ([] : List History)).reverse

/-- The histories of the connections that were made, each up to the next attempt to connect. Nothing
happens after an attempt that is refused. -/
def connections (h : History) : List History :=
  (attemptsToConnect h.reverse).filter fun part => !part.isEmpty

end History

end UsageLedger.Delivery
