import UsageLedger.Config.Setting
import UsageLedger.Json.Nesting

/-! Configuration files in JSON: the members of an object are settings. The whole file has to be sound and
may nest no deeper than a limit; a file that holds no object sets nothing. -/

namespace UsageLedger.Config

open UsageLedger.Json (Token Fault Nesting)

/-- How deeply brackets may nest in a file. -/
def deepestNesting : Nat := 127

/-- How far a file has been read. A value in brackets is read past under its key; a file without an object
is read past without one. -/
inductive FileStage
  | start
  | keyOrClose
  | key
  | colon (key : String)
  | value (key : String)
  | inside (key : Option String) (nesting : Nesting)
  | separator
  | finished
  deriving DecidableEq, Repr

/-- A file as far as it has been read, with the settings that it has made. -/
structure FileReading where
  stage : FileStage
  settings : Settings

namespace FileReading

/-- The setting of a scalar token. A whole number beyond 64 bits with a sign is a floating-point one. -/
def scalar? : Token → Option Setting
  | .null => some .null
  | .boolean value => some (.boolean value)
  | .number (.ok (.integer n)) =>
    some (if n < 2 ^ 63 then .integer n else .float (.ofScientific false n.toNat 0))
  | .number (.ok (.float x)) => some (.float x)
  | .text (.ok value) => some (.text value)
  | _ => none

/-- Reads a token inside a value in brackets. -/
def inside (r : FileReading) (key : Option String) (nesting : Nesting) (outer : Nat) (t : Token) :
    Except Fault FileReading :=
  match nesting.step true t with
  | .error fault => .error fault
  | .ok (some nesting) =>
    if deepestNesting < nesting.brackets.length + outer then .error .malformed
    else .ok { r with stage := .inside key nesting }
  | .ok none =>
    match key with
    | none => .ok { r with stage := .finished }
    | some key => .ok ⟨.separator, r.settings.set key .compound⟩

def key (r : FileReading) : Token → Except Fault FileReading
  | .text (.ok name) => .ok { r with stage := .colon name }
  | _ => .error .malformed

def step (r : FileReading) (t : Token) : Except Fault FileReading :=
  match r.stage, t with
  | .start, .opening .object => .ok { r with stage := .keyOrClose }
  | .start, t => r.inside none Nesting.start 0 t
  | .keyOrClose, .closing .object => .ok { r with stage := .finished }
  | .keyOrClose, t => r.key t
  | .key, t => r.key t
  | .colon name, .colon => .ok { r with stage := .value name }
  | .colon _, _ => .error .malformed
  | .value name, t =>
    match scalar? t with
    | some setting => .ok ⟨.separator, r.settings.set name setting⟩
    | none => r.inside (some name) Nesting.start 1 t
  | .inside name nesting, t => r.inside name nesting (if name.isSome then 1 else 0) t
  | .separator, .comma => .ok { r with stage := .key }
  | .separator, .closing .object => .ok { r with stage := .finished }
  | .separator, _ => .error .malformed
  | .finished, _ => .error .malformed

end FileReading

/-- The settings that a JSON file makes; none if it cannot be read. -/
def ofJsonText? (contents : String) : Option Settings :=
  match (Json.tokens (Text.encode contents.toList)).foldlM FileReading.step ⟨.start, []⟩ with
  | .ok ⟨.finished, settings⟩ => some settings
  | _ => none

end UsageLedger.Config
