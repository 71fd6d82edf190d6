import UsageLedger.Json.Kind
import UsageLedger.Json.Nesting

/-! Records: named fields in a fixed order, each of one kind and some with a value to fall back on. A
record is read in one pass, from an object whose members may come in any order among others that do not
count, or from a list of the fields' values in their order. The first fault met is the answer: a field
that occurs twice is refused at its second key, and missing fields are looked for at the end. -/

namespace UsageLedger.Json

/-- A field of a record. -/
structure Field where
  name : String
  kind : Kind
  fallback : Option kind.Value

/-- A record format. -/
structure Schema where
  name : String
  fields : List Field

/-- The values of all fields. -/
@[reducible] def Row : List Field → Type
  | [] => Unit
  | f :: fs => f.kind.Value × Row fs

/-- The values of the fields that have been read. -/
@[reducible] def Draft : List Field → Type
  | [] => Unit
  | f :: fs => Option f.kind.Value × Draft fs

def Draft.empty : (fs : List Field) → Draft fs
  | [] => ()
  | _ :: fs => (none, Draft.empty fs)

/-- Whether the field at a place has been read. -/
def Draft.has : {fs : List Field} → Draft fs → Nat → Bool
  | [], _, _ => false
  | _ :: _, (v, _), 0 => v.isSome
  | _ :: _, (_, d), i + 1 => Draft.has d i

/-- Reads the value of the field at a place. -/
def Draft.read : {fs : List Field} → Draft fs → Nat → Token → Except Fault (Draft fs)
  | [], d, _, _ => .ok d
  | f :: _, (_, d), 0, t => (f.kind.read t).map fun v => (some v, d)
  | _ :: _, (v, d), i + 1, t => (Draft.read d i t).map fun d => (v, d)

/-- The row of a draft, with the fallbacks of the fields that have not been read; `missing` says what is
wrong at the first place that has none. -/
def Draft.complete (missing : Nat → Field → Mismatch) :
    {fs : List Field} → Draft fs → (place : Nat) → Except Fault (Row fs)
  | [], _, _ => .ok ()
  | f :: _, (v, d), place =>
    match v.or f.fallback with
    | none => .error (.mismatch (missing place f))
    | some v => (Draft.complete missing d (place + 1)).map fun row => (v, row)

/-- The place of the field with a name. -/
def Schema.place? (s : Schema) (name : String) : Option Nat := s.fields.findIdx? (·.name == name)

def Schema.nameAt (s : Schema) (place : Nat) : String := (s.fields[place]?.map Field.name).getD ""

/-- What is due next in a record. A place is that of a field, or none for a member that does not count. -/
inductive Stage
  | start
  | keyOrClose
  | key
  | colon (place : Option Nat)
  | value (place : Nat)
  | past (nesting : Nesting)
  | separator
  | elementOrClose
  | element (place : Nat)
  | elementSeparator (place : Nat)
  deriving DecidableEq, Repr

/-- How far a record has been read. -/
inductive Reading (s : Schema)
  | partway (stage : Stage) (draft : Draft s.fields)
  | finished (row : Row s.fields)

namespace Reading

variable {s : Schema}

def start : Reading s := partway .start (Draft.empty s.fields)

/-- The end of an object. -/
def endObject (draft : Draft s.fields) : Except Fault (Reading s) :=
  (draft.complete (fun _ f => .missing f.name) 0).map finished

/-- The end of a list. -/
def endList (draft : Draft s.fields) : Except Fault (Reading s) :=
  (draft.complete (fun place _ => .short place s.name s.fields.length) 0).map finished

def key (draft : Draft s.fields) : Token → Except Fault (Reading s)
  | .text (.ok name) =>
    match s.place? name with
    | none => .ok (partway (.colon none) draft)
    | some place =>
      if draft.has place then .error (.mismatch (.repeated (s.nameAt place)))
      else .ok (partway (.colon (some place)) draft)
  | .text (.error fault) => .error fault
  | .broken true kept _ => .error kept
  | _ => .error .malformed

/-- Reads a token inside the value of a member that does not count. -/
def past (nesting : Nesting) (draft : Draft s.fields) (t : Token) : Except Fault (Reading s) :=
  (nesting.step false t).map fun
    | none => partway .separator draft
    | some nesting => partway (.past nesting) draft

/-- Reads the value of the field at a place in a list. -/
def element (place : Nat) (draft : Draft s.fields) (t : Token) : Except Fault (Reading s) :=
  (draft.read place t).map (partway (.elementSeparator (place + 1)))

def step : Reading s → Token → Except Fault (Reading s)
  | finished _, _ => .error .malformed
  | partway .start draft, .opening .object => .ok (partway .keyOrClose draft)
  | partway .start draft, .opening .list => .ok (partway .elementOrClose draft)
  | partway .start _, t => t.found.bind fun found => .error (refuse (.record s.name) found)
  | partway .keyOrClose draft, .closing .object => endObject draft
  | partway .keyOrClose draft, t => key draft t
  | partway .key draft, t => key draft t
  | partway (.colon none) draft, .colon => .ok (partway (.past Nesting.start) draft)
  | partway (.colon (some place)) draft, .colon => .ok (partway (.value place) draft)
  | partway (.colon _) _, _ => .error .malformed
  | partway (.value place) draft, t => (draft.read place t).map (partway .separator)
  | partway (.past nesting) draft, t => past nesting draft t
  | partway .separator draft, .comma => .ok (partway .key draft)
  | partway .separator draft, .closing .object => endObject draft
  | partway .separator _, _ => .error .malformed
  | partway .elementOrClose draft, .closing .list => endList draft
  | partway .elementOrClose draft, t => element 0 draft t
  | partway (.element place) draft, t => element place draft t
  | partway (.elementSeparator place) draft, .comma =>
    if place < s.fields.length then .ok (partway (.element place) draft) else .error .malformed
  | partway (.elementSeparator _) draft, .closing .list => endList draft
  | partway (.elementSeparator _) _, _ => .error .malformed

/-- The row, once the record has been read to its end. -/
def result : Reading s → Except Fault (Row s.fields)
  | finished row => .ok row
  | partway _ _ => .error .ended

end Reading

def Schema.ofTokens (s : Schema) (ts : List Token) : Except Fault (Row s.fields) :=
  (ts.foldlM Reading.step Reading.start).bind Reading.result

def Schema.decode (s : Schema) (bytes : Text.Bytes) : Except Fault (Row s.fields) :=
  s.ofTokens (tokens bytes)

/-- The members of a record, written in order with commas between them. -/
def printMembers : (fs : List Field) → Row fs → List Char
  | [], _ => []
  | [f], (v, _) => printText f.name.toList ++ ':' :: f.kind.print v
  | f :: g :: fs, (v, row) =>
    printText f.name.toList ++ ':' :: f.kind.print v ++ ',' :: printMembers (g :: fs) row

def Schema.print (s : Schema) (row : Row s.fields) : List Char :=
  '\x7b' :: printMembers s.fields row ++ ['\x7d']

end UsageLedger.Json
