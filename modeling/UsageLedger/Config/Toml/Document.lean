import UsageLedger.Config.Table
import UsageLedger.Config.Toml.Scalar
import UsageLedger.Text.Blank

/-! Configuration files in TOML: tables of keys with values, one definition a line. The whole file has to
be sound; of nested values only that they are there is kept. -/

namespace UsageLedger.Config.Toml

mutual

/-- Reads a value; `steps` bounds how deeply values nest and how many there are in brackets. -/
def readValue : (steps : Nat) → List Char → Option (Setting × List Char)
  | 0, _ => none
  | n + 1, cs =>
    match cs with
    | '[' :: r => (readElements n r).map fun r => (.compound, r)
    | '\x7b' :: r =>
      match skipSpaces r with
      | '\x7d' :: r => some (.compound, r)
      | _ => (readMembers n [] r).map fun r => (.compound, r)
    | '"' :: _ => (readText? cs).map fun (text, r) => (.text (String.ofList text), r)
    | '\'' :: _ => (readText? cs).map fun (text, r) => (.text (String.ofList text), r)
    | _ => readAtom? cs

/-- Reads the rest of a list. -/
def readElements : (steps : Nat) → List Char → Option (List Char)
  | 0, _ => none
  | n + 1, cs =>
    match skipBlank cs.length cs with
    | ']' :: r => some r
    | r => do
      let (_, r) ← readValue n r
      match skipBlank r.length r with
      | ',' :: r => readElements n r
      | ']' :: r => some r
      | _ => none

/-- Reads the rest of a table on one line. -/
def readMembers : (steps : Nat) → Entries → List Char → Option (List Char)
  | 0, _, _ => none
  | n + 1, es, cs => do
    let (key, r) ← readKey (cs.length + 1) cs
    match r with
    | '=' :: r => do
      let (value, r) ← readValue n (skipSpaces r)
      let es ← es.define value key
      match skipSpaces r with
      | ',' :: r => readMembers n es r
      | '\x7d' :: r => some r
      | _ => none
    | _ => none

end

/-- A file as far as it has been read: its tables and the path of the table that is open. -/
structure Progress where
  entries : Entries
  path : List String

/-- Reads a line, or a definition that goes on over several, and gives what follows it. -/
def readDefinition? (p : Progress) (cs : List Char) : Option (Progress × List Char) :=
  match skipSpaces cs with
  | '[' :: '[' :: r => do
    let (key, r) ← readKey (r.length + 1) r
    match r with
    | ']' :: ']' :: r => do
      let rest ← endLine? r
      let entries ← Entries.walk (Entries.openSeries (key.getLast?.getD "")) key.dropLast p.entries
      some (⟨entries, key⟩, rest)
    | _ => none
  | '[' :: r => do
    let (key, r) ← readKey (r.length + 1) r
    match r with
    | ']' :: r => do
      let rest ← endLine? r
      let entries ← Entries.walk (Entries.openTable (key.getLast?.getD "")) key.dropLast p.entries
      some (⟨entries, key⟩, rest)
    | _ => none
  | [] => some (p, [])
  | '#' :: r => (endLine? ('#' :: r)).map fun rest => (p, rest)
  | '\n' :: r => some (p, r)
  | '\r' :: '\n' :: r => some (p, r)
  | cs => do
    let (key, r) ← readKey (cs.length + 1) cs
    match r with
    | '=' :: r => do
      let (value, r) ← readValue (r.length + 1) (skipSpaces r)
      let rest ← endLine? r
      let entries ← Entries.walk (Entries.define value key) p.path p.entries
      some (⟨entries, p.path⟩, rest)
    | _ => none

/-- Reads all definitions of a file; `steps` bounds their number. -/
def readFile : (steps : Nat) → Progress → List Char → Option Entries
  | _, p, [] => some p.entries
  | 0, _, _ => none
  | n + 1, p, cs => do
    let (p, rest) ← readDefinition? p cs
    readFile n p rest

/-- The tables that a file defines. -/
def ofText? (contents : String) : Option Entries :=
  let cs := Text.dropMark contents.toList
  readFile cs.length ⟨[], []⟩ cs

end UsageLedger.Config.Toml
