import UsageLedger.Config.Setting

/-! Nested tables as a configuration file builds them up. Every name is defined once: a table that a header
has opened is not opened again, and one that a dotted key has built up is closed to headers. -/

namespace UsageLedger.Config

/-- How a table came about: by a header below it, by its own header, or by dotted keys. -/
inductive Origin
  | implied
  | header
  | dotted
  deriving DecidableEq, Repr

/-- What a name stands for: a value, a table, or a series of tables, of which only the last can still
grow. -/
inductive Node
  | value (setting : Setting)
  | table (origin : Origin) (entries : List (String × Node))
  | series (entries : List (String × Node))

/-- The entries of a table, in order of definition. -/
abbrev Entries := List (String × Node)

namespace Entries

/-- Puts a node in the place of an entry. -/
def replace (es : Entries) (name : String) (node : Node) : Entries :=
  es.map fun e => if e.1 = name then (name, node) else e

/-- Changes the table at the end of a header's path, with tables in between as needed. -/
def walk (change : Entries → Option Entries) : List String → Entries → Option Entries
  | [], es => change es
  | name :: path, es =>
    match es.lookup name with
    | none => (walk change path []).map fun sub => es ++ [(name, .table .implied sub)]
    | some (.table origin sub) =>
      (walk change path sub).map fun sub => es.replace name (.table origin sub)
    | some (.series sub) => (walk change path sub).map fun sub => es.replace name (.series sub)
    | some (.value _) => none

/-- Opens a table by its header. -/
def openTable (name : String) (es : Entries) : Option Entries :=
  match es.lookup name with
  | none => some (es ++ [(name, .table .header [])])
  | some (.table .implied sub) => some (es.replace name (.table .header sub))
  | _ => none

/-- Begins the next table of a series. -/
def openSeries (name : String) (es : Entries) : Option Entries :=
  match es.lookup name with
  | none => some (es ++ [(name, .series [])])
  | some (.series _) => some (es.replace name (.series []))
  | _ => none

/-- Defines a value under a dotted key. -/
def define (setting : Setting) : List String → Entries → Option Entries
  | [], _ => none
  | [name], es =>
    match es.lookup name with
    | none => some (es ++ [(name, .value setting)])
    | some _ => none
  | name :: path, es =>
    match es.lookup name with
    | none => (define setting path []).map fun sub => es ++ [(name, .table .dotted sub)]
    | some (.table .dotted sub) =>
      (define setting path sub).map fun sub => es.replace name (.table .dotted sub)
    | some _ => none

/-- The settings that the outermost table gives. -/
def toSettings (es : Entries) (s : Settings) : Settings :=
  es.foldl
    (fun s e =>
      s.set e.1 (match e.2 with | .value setting => setting | _ => .compound))
    s

end Entries

end UsageLedger.Config
