import UsageLedger.Config.Setting
import UsageLedger.Text.Blank

/-! The environment: named variables, and the file of further variables that fills in those not set. A
variable counts as a setting if its name, in lower case, begins with the service's name; its value is
taken for a truth value, a whole number or a floating-point number if it reads as one. -/

namespace UsageLedger

/-- Variables with their values, in the order in which they were set. -/
abbrev Environment := List (String × String)

namespace Environment

def get? (env : Environment) (name : String) : Option String := env.lookup name

/-- The decimal digits of a number and the exponent behind them. -/
def readScientific? (cs : List Char) : Option (Nat × Int) := do
  let (whole, r) := Text.spanDigits cs
  let (places, r) := match r with | '.' :: r => Text.spanDigits r | r => ([], r)
  if whole = [] ∧ places = [] then none
  let exponent ← match r with
    | [] => some 0
    | c :: r =>
      if c = 'e' ∨ c = 'E' then
        let (negative, body) := Text.splitSign r
        (Text.natural? body).map fun n => if negative then -(n : Int) else (n : Int)
      else none
  some (Text.ofDigits (whole ++ places), exponent - places.length)

/-- A floating-point number, with names for infinity and for what is not a number. -/
def readFloat? (cs : List Char) : Option Binary64 :=
  let (negative, body) := Text.splitSign cs
  let lowered := body.map Char.toLower
  if lowered = "inf".toList ∨ lowered = "infinity".toList then some (.infinite negative)
  else if lowered = "nan".toList then some .nan
  else (readScientific? body).map fun (digits, exponent) => .ofScientific negative digits exponent

/-- What a variable's value is taken for. -/
def typed (value : String) : Setting :=
  let cs := value.toList
  let lowered := cs.map Char.toLower
  if lowered = "true".toList then .boolean true
  else if lowered = "false".toList then .boolean false
  else
    match Text.integer64? cs with
    | some n => .integer n
    | none =>
      match readFloat? cs with
      | some x => .float x
      | none => .text value

/-- What the name of a variable begins with when it is a setting. -/
def marker : List Char := "tally_".toList

def settingKey? (name : String) : Option String :=
  let lowered := name.toList.map Char.toLower
  if marker.isPrefixOf lowered then some (String.ofList (lowered.drop marker.length)) else none

/-- Sets all settings that the environment gives. -/
def apply (env : Environment) (s : Settings) : Settings :=
  env.foldl
    (fun s entry =>
      match settingKey? entry.1 with
      | some key => s.set key (typed entry.2)
      | none => s)
    s

/-- Where the value of a line stands: outside quotes or inside, behind a backslash, in the name of a
variable that is put in, or behind the value's end. -/
inductive Spot
  | plain
  | strong
  | weak
  | escaped (weak : Bool)
  | named (weak : Bool) (name : List Char)
  | braced (weak : Bool) (name : List Char)
  | closed
  | comment
  deriving DecidableEq, Repr

/-- The value of the variable that a line refers to; empty if it is not set. -/
def referred (env : Environment) (name : List Char) : List Char :=
  ((env.get? (String.ofList name)).getD "").toList

/-- Reads a character of a value that stands in no reference. -/
def readPlain (weak : Bool) (out : List Char) (c : Char) : Spot × List Char :=
  let here := if weak then Spot.weak else Spot.plain
  if c = '$' then (.named weak [], out)
  else if c = '\\' then (.escaped weak, out)
  else if c = '"' then (if weak then .plain else .weak, out)
  else if weak then (here, out ++ [c])
  else if c = '\'' then (.strong, out)
  else if c = ' ' ∨ c = '\t' then (.closed, out)
  else (here, out ++ [c])

/-- Reads a character of a value. -/
def readValueChar (env : Environment) (state : Spot × List Char) (c : Char) : Option (Spot × List Char) :=
  let (spot, out) := state
  match spot with
  | .plain => some (readPlain false out c)
  | .weak => some (readPlain true out c)
  | .strong => some (if c = '\'' then (.plain, out) else (.strong, out ++ [c]))
  | .escaped weak =>
    let back := if weak then Spot.weak else Spot.plain
    if c = 'n' then some (back, out ++ ['\n'])
    else if c = '\\' ∨ c = '\'' ∨ c = '"' ∨ c = '$' ∨ c = ' ' then some (back, out ++ [c])
    else none
  | .named weak name =>
    let back := if weak then Spot.weak else Spot.plain
    if c.isAlphanum then some (.named weak (name ++ [c]), out)
    else if c = '\x7b' ∧ name = [] then some (.braced weak [], out)
    else if c = '$' then some (.named weak [], out ++ referred env name)
    else some (back, out ++ referred env name ++ [c])
  | .braced weak name =>
    let back := if weak then Spot.weak else Spot.plain
    if c = '\x7d' then some (back, out ++ referred env name)
    else some (.braced weak (name ++ [c]), out)
  | .closed =>
    if c = ' ' ∨ c = '\t' then some (.closed, out)
    else if c = '#' then some (.comment, out)
    else none
  | .comment => some (.comment, out)

/-- Reads the value of a line. Quotes have to be closed. -/
def readValue? (env : Environment) (cs : List Char) : Option (List Char) := do
  let (spot, out) ← cs.foldlM (readValueChar env) (.plain, [])
  match spot with
  | .strong => none
  | .weak => none
  | .braced _ _ => none
  | .named weak name => if weak then none else some (out ++ referred env name)
  | .escaped weak => if weak then none else some out
  | _ => some out

/-- Reads the name of a variable: letters, digits, underscores and points, without a digit or a point in
front. -/
def readName? (cs : List Char) : Option (String × List Char) :=
  let isNameChar := fun c : Char => c.isAlphanum || c == '_' || c == '.'
  match cs with
  | c :: _ =>
    if c.isAlpha ∨ c = '_' then some (String.ofList (cs.takeWhile isNameChar), cs.dropWhile isNameChar)
    else none
  | [] => none

/-- What follows an equals sign after white space. -/
def readEquals? (cs : List Char) : Option (List Char) :=
  match Text.trimStart cs with
  | '=' :: r => some (Text.trimStart r)
  | _ => none

/-- Reads a line: nothing for a blank or a comment, else a variable; the word `export` may stand in
front. -/
def readLine? (env : Environment) (line : List Char) : Option (Option (String × String)) :=
  match Text.trim line with
  | [] => some none
  | '#' :: _ => some none
  | cs => do
    let (name, r) ← readName? cs
    let (name, r) ←
      match readEquals? r with
      | some r => some (name, r)
      | none =>
        if name = "export" then do
          let (name, r) ← readName? (Text.trimStart r)
          let r ← readEquals? r
          some (name, r)
        else none
    match r with
    | [] => some (some (name, ""))
    | '#' :: _ => some (some (name, ""))
    | _ => (readValue? env r).map fun value => some (name, String.ofList value)

/-- How far a line has come: whether it may end here, stands behind a blank or a backslash, inside
quotes, or in a comment. -/
inductive LineState
  | complete
  | blank
  | escape
  | quoted (mark : Char) (escaped : Bool)
  | comment
  deriving DecidableEq, Repr

/-- What a character outside quotes begins. -/
def LineState.begin (c : Char) : LineState :=
  if c = '\\' then escape else if c = '"' ∨ c = '\'' then quoted c false else complete

/-- The state after a character. A hash behind a blank begins a comment. -/
def LineState.step (s : LineState) (c : Char) : LineState :=
  match s with
  | complete => if Text.isBlank c ∧ c ≠ '\n' ∧ c ≠ '\r' then blank else begin c
  | blank => if c = '#' then comment else begin c
  | escape => complete
  | quoted mark true => quoted mark false
  | quoted mark false =>
    if c = '\\' then quoted mark true else if c = mark then complete else quoted mark false
  | comment => comment

/-- A line without the carriage return at its end. -/
def dropReturn (line : List Char) : List Char :=
  match line.reverse with
  | '\r' :: r => r.reverse
  | _ => line

/-- The lines of a text, without comments; quotes may run over the end of a line. A line that does not
come to its end is none. -/
def linesOf (s : LineState) (line : List Char) : List Char → List (Option (List Char))
  | [] => if line = [] then [] else if s = .complete then [some line] else [none]
  | c :: r =>
    if s = .comment then linesOf (if c = '\n' then .complete else .comment) [] r
    else if c = '#' ∧ line.all Text.isBlank then linesOf .comment [] r
    else
      match s.step c with
      | .comment => some line :: linesOf .comment [] r
      | s' =>
        if c = '\n' ∧ s' = .complete then some (dropReturn line) :: linesOf .complete [] r
        else linesOf s' (line ++ [c]) r

/-- Reads lines into the environment up to the first that cannot be read. A variable that is set keeps
its value. -/
def readLines (env : Environment) : List (Option (List Char)) → Environment
  | [] => env
  | none :: _ => env
  | some line :: lines =>
    match readLine? env line with
    | none => env
    | some none => readLines env lines
    | some (some (name, value)) =>
      readLines (if (env.get? name).isSome then env else env ++ [(name, value)]) lines

/-- The environment with the variables that a file adds. -/
def withFile (env : Environment) (contents : String) : Environment :=
  readLines env (linesOf .complete [] (Text.dropMark contents.toList))

end Environment

end UsageLedger
