import UsageLedger.Config.Setting

/-! Texts, keys and the space between definitions in a TOML file. Text stands in double quotes, with
escapes, or in single quotes, without any, and in three quotes goes on over several lines. -/

namespace UsageLedger.Config.Toml

/-- A text without the spaces and tabs in front. -/
def skipSpaces (cs : List Char) : List Char := cs.dropWhile fun c => c == ' ' || c == '\t'

/-- Whether a character may stand in a comment or inside quotes as it is. -/
def isPrintable (c : Char) : Bool := (32 ≤ c.toNat && c.toNat ≠ 127) || c == '\t'

/-- The end of a line after spaces and a comment: what follows the line break, or nothing at the end. -/
def endLine? (cs : List Char) : Option (List Char) :=
  let cs := skipSpaces cs
  let cs := match cs with | '#' :: r => r.dropWhile isPrintable | r => r
  match cs with
  | [] => some []
  | '\n' :: r => some r
  | '\r' :: '\n' :: r => some r
  | _ => none

/-- A text without the spaces, comments and line breaks in front; `steps` bounds their number. -/
def skipBlank : (steps : Nat) → List Char → List Char
  | 0, cs => cs
  | n + 1, cs =>
    match skipSpaces cs with
    | '#' :: r =>
      match endLine? ('#' :: r) with
      | some r => skipBlank n r
      | none => '#' :: r
    | '\n' :: r => skipBlank n r
    | '\r' :: '\n' :: r => skipBlank n r
    | r => r

/-- The character of an escape by number. -/
def readCode? (digits : Nat) (cs : List Char) : Option (Char × List Char) :=
  if (cs.take digits).length = digits then
    match Uuid.ofHex? (cs.take digits) with
    | some n => if n.isValidChar then some (Char.ofNat n, cs.drop digits) else none
    | none => none
  else none

/-- The character of an escape, read after its backslash. -/
def readEscape? : List Char → Option (Char × List Char)
  | 'b' :: r => some ('\x08', r)
  | 't' :: r => some ('\t', r)
  | 'n' :: r => some ('\n', r)
  | 'f' :: r => some ('\x0c', r)
  | 'r' :: r => some ('\r', r)
  | '"' :: r => some ('"', r)
  | '\\' :: r => some ('\\', r)
  | 'u' :: r => readCode? 4 r
  | 'U' :: r => readCode? 8 r
  | _ => none

/-- Reads the rest of a text in double quotes. -/
def readQuoted : (steps : Nat) → List Char → Option (List Char × List Char)
  | 0, _ => none
  | _ + 1, '"' :: r => some ([], r)
  | n + 1, '\\' :: r => do
    let (c, r) ← readEscape? r
    let (cs, r) ← readQuoted n r
    some (c :: cs, r)
  | n + 1, c :: r => do
    let (cs, r) ← readQuoted n r
    if isPrintable c then some (c :: cs, r) else none
  | _, [] => none

/-- Reads the rest of a text in single quotes. -/
def readLiteral : List Char → Option (List Char × List Char)
  | '\'' :: r => some ([], r)
  | c :: r => do
    let (cs, r) ← readLiteral r
    if isPrintable c then some (c :: cs, r) else none
  | [] => none

/-- Quotes that close a text of several lines: three of them, of which up to two more belong to the text. -/
def closeBlock (quote : Char) (cs : List Char) : Option (List Char × List Char) :=
  let run := (cs.take 5).takeWhile (· == quote)
  if 3 ≤ run.length then some (run.drop 3, cs.drop run.length) else none

/-- Reads the rest of a text of several lines in quotes. A backslash at the end of a line in double quotes
joins what follows the white space after it. -/
def readBlock (quote : Char) : (steps : Nat) → List Char → Option (List Char × List Char)
  | 0, _ => none
  | n + 1, cs =>
    match closeBlock quote cs with
    | some closed => some closed
    | none =>
      match cs with
      | [] => none
      | '\r' :: '\n' :: r => (readBlock quote n r).map fun (cs, r) => ('\n' :: cs, r)
      | c :: r =>
        if c = '\\' ∧ quote = '"' then
          match skipSpaces r with
          | '\n' :: rest =>
            readBlock quote n (rest.dropWhile fun c => c == ' ' || c == '\t' || c == '\n' || c == '\r')
          | '\r' :: '\n' :: rest =>
            readBlock quote n (rest.dropWhile fun c => c == ' ' || c == '\t' || c == '\n' || c == '\r')
          | _ => do
            let (c, r) ← readEscape? r
            let (cs, r) ← readBlock quote n r
            some (c :: cs, r)
        else if isPrintable c ∨ c = '\n' then (readBlock quote n r).map fun (cs, r) => (c :: cs, r)
        else none

/-- A text without a line break right at its front. -/
def dropBreak : List Char → List Char
  | '\n' :: r => r
  | '\r' :: '\n' :: r => r
  | cs => cs

/-- Reads a text in quotes of any form. -/
def readText? (cs : List Char) : Option (List Char × List Char) :=
  match cs with
  | '"' :: '"' :: '"' :: r => readBlock '"' (r.length + 1) (dropBreak r)
  | '\'' :: '\'' :: '\'' :: r => readBlock '\'' (r.length + 1) (dropBreak r)
  | '"' :: r => readQuoted (r.length + 1) r
  | '\'' :: r => readLiteral r
  | _ => none

/-- Reads one name of a key: bare or in quotes. -/
def readName? (cs : List Char) : Option (String × List Char) :=
  match cs with
  | '"' :: r => (readQuoted (r.length + 1) r).map fun (name, r) => (String.ofList name, r)
  | '\'' :: r => (readLiteral r).map fun (name, r) => (String.ofList name, r)
  | _ =>
    let name := cs.takeWhile Settings.isNameChar
    if name = [] then none else some (String.ofList name, cs.dropWhile Settings.isNameChar)

/-- Reads a key: names with points between them. -/
def readKey : (steps : Nat) → List Char → Option (List String × List Char)
  | 0, _ => none
  | n + 1, cs => do
    let (name, r) ← readName? (skipSpaces cs)
    match skipSpaces r with
    | '.' :: r => do
      let (names, r) ← readKey n r
      some (name :: names, r)
    | r => some ([name], r)

end UsageLedger.Config.Toml
