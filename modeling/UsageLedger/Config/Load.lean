import UsageLedger.Config.Environment
import UsageLedger.Config.JsonFile
import UsageLedger.Config.Toml.Document

/-! Loading a configuration: what a file says, and over it what the environment says. The file's path is a
variable itself; a path that names no file is tried again with the endings of the formats, and a file in
no known format does not count. -/

namespace UsageLedger.Config

/-- The files of a directory with their contents. -/
abbrev Directory := List (String × String)

/-- A format of configuration files. Files in YAML, INI, RON and JSON5 could be configurations as well; what these say
is left out of account, and such a file is taken for absent. -/
inductive FileFormat
  | toml
  | json
  deriving DecidableEq, Repr

/-- The path where none is given. -/
def standardPath : String := "tally.toml"

/-- The variable that gives the path. -/
def pathVariable : String := "TALLY_CONFIG"

/-- The file of further variables. -/
def variablesFile : String := ".env"

/-- The ending of a path: what follows the last point of its last part, unless that begins the part. -/
def ending (path : List Char) : List Char :=
  let part := (path.reverse.takeWhile (· != '/')).reverse
  let tail := (part.reverse.takeWhile (· != '.')).reverse
  if tail.length + 1 < part.length then tail else []

/-- The format that the ending of a path stands for. -/
def FileFormat.ofPath? (path : String) : Option FileFormat :=
  if ending path.toList = "toml".toList then some toml
  else if ending path.toList = "json".toList then some json
  else none

def plainName : List Char → List Char
  | '.' :: '/' :: r => plainName r
  | r => r

def Directory.read? (files : Directory) (path : String) : Option String :=
  files.lookup (String.ofList (plainName path.toList))

/-- The file at a path, with its format, if there is one that counts. A file with the ending of a format that is left
out of account does not count, and no such ending is tried for a path that names no file. -/
def Directory.find? (files : Directory) (path : String) : Option (FileFormat × String) :=
  match files.read? path with
  | some contents => (FileFormat.ofPath? path).map fun format => (format, contents)
  | none =>
    match files.read? (path ++ ".toml") with
    | some contents => some (.toml, contents)
    | none => (files.read? (path ++ ".json")).map fun contents => (.json, contents)

/-- The settings that a file makes; none if it cannot be read. -/
def readFile? : FileFormat → String → Option Settings
  | .toml, contents => (Toml.ofText? contents).map fun entries => entries.toSettings []
  | .json, contents => ofJsonText? contents

/-- Loads the configuration that an environment and the files of a directory describe. -/
def load (given : Environment) (files : Directory) : Except ConfigFailure Config :=
  let env := ((files.read? variablesFile).map given.withFile).getD given
  let path := (env.get? pathVariable).getD standardPath
  let base := match files.find? path with
    | none => some []
    | some (format, contents) => readFile? format contents
  match base with
  | none => .error (.unreadable path)
  | some settings =>
    match ofSettings? (env.apply settings) with
    | none => .error .wrongType
    | some c => c.validate

end UsageLedger.Config
