import UsageLedger.Json.Token

/-! Reading past one JSON value, token by token. The brackets that are open are kept on a stack, so
values nest as deeply as they like. -/

namespace UsageLedger.Json

/-- What is due next inside a value. -/
inductive Due
  | value
  | valueOrClose
  | key
  | keyOrClose
  | colon
  | separator
  deriving DecidableEq, Repr

/-- A place inside a value: the open brackets, innermost first, and what is due. -/
structure Nesting where
  brackets : List Bracket
  due : Due
  deriving DecidableEq, Repr

namespace Nesting

/-- The place before a value. -/
def start : Nesting := ⟨[], .value⟩

/-- The place after a complete value inside the given brackets; none when the outermost is complete. -/
def after : List Bracket → Option Nesting
  | [] => none
  | brackets => some ⟨brackets, .separator⟩

/-- The place behind an opening bracket. -/
def enter (bracket : Bracket) (brackets : List Bracket) : Nesting :=
  ⟨bracket :: brackets, match bracket with | .list => .valueOrClose | .object => .keyOrClose⟩

def close (bracket : Bracket) : List Bracket → Except Fault (Option Nesting)
  | b :: brackets => if b = bracket then .ok (after brackets) else .error .malformed
  | [] => .error .malformed

/-- Reads a token where a value is due. A value that is kept has to be sound, one that is read past need
only be well formed. -/
def value (kept : Bool) (brackets : List Bracket) : Token → Except Fault (Option Nesting)
  | .opening bracket => .ok (some (enter bracket brackets))
  | .null => .ok (after brackets)
  | .boolean _ => .ok (after brackets)
  | .number n =>
    match n with
    | .error fault => if kept then .error fault else .ok (after brackets)
    | .ok _ => .ok (after brackets)
  | .text s =>
    match s with
    | .error fault => if kept then .error fault else .ok (after brackets)
    | .ok _ => .ok (after brackets)
  | .broken _ sound skipped => .error (if kept then sound else skipped)
  | .closing _ => .error .malformed
  | .comma => .error .malformed
  | .colon => .error .malformed

/-- Reads a token where a key is due. -/
def key (kept : Bool) (brackets : List Bracket) : Token → Except Fault (Option Nesting)
  | .text s =>
    match s with
    | .error fault => if kept then .error fault else .ok (some ⟨brackets, .colon⟩)
    | .ok _ => .ok (some ⟨brackets, .colon⟩)
  | .broken true sound skipped => .error (if kept then sound else skipped)
  | _ => .error .malformed

/-- Reads a token; the answer is none once the outermost value is complete. -/
def step (kept : Bool) (n : Nesting) (t : Token) : Except Fault (Option Nesting) :=
  match n.due, t with
  | .value, t => value kept n.brackets t
  | .valueOrClose, .closing bracket => close bracket n.brackets
  | .valueOrClose, t => value kept n.brackets t
  | .key, t => key kept n.brackets t
  | .keyOrClose, .closing bracket => close bracket n.brackets
  | .keyOrClose, t => key kept n.brackets t
  | .colon, .colon => .ok (some ⟨n.brackets, .value⟩)
  | .colon, _ => .error .malformed
  | .separator, .closing bracket => close bracket n.brackets
  | .separator, .comma =>
    match n.brackets with
    | .list :: _ => .ok (some ⟨n.brackets, .value⟩)
    | .object :: _ => .ok (some ⟨n.brackets, .key⟩)
    | [] => .error .malformed
  | .separator, _ => .error .malformed

end Nesting

end UsageLedger.Json
