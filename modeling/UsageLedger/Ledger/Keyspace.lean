import UsageLedger.Text.Digits

/-! A keyspace: named values that are texts, lists of texts or sets of texts ordered by score. A command
on a value of another kind is refused and changes nothing. -/

namespace UsageLedger.Ledger

/-- A value under a key. -/
inductive Value
  | text (contents : String)
  | list (items : List String)
  | scored (members : List (Int × String))
  deriving DecidableEq, Repr

/-- Why a command is refused. -/
inductive Refusal
  | wrongKind
  | notAnInteger
  | overflow
  | unavailable
  deriving DecidableEq, Repr

/-- Keys with their values, at most one for a key. -/
structure Keyspace where
  entries : List (String × Value)
  keys_nodup : (entries.map (·.1)).Nodup
  deriving DecidableEq, Repr

namespace Keyspace

def empty : Keyspace := ⟨[], List.nodup_nil⟩

instance : Inhabited Keyspace := ⟨empty⟩

def value? (k : Keyspace) (key : String) : Option Value := k.entries.lookup key

def erase (k : Keyspace) (key : String) : Keyspace where
  entries := k.entries.filter fun entry => entry.1 != key
  keys_nodup := (List.filter_sublist.map _).nodup k.keys_nodup

def put (k : Keyspace) (key : String) (v : Value) : Keyspace where
  entries := (key, v) :: (k.erase key).entries
  keys_nodup := by
    refine List.nodup_cons.2 ⟨?_, (k.erase key).keys_nodup⟩
    simp [erase]

def has (k : Keyspace) (key : String) : Bool := (k.value? key).isSome

/-- The text under a key, none where there is no key. -/
def text? (k : Keyspace) (key : String) : Except Refusal (Option String) :=
  match k.value? key with
  | none => .ok none
  | some (.text s) => .ok (some s)
  | some _ => .error .wrongKind

/-- The texts under keys; a key without a text has none. -/
def texts (k : Keyspace) (keys : List String) : List (Option String) :=
  keys.map fun key => (k.text? key).toOption.join

/-- Puts a text under a key that is not there; whether it was put. -/
def putNew (k : Keyspace) (key : String) (contents : String) : Bool × Keyspace :=
  if k.has key then (false, k) else (true, k.put key (.text contents))

/-- The number that a text is the plain writing of. -/
def integer? (s : String) : Option Int :=
  match Text.integer64? s.toList with
  | some n => if Text.signed n = s.toList then some n else none
  | none => none

/-- Adds to the number under a key; where there is no key it counts from zero. -/
def increase (k : Keyspace) (key : String) (delta : Int) : Except Refusal Keyspace :=
  match k.text? key with
  | .error refusal => .error refusal
  | .ok contents =>
    match integer? (contents.getD "0") with
    | none => .error .notAnInteger
    | some n =>
      if -(2 ^ 63) ≤ n + delta ∧ n + delta < 2 ^ 63 then
        .ok (k.put key (.text (String.ofList (Text.signed (n + delta)))))
      else .error .overflow

/-- The order of scored members: by score, and by text where scores are equal. -/
def memberLe (a b : Int × String) : Bool := a.1 < b.1 || (a.1 == b.1 && a.2 ≤ b.2)

/-- Puts a member in its place. -/
def insertMember (m : Int × String) : List (Int × String) → List (Int × String)
  | [] => [m]
  | x :: xs => if memberLe m x then m :: x :: xs else x :: insertMember m xs

/-- Adds a member with its score to the set under a key, instead of the same member with another score. -/
def addScored (k : Keyspace) (key : String) (score : Int) (member : String) : Except Refusal Keyspace :=
  match k.value? key with
  | none => .ok (k.put key (.scored [(score, member)]))
  | some (.scored members) =>
    let others := members.filter fun x => x.2 != member
    .ok (k.put key (.scored (insertMember (score, member) others)))
  | some _ => .error .wrongKind

/-- The members with a score from `low` to `high`, in order, from an offset on and up to a count of them.
A negative offset selects nothing and a negative count everything that is left. -/
def rangeByScore (k : Keyspace) (key : String) (low high offset count : Int) :
    Except Refusal (List String) :=
  match k.value? key with
  | none => .ok []
  | some (.scored members) =>
    let selected := (members.filter fun x => low ≤ x.1 && x.1 ≤ high).map (·.2)
    if offset < 0 then .ok []
    else
      let rest := selected.drop offset.toNat
      .ok (if count < 0 then rest else rest.take count.toNat)
  | some _ => .error .wrongKind

/-- Adds an item to the end of the list under a key. -/
def push (k : Keyspace) (key : String) (item : String) : Except Refusal Keyspace :=
  match k.value? key with
  | none => .ok (k.put key (.list [item]))
  | some (.list items) => .ok (k.put key (.list (items ++ [item])))
  | some _ => .error .wrongKind

@[simp] theorem value?_empty (key : String) : empty.value? key = none := rfl

theorem lookup_filter_ne (entries : List (String × Value)) {a b : String} (h : a ≠ b) :
    (entries.filter fun entry => entry.1 != b).lookup a = entries.lookup a := by
  induction entries with
  | nil => rfl
  | cons entry rest ih =>
    obtain ⟨key, v⟩ := entry
    by_cases hb : key = b
    · subst hb
      have ha : (a == key) = false := by simp [h]
      simp [List.lookup_cons, ih, ha]
    · simp [hb, List.lookup_cons, ih]

/-- What was put under a key is found there, and nothing else changes. -/
theorem value?_put (k : Keyspace) (key other : String) (v : Value) :
    (k.put key v).value? other = if other = key then some v else k.value? other := by
  by_cases h : other = key
  · simp [value?, put, h]
  · have hb : (other == key) = false := by simp [h]
    simp only [value?, put, List.lookup_cons, hb, erase, h, if_false]
    exact lookup_filter_ne _ h

end Keyspace

end UsageLedger.Ledger
