import Mathlib.Algebra.BigOperators.Group.List.Basic
import UsageLedger.Ledger.Call
import UsageLedger.Proofs.Decimal.Value

/-! The books of a ledger: what there is to know of it whatever it is kept in. A ledger has statements and
holdings; only a posting that succeeds changes them, it adds the statement it was asked for, its event
had none, and it moves the holding of nobody but its user. -/

namespace UsageLedger.Ledger

variable {σ : Type}

/-- The statement that a call posts, if it is a posting and succeeds. -/
def Call.posting? (serve : Service σ) (m : σ) : Call → Option Statement
  | .create s delta =>
    match (serve (.create s delta) m).1 with
    | .ok _ => some s
    | .error _ => none
  | _ => none

/-- The books of the ledgers that answer calls with `serve`. In a sound ledger, which every call leaves
sound, it is known whether an event has a statement, which entries are stored and what a user holds; a
statement makes an entry, and only statements that are posted do. -/
structure Books (serve : Service σ) where
  sound : σ → Prop
  has : σ → Uuid → Prop
  Entry : Type
  entry : Statement → Entry
  stores : σ → Entry → Prop
  holding : σ → String → ℚ
  sound_serve {m : σ} (call : Call) : sound m → sound (serve call m).2
  has_serve {m : σ} (call : Call) (id : Uuid) : sound m →
    (has (serve call m).2 id ↔ has m id ∨ ∃ s, call.posting? serve m = some s ∧ s.event = id)
  has_of_find {m : σ} {id : Uuid} {found : Option Statement} : sound m →
    (serve (.find id) m).1 = .ok found → (found.isSome ↔ has m id)
  has_of_duplicate {m : σ} {s : Statement} {delta : Decimal} : sound m →
    (serve (.create s delta) m).1 = .error (.duplicateEvent s.event) → has m s.event
  not_has_of_posting {m : σ} {call : Call} {s : Statement} : sound m → call.posting? serve m = some s →
    ¬has m s.event
  stores_serve {m : σ} (call : Call) (x : Entry) : sound m →
    (stores (serve call m).2 x ↔ stores m x ∨ ∃ s, call.posting? serve m = some s ∧ entry s = x)
  holding_serve {m : σ} (call : Call) (user : String) : sound m →
    (∀ s, call.posting? serve m = some s → s.user ≠ user) → holding (serve call m).2 user = holding m user

/-- What some statements bill a user in all. -/
def billed (statements : List Statement) (user : String) : ℚ :=
  ((statements.filter fun s => s.user = user).map fun s => s.amount.value).sum

@[simp] theorem billed_nil (user : String) : billed [] user = 0 := rfl

theorem billed_append (xs ys : List Statement) (user : String) :
    billed (xs ++ ys) user = billed xs user + billed ys user := by
  simp [billed]

theorem billed_singleton (s : Statement) (user : String) :
    billed [s] user = if s.user = user then s.amount.value else 0 := by
  by_cases h : s.user = user <;> simp [billed, h]

/-- Among statements of different events, the one of an event. -/
theorem find?_event_eq_some_iff {statements : List Statement} (hevents : (statements.map (·.event)).Nodup)
    {id : Uuid} {s : Statement} :
    (statements.find? fun t => t.event == id) = some s ↔ s ∈ statements ∧ s.event = id := by
  constructor
  · intro h
    exact ⟨List.mem_of_find?_eq_some h, by simpa using List.find?_some h⟩
  · rintro ⟨hmem, rfl⟩
    obtain ⟨t, ht⟩ : ∃ t, (statements.find? fun t => t.event == s.event) = some t := by
      rw [← Option.isSome_iff_exists, List.find?_isSome]
      exact ⟨s, hmem, by simp⟩
    have htmem := List.mem_of_find?_eq_some ht
    have hevent : t.event = s.event := by simpa using List.find?_some ht
    rw [ht, List.inj_on_of_nodup_map hevents htmem hmem hevent]

variable {serve : Service σ} {m : σ} {call : Call} {s : Statement}

theorem Call.posting?_eq_some (h : call.posting? serve m = some s) :
    ∃ delta, call = .create s delta ∧ (serve (.create s delta) m).1 = .ok () := by
  unfold posting? at h
  split at h
  · rename_i t delta
    split at h
    · rename_i accepted haccepted
      obtain rfl := Option.some.inj h
      exact ⟨delta, rfl, haccepted⟩
    · cases h
  · cases h

namespace Books

variable {books : Books serve}

/-- Whether a call, if it posts, moves the holding of its user by its delta. -/
def IsExact (books : Books serve) (call : Call) (m : σ) : Prop :=
  ∀ s delta, call = .create s delta → call.posting? serve m = some s →
    books.holding (serve call m).2 s.user = books.holding m s.user + delta.value

/-- Whether a balance that is given is what the user holds. -/
def ReadsBalances (books : Books serve) : Prop :=
  ∀ m user balance, books.sound m → (serve (.balance user) m).1 = .ok balance →
    balance.value = books.holding m user

/-- An exact call that posts at its statement's amount moves every holding by what it bills the user. -/
theorem holding_of_isExact (books : Books serve) (hsound : books.sound m) (hexact : books.IsExact call m)
    (hdelta : ∀ s delta, call = .create s delta → delta = s.amount) (user : String) :
    books.holding (serve call m).2 user =
      books.holding m user + billed (call.posting? serve m).toList user := by
  cases hposting : call.posting? serve m with
  | none =>
      rw [books.holding_serve call user hsound (by simp [hposting])]
      simp
  | some s =>
      obtain ⟨delta, hcall, -⟩ := Call.posting?_eq_some hposting
      rw [Option.toList_some, billed_singleton]
      by_cases huser : s.user = user
      · rw [if_pos huser, ← huser, hexact s delta hcall hposting, hdelta s delta hcall]
      · rw [if_neg huser, add_zero]
        refine books.holding_serve call user hsound fun t ht => ?_
        rwa [← Option.some.inj (hposting.symm.trans ht)]

end Books

end UsageLedger.Ledger
