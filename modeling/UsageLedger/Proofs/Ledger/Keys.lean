import UsageLedger.Ledger.Keyed
import UsageLedger.Proofs.Text.Digits
import UsageLedger.Proofs.Text.Identifier

/-! The keys of a ledger in a keyspace are apart: what stands under the key of a statement, of a balance, of
a user's statements and of the audit log is never under another of them, and different events and different
users have different keys. -/

namespace UsageLedger.Ledger.Keys

variable {k : Keys} {id id' : Uuid} {user user' : String}

theorem statement_eq_iff : k.statement id = k.statement id' ↔ id = id' := by
  refine ⟨fun h => Uuid.toText_injective ?_, fun h => by rw [h]⟩
  have hchars := congrArg String.toList h
  simp only [statement, statementText, String.toList_append, String.toList_ofList] at hchars
  exact List.append_cancel_left hchars

theorem balance_eq_iff : k.balance user = k.balance user' ↔ user = user' := by
  refine ⟨fun h => ?_, fun h => by rw [h]⟩
  have hchars := congrArg String.toList h
  simp only [balance, String.toList_append] at hchars
  exact String.toList_inj.1 (List.append_cancel_left hchars)

theorem statements_eq_iff : k.statements user = k.statements user' ↔ user = user' := by
  refine ⟨fun h => ?_, fun h => by rw [h]⟩
  have hchars := congrArg String.toList h
  simp only [statements, String.toList_append] at hchars
  exact String.toList_inj.1 (List.append_cancel_left (List.append_cancel_right hchars))

/-- The letter of a key that tells what it is for: the one after the colon that follows the beginning. -/
def letter (k : Keys) (key : String) : Option Char := (key.toList.drop (k.lead.toList.length + 1)).head?

@[simp] theorem letter_statement : k.letter (k.statement id) = some 's' := by
  simp [letter, statement, statementText]

@[simp] theorem letter_balance : k.letter (k.balance user) = some 'b' := by
  simp [letter, balance]

@[simp] theorem letter_statements : k.letter (k.statements user) = some 'u' := by
  simp [letter, statements]

@[simp] theorem letter_audit : k.letter k.audit = some 'e' := by
  simp [letter, audit]

theorem ne_of_letter {key key' : String} (h : k.letter key ≠ k.letter key') : key ≠ key' :=
  fun heq => h (congrArg k.letter heq)

/-- What a ledger keeps under a key of its own. -/
inductive Purpose
  | statement (id : Uuid)
  | balance (user : String)
  | statements (user : String)
  | audit
  deriving DecidableEq

/-- The key for a purpose. -/
def key (k : Keys) : Purpose → String
  | .statement id => k.statement id
  | .balance user => k.balance user
  | .statements user => k.statements user
  | .audit => k.audit

/-- A key tells its purpose: under one beginning two keys are equal only if they are for the same thing, whatever
the names of the users are. So the statement of an event, the balance of a user, the statements of a user, the same
one or another, and the audit log are kept under four keys. -/
theorem key_injective (k : Keys) :
    Function.Injective k.key ∧
      ∀ id user user', [k.statement id, k.balance user, k.statements user', k.audit].Nodup := by
  have hapart : ∀ p q, k.letter (k.key p) ≠ k.letter (k.key q) → k.key p ≠ k.key q := fun _ _ => ne_of_letter
  refine ⟨fun p q h => ?_, fun id user user' => ?_⟩
  · cases p with
    | statement id =>
        cases q with
        | statement id' => exact congrArg Purpose.statement (statement_eq_iff.1 h)
        | _ => exact absurd h (hapart _ _ (by simp [key]))
    | balance user =>
        cases q with
        | balance user' => exact congrArg Purpose.balance (balance_eq_iff.1 h)
        | _ => exact absurd h (hapart _ _ (by simp [key]))
    | statements user =>
        cases q with
        | statements user' => exact congrArg Purpose.statements (statements_eq_iff.1 h)
        | _ => exact absurd h (hapart _ _ (by simp [key]))
    | audit =>
        cases q with
        | audit => rfl
        | _ => exact absurd h (hapart _ _ (by simp [key]))
  · have hletters : ([k.statement id, k.balance user, k.statements user', k.audit].map k.letter).Nodup := by simp
    exact List.Pairwise.of_map k.letter (fun _ _ => ne_of_letter) hletters

end UsageLedger.Ledger.Keys
