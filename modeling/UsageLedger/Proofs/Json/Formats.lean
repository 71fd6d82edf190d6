import UsageLedger.Account
import UsageLedger.Alert
import UsageLedger.Proofs.Json.Record
import UsageLedger.Statement

/-! The records that the ledger stores and publishes are read back from their texts. A statement, an account
and the details of an event always are; of an alert all but the reason is, which is read back as long as it
is the one that its code stands for. -/

namespace UsageLedger

open Text (encode)

/-! ### Statements and accounts -/

theorem Statement.rowRecovers (s : Statement) : Json.RowRecovers schema.fields s.toRow :=
  ⟨Json.recovers_uuid _, Json.recovers_text _, Json.recovers_decimal _, Json.recovers_decimal _,
    Json.recovers_int64 _, Json.recovers_int64 _, Json.recovers_text _, Json.recovers_instant _,
    Json.recovers_text _, Json.recovers_text _, Json.recovers_decimal _, Json.recovers_text _,
    Json.recovers_instant _, trivial⟩

/-- A statement is read back as it was written. -/
theorem Statement.decode_print (s : Statement) : decode (encode s.print) = .ok s := by
  rw [decode, print, Json.Schema.decode_print (List.cons_ne_nil _ _) (by decide) s.rowRecovers, Except.map,
    ofRow_toRow]

theorem Account.decode_print (a : Account) : decode (encode a.print) = .ok a := by
  have hrow : Json.RowRecovers schema.fields a.toRow :=
    ⟨Json.recovers_text _, Json.recovers_decimal _, trivial⟩
  rw [decode, print, Json.Schema.decode_print (List.cons_ne_nil _ _) (by decide) hrow, Except.map, ofRow_toRow]

/-! ### Alerts -/

theorem Reason.code_ofCode (n : Int32) : (ofCode n).code = n := by
  unfold ofCode
  split_ifs with h₀ h₁ h₂ h₃ h₄
  · exact h₀.symm
  · exact h₁.symm
  · exact h₂.symm
  · exact h₃.symm
  · exact h₄.symm
  · rfl

/-- The codes of the named reasons are theirs alone. -/
theorem Reason.ofCode_code_iff (r : Reason) : ofCode r.code = r ↔ ∃ n, r = ofCode n := by
  constructor
  · intro h
    exact ⟨r.code, h.symm⟩
  · rintro ⟨n, rfl⟩
    rw [code_ofCode]

/-- An alert is read back with the reason that its code stands for. -/
theorem Alert.decode_print (a : Alert) :
    decode (encode a.print) = .ok { a with reason := .ofCode a.reason.code } := by
  have hrow : Json.RowRecovers schema.fields a.toRow :=
    ⟨Json.recovers_uuid _, Json.recovers_text _, Json.recovers_instant _, Json.recovers_int32 _,
      Json.recovers_text _, trivial⟩
  rw [decode, print, Json.Schema.decode_print (List.cons_ne_nil _ _) (by decide) hrow]
  rfl

theorem Alert.decode_print_iff (a : Alert) :
    decode (encode a.print) = .ok a ↔ ∃ n, a.reason = .ofCode n := by
  rw [decode_print, Except.ok.injEq, Alert.ext_iff, ← Reason.ofCode_code_iff]
  simp only [true_and, and_true]

/-! ### Details of an event -/

theorem Text.trim_ne_nil_of_head {c : Char} (h : isBlank c = false) (cs : List Char) : trim (c :: cs) ≠ [] := by
  have hstart : trimStart (c :: cs) = c :: cs := trimStart_of_head (by simpa using h)
  intro hempty
  rw [trim, hstart, List.reverse_eq_nil_iff, trimStart, List.dropWhile_eq_nil_iff] at hempty
  exact absurd (hempty c (by simp)) (by simp [h])

theorem Extra.decode_print (x : Extra) : schema.decode (encode x.print) = .ok x.toRow :=
  Json.Schema.decode_print (List.cons_ne_nil _ _) (by decide)
    ⟨Json.recovers_text _, Json.recovers_text _, Json.recovers_text _, Json.recovers_text _, trivial⟩

theorem Event.details_withDetails (e : Event) (x : Extra) : (e.withDetails x).details = .ok x := by
  have hsome : Text.trim x.print ≠ [] := Text.trim_ne_nil_of_head (by decide) _
  unfold details
  simp only [withDetails, String.toList_ofList, x.decode_print, Extra.ofRow_toRow]

/-! ### All of them -/

/-- Every record is read back as it was written: a statement, an account, an alert exactly if its reason is
one that a code stands for, and the details that an event carries. -/
theorem records_read_back :
    (∀ s : Statement, Statement.decode (encode s.print) = .ok s) ∧
      (∀ a : Account, Account.decode (encode a.print) = .ok a) ∧
      (∀ a : Alert, Alert.decode (encode a.print) = .ok a ↔ ∃ n, a.reason = .ofCode n) ∧
      ∀ (e : Event) (x : Extra), (e.withDetails x).details = .ok x :=
  ⟨Statement.decode_print, Account.decode_print, Alert.decode_print_iff, Event.details_withDetails⟩

end UsageLedger
