import UsageLedger.Ledger.Keyed
import UsageLedger.Proofs.Json.Double

/-! The rows of the audit log. -/

namespace UsageLedger

open Text (Bytes encode)

/-! ### Events read back -/

namespace Event

/-- What is read from the text that is written for an event. -/
def readBack (e : Event) : Except Error Event := decode (encode e.print)

/-- An event is read back with the value that its value shows; all else is as it was. -/
theorem readBack_eq (e : Event) : e.readBack =
    match e.value.shown? with
    | some v => .ok { e with value := v }
    | none => .error (.payload (.undecodableEvent (encode e.print) .content)) := by
  have hrest : Json.RowRecovers (schema.fields.drop 3) e.toRow.2.2.2 :=
    ⟨Json.recovers_int64 _, Json.recovers_int64 _, Json.recovers_int64 _, Json.recovers_instant _,
      Json.recovers_text _, trivial⟩
  have hrow : Json.RowReadsAs schema.fields e.toRow
      ((Json.ofContent e.value.shown?).map fun v => { e with value := v }.toRow) := by
    refine ⟨_, _, Json.recovers_uuid _, ⟨_, _, Json.recovers_text _, ⟨_, _, Json.readsAs_double _,
      hrest.readsAs, rfl⟩, rfl⟩, ?_⟩
    cases e.value.shown? <;> rfl
  rw [readBack, decode, print, Json.Schema.decode_print_of_reads (List.cons_ne_nil _ _) (by decide) hrow]
  cases e.value.shown? with
  | none => rfl
  | some v => simp [Json.ofContent, Except.map]

/-- Of the value, the text of an event shows the floating-point number that it is written as. -/
theorem print_with_value {e : Event} {v : Decimal} (h : v.toBinary64 = e.value.toBinary64) :
    { e with value := v }.print = e.print := by
  simp only [print, toRow, schema, Json.Schema.print, Json.printMembers, Json.Kind.print, h]

/-- What is read back differs in nothing but the value. -/
theorem readBack_eq_ok_iff {e e' : Event} :
    e.readBack = .ok e' ↔ ∃ v, e.value.shown? = some v ∧ e' = { e with value := v } := by
  rw [readBack_eq]
  cases e.value.shown? with
  | none => simp
  | some v => simp [eq_comm]

end Event

/-! ### Rows -/

namespace Ledger

/-- The rows of a list, none when nothing is there. -/
def Keyspace.rows (k : Keyspace) (key : String) : List String :=
  match k.value? key with
  | some (.list items) => items
  | _ => []

theorem Keyspace.rows_push {k k' : Keyspace} {key item : String} (h : k.push key item = .ok k') :
    k'.rows key = k.rows key ++ [item] := by
  unfold push at h
  split at h
  · rename_i hnone
    obtain rfl := Except.ok.inj h
    simp [rows, hnone, value?_put]
  · rename_i items hitems
    obtain rfl := Except.ok.inj h
    simp [rows, hitems, value?_put]
  · cases h

/-- Recording an event adds its text to the rows. -/
theorem Keyed.rows_record {e : Event} {k : Keyed} (h : (record e k).1 = .ok ()) :
    (record e k).2.store.rows k.keys.audit = k.store.rows k.keys.audit ++ [String.ofList e.print] := by
  unfold record send writing at h ⊢
  dsimp only at h ⊢
  cases hrefused : isRefusing { k with sent := .push :: k.sent } .push with
  | true =>
      rw [hrefused] at h
      cases h
  | false =>
      rw [hrefused, if_neg Bool.false_ne_true] at h
      rw [if_neg Bool.false_ne_true]
      cases hpush : k.store.push k.keys.audit (String.ofList e.print) with
      | ok store => exact Keyspace.rows_push hpush
      | error refusal =>
          rw [hpush] at h
          cases h

/-- The row of an event is its text, and it is read back with all fields as they were but the value, which is
written as a floating-point number. There is an event to read exactly below the last value that is nearest to less
than `2 ^ 96`; its value is within one part in `2 ^ 47`; and it is never the value that was billed when that has more
than seventeen digits. With at most fifteen digits and twenty-two places it is that value, and its row is the same
again. -/
theorem audit_rows_read_back (e : Event) :
    (∀ k : Keyed, (Keyed.record e k).1 = .ok () → (Keyed.record e k).2.store.rows k.keys.audit =
      k.store.rows k.keys.audit ++ [String.ofList e.print]) ∧
    (if |e.value.value| < 2 ^ 96 - 2 ^ 42 then ∃ v, e.readBack = .ok { e with value := v }
      else e.readBack = .error (.payload (.undecodableEvent (encode e.print) .content))) ∧
    (∀ e', e.readBack = .ok e' → 2 ^ 47 * |e'.value.value - e.value.value| ≤ |e.value.value| ∧
      (e'.value.same e.value → e.value.HasDigits 17)) ∧
    (e.value.coefficient.natAbs < 10 ^ 15 → e.value.scale ≤ 22 → ∃ v, e.readBack = .ok { e with value := v } ∧
      v.same e.value ∧ { e with value := v }.print = e.print) := by
  refine ⟨fun k => Keyed.rows_record, ?_, fun e' he' => ?_, fun hfew hscale => ?_⟩
  · have hiff := e.value.exists_shown_iff
    split
    · rename_i hlt
      obtain ⟨v, hv⟩ := hiff.2 hlt
      exact ⟨v, Event.readBack_eq_ok_iff.2 ⟨v, hv, rfl⟩⟩
    · rename_i hlarge
      have hnone : e.value.shown? = none := by
        rw [Option.eq_none_iff_forall_ne_some]
        exact fun v hv => hlarge (hiff.1 ⟨v, hv⟩)
      rw [Event.readBack_eq, hnone]
  · obtain ⟨v, hv, rfl⟩ := Event.readBack_eq_ok_iff.1 he'
    exact ⟨Decimal.shown_near hv, fun hsame => Decimal.few_of_shown hv (Decimal.same_iff_value_eq.1 hsame)⟩
  · obtain ⟨v, hv, hvalue, hwritten⟩ := Decimal.shown_of_few hfew hscale
    exact ⟨v, Event.readBack_eq_ok_iff.2 ⟨v, hv, rfl⟩, Decimal.same_iff_value_eq.2 hvalue,
      Event.print_with_value hwritten⟩

/-- The message of a charge whose value is written with these characters. -/
def chargeOf (value : String) : Bytes :=
  encode ("\x7b\"uuid\":\"6f1c3a52-1f0e-4c4e-9d43-8f7b00000001\",\"user_id\":\"u-1\",\"value\":".toList ++ value.toList ++
    ",\"value_type\":0,\"scene\":10,\"op_uid\":7,\"created_at\":\"2024-03-01T10:00:00Z\",\"extra\":\"\"\x7d".toList)

/-- The event of such a message. -/
def chargeEvent (value : Decimal) : Event :=
  ⟨⟨0x6f1c3a521f0e4c4e9d438f7b00000001⟩, "u-1", value, .monetary, .modelInference, 7,
    ⟨19783, 36000, 0, by decide, by decide, by decide, Instant.epoch.nano_lt, by decide⟩, ""⟩

/-- The row of an odd charge beyond `2 ^ 53` shows another value. So does that of a large round one, whose text is right
but is not read as the nearest floating-point number; and the row of the largest charge shows none. -/
theorem chargeOf_misread :
    (∃ e e', Event.decode (chargeOf "9007199254740993") = .ok e ∧ e.readBack = .ok e' ∧
      e'.value.same e.value = false) ∧
    (∃ e e', Event.decode (chargeOf "\"300000000000000000000000\"") = .ok e ∧ e.readBack = .ok e' ∧
      e'.value.same e.value = false) ∧
    ∃ e, Event.decode (chargeOf "\"79228162514264337593543950335\"") = .ok e ∧ ∀ e', e.readBack ≠ .ok e' := by
  refine ⟨?_, ?_, ?_⟩
  · exact ⟨chargeEvent ⟨9007199254740993, 0, by decide, by decide⟩,
      chargeEvent ⟨9007199254740992, 0, by decide, by decide⟩, by decide +kernel, by decide +kernel, by decide +kernel⟩
  · exact ⟨chargeEvent ⟨300000000000000000000000, 0, by decide, by decide⟩,
      chargeEvent ⟨299999999999999970000000, 0, by decide, by decide⟩, by decide +kernel, by decide +kernel,
      by decide +kernel⟩
  · refine ⟨chargeEvent ⟨79228162514264337593543950335, 0, by decide, by decide⟩, by decide +kernel, fun e' he' => ?_⟩
    obtain ⟨v, hv, -⟩ := Event.readBack_eq_ok_iff.1 he'
    have hnone : (chargeEvent ⟨79228162514264337593543950335, 0, by decide, by decide⟩).value.shown? = none := by
      decide +kernel
    rw [hnone] at hv
    cases hv

theorem chargeOf_read_back : ∃ e v, Event.decode (chargeOf "\"-123456.789012340\"") = .ok e ∧
    (Keyed.record e (Keyed.fresh "l")).2.store.rows "l:events" = [String.ofList e.print] ∧
    e.value.coefficient.natAbs < 10 ^ 15 ∧ e.value.scale ≤ 22 ∧ e.readBack = .ok { e with value := v } ∧
    v.same e.value = true ∧ { e with value := v }.print = e.print := by
  obtain ⟨hrow, -, -, hback⟩ := audit_rows_read_back (chargeEvent ⟨-123456789012340, 9, by decide, by decide⟩)
  obtain ⟨v, hv, hsame, hprint⟩ := hback (by decide) (by decide)
  exact ⟨_, v, by decide +kernel, hrow (Keyed.fresh "l") (by decide +kernel), by decide, by decide, hv, hsame, hprint⟩

end Ledger

end UsageLedger
