import UsageLedger.Proofs.Json.Derivation

/-! Events are read by name, whatever surrounds the members that count. An object that is read as an event is of the
grammar, so it has members; with these in any order, with any white space, and among further ones whose keys are
texts that name no field, the same event is read, and a field that may be missing has its fallback when its member is
left out. Only a key that is no text is not read past: one of half a surrogate pair is of the grammar, but nothing is
read from an object that has it. -/

namespace UsageLedger

open Text (Bytes encode)

namespace Json

/-- A text that begins with a brace, but for white space, begins an object. -/
theorem head?_tokens_of_brace {bytes : Bytes} (h : bytes.find? (fun b => !isSpace b) = some 123) :
    (tokens bytes).head? = some (.opening .object) := by
  induction bytes with
  | nil => cases h
  | cons b bytes ih =>
      cases hspace : isSpace b with
      | true =>
          rw [List.find?_cons_of_neg (by simp [hspace])] at h
          rw [tokens_space hspace, ih h]
      | false =>
          rw [List.find?_cons_of_pos (by simp [hspace])] at h
          obtain rfl := Option.some.inj h
          rw [tokens_open]
          rfl

/-! ### Layouts -/

/-- Lexemes with the same white space in front of each. -/
def layOut (gap : Bytes) (ls : List Lexeme) : Bytes := ls.flatMap fun l => gap ++ l.bytes

theorem lays_layOut {gap : Bytes} (hgap : ∀ b ∈ gap, isSpace b = true) (ls : List Lexeme) :
    Lays ls (layOut gap ls) := by
  have hspaces : ∀ {ls s} (bs : Bytes), (∀ b ∈ bs, isSpace b = true) → Lays ls s → Lays ls (bs ++ s) := by
    intro ls s bs hbs hs
    induction bs with
    | nil => exact hs
    | cons b bs ih => exact .space (hbs b List.mem_cons_self) (ih fun b' hb' => hbs b' (List.mem_cons_of_mem b hb'))
  induction ls with
  | nil => exact .nil
  | cons l ls ih =>
      rw [layOut, List.flatMap_cons, List.append_assoc]
      exact hspaces gap hgap (.lexeme l ih)

theorem find?_layOut (ms : List Member) :
    (layOut [] (objectLexemes ms)).find? (fun b => !isSpace b) = some 123 := rfl

instance : DecidablePred IsPlain := fun _ => inferInstanceAs (Decidable (_ ∧ _))

/-- The pieces of a text that needs no escapes. -/
def plainPieces (text : String) : List Piece :=
  (encode text.toList).filterMap fun b => if h : IsPlain b then some (.plain b h) else none

def Numeral.ofNat (n : Nat) : Numeral := ⟨false, Text.digits n, [], none, Text.isWhole_digits n, by simp⟩

def textMember (key value : String) : Member := ⟨plainPieces key, [.text (plainPieces value)], .scalar (.text _)⟩

def wholeMember (key : String) (n : Nat) : Member := ⟨plainPieces key, [.number (.ofNat n)], .scalar (.number _)⟩

/-- Half of a surrogate pair. -/
def unpaired : Piece := .quad 100 56 48 48 (by decide)

end Json

/-! ### Events -/

namespace Event

open Json

/-- The names of the fields that may be missing. -/
def optionalNames : List String := ["value_type", "scene", "op_uid", "extra"]

/-- An event with the fields of some names as they are when they are missing. -/
def without (e : Event) (names : List String) : Event :=
  { e with
    kind := if "value_type" ∈ names then .monetary else e.kind
    scene := if "scene" ∈ names then .reserve else e.scene
    operator := if "op_uid" ∈ names then 0 else e.operator
    extra := if "extra" ∈ names then "" else e.extra }

variable {ms : List Member} {row : Row schema.fields} {name : String} {names : List String} {payload : Bytes} {e : Event}

theorem without_nil (e : Event) : e.without [] = e := by simp [without]

theorem without_cons (e : Event) (name : String) (names : List String) :
    e.without (name :: names) = (e.without [name]).without names := by
  simp only [without, List.mem_cons, List.not_mem_nil, or_false, mk.injEq, true_and]
  refine ⟨?_, ?_, ?_, ?_⟩
  all_goals split_ifs <;> simp_all

/-- Without the member of a field that may be missing an event is read as if it had never had it. -/
theorem ofMembers_without_one (hname : name ∈ optionalNames) (h : schema.ofMembers ms = .ok row) :
    ∃ row', schema.ofMembers (ms.filter fun m => !m.isAmong [name]) = .ok row' ∧
      ofRow row' = (ofRow row).without [name] := by
  obtain ⟨id, user, value, kind, scene, operator, occurredAt, extra, ⟨⟩⟩ := row
  have hkind : ValueKind.ofOrdinal 0 = .monetary := rfl
  have hscene : Scene.ofOrdinal 0 = .reserve := rfl
  have hzero := read_int64 0
  simp only [optionalNames, List.mem_cons, List.not_mem_nil, or_false] at hname
  rcases hname with rfl | rfl | rfl | rfl
  · refine ⟨(id, user, value, 0, scene, operator, occurredAt, extra, ()), ?_, by simp [without, ofRow, hkind]⟩
    have hfield : schema.fields[3]? = some ⟨"value_type", .int64, some 0⟩ := rfl
    refine Schema.ofMembers_filter hfield (by decide) rfl hzero ?_ h
    simp only [RowRereads, Draft.read, Draft.full, schema, hzero, Except.map]
  · refine ⟨(id, user, value, kind, 0, operator, occurredAt, extra, ()), ?_, by simp [without, ofRow, hscene]⟩
    have hfield : schema.fields[4]? = some ⟨"scene", .int64, some 0⟩ := rfl
    refine Schema.ofMembers_filter hfield (by decide) rfl hzero ?_ h
    simp only [RowRereads, Draft.read, Draft.full, schema, hzero, Except.map]
  · refine ⟨(id, user, value, kind, scene, 0, occurredAt, extra, ()), ?_, by simp [without, ofRow]⟩
    have hfield : schema.fields[5]? = some ⟨"op_uid", .int64, some 0⟩ := rfl
    refine Schema.ofMembers_filter hfield (by decide) rfl hzero ?_ h
    simp only [RowRereads, Draft.read, Draft.full, schema, hzero, Except.map]
  · refine ⟨(id, user, value, kind, scene, operator, occurredAt, "", ()), ?_, by simp [without, ofRow]⟩
    have hfield : schema.fields[7]? = some ⟨"extra", .text, some ""⟩ := rfl
    refine Schema.ofMembers_filter hfield (by decide) rfl (read_text "") ?_ h
    rfl

/-- Without the members of fields that may be missing an event is read as if it had never had them. -/
theorem ofMembers_without (hnames : ∀ name ∈ names, name ∈ optionalNames) (h : schema.ofMembers ms = .ok row) :
    ∃ row', schema.ofMembers (ms.filter fun m => !m.isAmong names) = .ok row' ∧
      ofRow row' = (ofRow row).without names := by
  induction names generalizing ms row with
  | nil =>
      have hall : (ms.filter fun m => !m.isAmong []) = ms :=
        List.filter_eq_self.2 fun m _ => by rw [Member.isAmong_nil, Bool.not_false]
      exact ⟨row, by rw [hall, h], (without_nil _).symm⟩
  | cons name names ih =>
      obtain ⟨row', hrow', hone⟩ := ofMembers_without_one (hnames name List.mem_cons_self) h
      obtain ⟨row'', hrow'', hrest⟩ := ih (fun n hn => hnames n (List.mem_cons_of_mem name hn)) hrow'
      have hfilter : (ms.filter fun m => !m.isAmong [name]).filter (fun m => !m.isAmong names) =
          ms.filter fun m => !m.isAmong (name :: names) := by
        rw [List.filter_filter]
        exact List.filter_congr fun m _ => by rw [m.isAmong_cons name names, Bool.not_or, Bool.and_comm]
      exact ⟨row'', by rw [← hfilter, hrow''], by rw [hrest, hone, ← without_cons]⟩

theorem decode_object (h : Lays (objectLexemes ms) payload) : decode payload = .ok e ↔
    ∃ row, schema.ofMembers ms = .ok row ∧ ofRow row = e := by
  rw [decode, Schema.decode_object h]
  cases schema.ofMembers ms <;> simp

/-- An object that is read as an event has members. -/
theorem exists_members (hobject : payload.find? (fun b => !isSpace b) = some 123) (hdecode : decode payload = .ok e) :
    ∃ ms, Lays (objectLexemes ms) payload := by
  unfold decode at hdecode
  split at hdecode
  · rename_i row hrow
    exact Schema.exists_object (head?_tokens_of_brace hobject) hrow
  · cases hdecode

/-- Whether some members are others in any order, without those of some names and among further ones, whose keys are
texts that name no field. -/
def Rearranges (names : List String) (ms ms' : List Member) : Prop :=
  ∃ further, (∀ m ∈ further, m.IsForeign schema) ∧ ms'.Perm ((ms.filter fun m => !m.isAmong names) ++ further)

/-- An event is read by name, whatever surrounds the members that count. An object that is read as an event has
members, and from any rearrangement of them, with any white space, the same event is read, but for the fields that
are left out. -/
theorem decode_by_name (hobject : payload.find? (fun b => !isSpace b) = some 123) (hdecode : decode payload = .ok e) :
    (∃ ms, Lays (objectLexemes ms) payload) ∧
    ∀ ms ms' names payload', Lays (objectLexemes ms) payload → Lays (objectLexemes ms') payload' →
      (∀ name ∈ names, name ∈ optionalNames) → Rearranges names ms ms' →
        decode payload' = .ok (e.without names) := by
  refine ⟨exists_members hobject hdecode, ?_⟩
  rintro ms ms' names payload' hlays hlays' hnames ⟨further, hfurther, hperm⟩
  obtain ⟨row, hrow, rfl⟩ := (decode_object hlays).1 hdecode
  obtain ⟨row', hrow', hwithout⟩ := ofMembers_without hnames hrow
  exact (decode_object hlays').2 ⟨row', Schema.ofMembers_perm hfurther hperm hrow', hwithout⟩

/-- The members of an event of raw units. -/
def meteredMembers : List Member :=
  [textMember "uuid" "6f1c3a52-1f0e-4c4e-9d43-8f7b00000001", textMember "user_id" "u-1", wholeMember "value" 5,
    wholeMember "value_type" 1, wholeMember "scene" 10, textMember "created_at" "2024-03-01T10:00:00Z"]

/-- A member of another name, with half of a surrogate pair for a key deep inside. -/
def note : Member where
  key := plainPieces "note"
  value := _
  isValue := .enclosed (.more (.element (.empty .object))
    (.element (.enclosed (.member [unpaired] (.scalar (.number (.ofNat 1)))))))

/-- The members in reverse, with a note and without the scene. -/
def rearrangedMembers : List Member :=
  ((meteredMembers.filter fun m => !m.isAmong ["scene"]) ++ [note]).reverse

/-- A member with half of a surrogate pair for its key. -/
def unpairedKey : Member := ⟨[unpaired], [.null], .scalar .null⟩

theorem metered_by_name : ∃ e, decode (layOut [] (objectLexemes meteredMembers)) = .ok e ∧
    e.scene = .modelInference ∧
    decode (layOut [32, 10] (objectLexemes rearrangedMembers)) = .ok { e with scene := .reserve } := by
  have hscene : (schema.ofMembers meteredMembers).map (fun row => (ofRow row).scene) = .ok .modelInference := by
    decide +kernel
  have hnote : textOf note.key = .ok "note" := by decide +kernel
  have hnames : ∀ name ∈ ["scene"], name ∈ optionalNames := by decide
  have hfurther : ∀ m ∈ [note], m.IsForeign schema := List.forall_mem_singleton.2 ⟨"note", hnote, by decide⟩
  have hrearranges : Rearranges ["scene"] meteredMembers rearrangedMembers := ⟨[note], hfurther, List.reverse_perm _⟩
  have hlays : Lays _ (layOut [] _) := lays_layOut (by simp) (objectLexemes meteredMembers)
  have hlays' : Lays _ (layOut [32, 10] _) := lays_layOut (by simp [isSpace]) (objectLexemes rearrangedMembers)
  obtain ⟨row, hrow, hrow'⟩ := exists_of_map_eq_ok hscene
  have hdecode := (decode_object hlays).2 ⟨row, hrow, rfl⟩
  exact ⟨ofRow row, hdecode, hrow',
    (decode_by_name (find?_layOut meteredMembers) hdecode).2 _ _ _ _ hlays hlays' hnames hrearranges⟩

/-- A member of another name makes a difference when its key is no text. -/
theorem not_decoded_beside_unpaired_key :
    (∃ e, decode (layOut [] (objectLexemes meteredMembers)) = .ok e) ∧
    (∀ name ∈ schema.fields.map (·.name), textOf unpairedKey.key ≠ .ok name) ∧
    ∀ e, decode (layOut [] (objectLexemes (meteredMembers ++ [unpairedKey]))) ≠ .ok e := by
  have hunpaired : textOf unpairedKey.key = .error .malformed := by decide +kernel
  have hmetered : ((schema.ofMembers meteredMembers).map ofRow).isOk = true := by decide +kernel
  refine ⟨?_, fun name _ h => ?_, fun e h => ?_⟩
  · cases hrow : schema.ofMembers meteredMembers with
    | error fault =>
        rw [hrow] at hmetered
        cases hmetered
    | ok row => exact ⟨ofRow row, (decode_object (lays_layOut (by simp) _)).2 ⟨row, hrow, rfl⟩⟩
  · rw [hunpaired] at h
    cases h
  · obtain ⟨row, hrow, -⟩ := (decode_object (lays_layOut (by simp) _)).1 h
    obtain ⟨d, hfold, -⟩ := exists_of_bind_eq_ok hrow
    obtain ⟨name, hname⟩ := Schema.exists_textOf hfold unpairedKey (List.mem_append_right _ (List.mem_singleton_self _))
    rw [hunpaired] at hname
    cases hname

end Event

end UsageLedger
