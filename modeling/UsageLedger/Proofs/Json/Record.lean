import Mathlib.Data.List.Nodup
import UsageLedger.Json.Record
import UsageLedger.Proofs.Decimal.Text
import UsageLedger.Proofs.Instant.Text
import UsageLedger.Proofs.Json.Token
import UsageLedger.Proofs.Text.Identifier

/-! A record that was written is read back, as long as its values are. Each value is a token of its own, from
which its kind reads it; members are read one after another into a draft, whose part behind the members
already read is as it was in the beginning. A value that is read as another one, or not at all, makes a
difference to nothing but itself. -/

namespace UsageLedger.Json

open Text (Bytes encode)

/-! ### Values -/

/-- What is read from what is written for a value, in front of a comma or the end of an object. -/
def ReadsAs (kind : Kind) (v : kind.Value) (result : Except Fault kind.Value) : Prop :=
  ∃ t, kind.read t = result ∧ ∀ r, Ends r → tokens (encode (kind.print v) ++ r) = t :: tokens r

/-- Whether a value is read back from what is written for it. -/
def Recovers (kind : Kind) (v : kind.Value) : Prop := ReadsAs kind v (.ok v)

theorem read_text (s : String) : Kind.read .text (.text (.ok s)) = .ok s := rfl

theorem recovers_text (s : String) : Recovers .text s := by
  refine ⟨.text (.ok s), read_text s, fun r _ => ?_⟩
  rw [Kind.print, tokens_printText, String.ofList_toList]

theorem recovers_uuid (u : Uuid) : Recovers .uuid u := by
  refine ⟨.text (.ok (String.ofList u.toText)), ?_, fun r _ => tokens_printText _ r⟩
  simp only [Kind.read, Token.found, Except.bind, Kind.ofFound, readText, String.toList_ofList,
    Uuid.ofText?_toText, ofContent]

theorem recovers_instant (a : Instant) : Recovers .instant a := by
  refine ⟨.text (.ok (String.ofList a.toText)), ?_, fun r _ => tokens_printText _ r⟩
  simp only [Kind.read, Token.found, Except.bind, Kind.ofFound, readText, String.toList_ofList,
    Instant.ofText?_toText, ofContent]

theorem recovers_decimal (d : Decimal) : Recovers .decimal d := by
  refine ⟨.text (.ok (String.ofList d.toText)), ?_, fun r _ => tokens_printText _ r⟩
  simp only [Kind.read, Token.found, Except.bind, Kind.ofFound, readDecimal, String.toList_ofList,
    Decimal.ofText?_toText, ofContent]

theorem read_int64 (n : Int64) : Kind.read .int64 (.number (.ok (.integer n.toInt))) = .ok n := by
  have hlow := n.le_toInt
  have hhigh := n.toInt_lt
  simp only [Kind.read, Token.found, Except.bind, Kind.ofFound, readInteger]
  rw [if_pos (by omega), Except.map, Int64.ofInt_toInt]

theorem recovers_int64 (n : Int64) : Recovers .int64 n := by
  have hlow := n.le_toInt
  have hhigh := n.toInt_lt
  exact ⟨.number (.ok (.integer n.toInt)), read_int64 n, fun r hends => tokens_signed hlow (by omega) hends⟩

theorem recovers_int32 (n : Int32) : Recovers .int32 n := by
  have hlow := n.le_toInt
  have hhigh := n.toInt_lt
  refine ⟨.number (.ok (.integer n.toInt)), ?_, fun r hends => tokens_signed (by omega) (by omega) hends⟩
  simp only [Kind.read, Token.found, Except.bind, Kind.ofFound, readInteger]
  rw [if_pos (by omega), Except.map, Int32.ofInt_toInt]

/-! ### Drafts -/

/-- A draft in which every field has been read. -/
def Draft.full : (fs : List Field) → Row fs → Draft fs
  | [], _ => ()
  | _ :: fs, (v, row) => (some v, Draft.full fs row)

theorem Draft.complete_full (missing : Nat → Field → Mismatch) {fs : List Field} (row : Row fs) (place : Nat) :
    (Draft.full fs row).complete missing place = .ok row := by
  induction fs generalizing place with
  | nil => rfl
  | cons f fs ih =>
      obtain ⟨v, row⟩ := row
      simp only [Draft.full, Draft.complete, Option.some_or, ih, Except.map]

/-- Whether all values of a row are read back. -/
def RowRecovers : (fs : List Field) → Row fs → Prop
  | [], _ => True
  | f :: fs, (v, row) => Recovers f.kind v ∧ RowRecovers fs row

/-- What is read from what is written for a row: all its values, or the first fault among them. -/
def RowReadsAs : (fs : List Field) → Row fs → Except Fault (Row fs) → Prop
  | [], _, result => result = .ok ()
  | f :: fs, (v, row), result => ∃ first rest, ReadsAs f.kind v first ∧ RowReadsAs fs row rest ∧
      result = first.bind fun v => rest.map fun row => (v, row)

theorem RowRecovers.readsAs {fs : List Field} {row : Row fs} (h : RowRecovers fs row) :
    RowReadsAs fs row (.ok row) := by
  induction fs with
  | nil => rfl
  | cons f fs ih =>
      obtain ⟨v, row⟩ := row
      exact ⟨.ok v, .ok row, h.1, ih h.2, rfl⟩

/-- A draft of the last fields of a record as one of all its fields: the fields have their places behind
the first `start`, and what completes them completes the record. -/
structure Embeds (s : Schema) (gs : List Field) (start : Nat) (embed : Draft gs → Draft s.fields)
    (join : Row gs → Row s.fields) : Prop where
  place : ∀ i g, gs[i]? = some g → s.place? g.name = some (start + i)
  has : ∀ d i, (embed d).has (start + i) = d.has i
  read : ∀ d i t, (embed d).read (start + i) t = (d.read i t).map embed
  full : ∀ rest, embed (Draft.full gs rest) = Draft.full s.fields (join rest)

theorem Embeds.whole {s : Schema} (hplace : ∀ i f, s.fields[i]? = some f → s.place? f.name = some i) :
    Embeds s s.fields 0 id id where
  place i f h := by rw [Nat.zero_add]; exact hplace i f h
  has d i := by rw [Nat.zero_add]; rfl
  read d i t := by
    rw [Nat.zero_add, id_eq]
    cases d.read i t <;> rfl
  full _ := rfl

/-- What is left of a record once the first of its last fields has been read. -/
theorem Embeds.tail {s : Schema} {g : Field} {gs : List Field} {start : Nat}
    {embed : Draft (g :: gs) → Draft s.fields} {join : Row (g :: gs) → Row s.fields}
    (h : Embeds s (g :: gs) start embed join) (v : g.kind.Value) :
    Embeds s gs (start + 1) (fun d => embed (some v, d)) fun rest => join (v, rest) where
  place i f hf := by rw [Nat.add_right_comm]; exact h.place (i + 1) f hf
  has d i := by rw [Nat.add_right_comm]; exact h.has (some v, d) (i + 1)
  read d i t := by
    rw [Nat.add_right_comm]
    refine (h.read (some v, d) (i + 1) t).trans ?_
    change ((d.read i t).map fun d => (some v, d)).map embed = _
    cases d.read i t <;> rfl
  full rest := h.full (v, rest)

theorem place?_of_nodup {s : Schema} (h : (s.fields.map (·.name)).Nodup) (i : Nat) (f : Field)
    (hf : s.fields[i]? = some f) : s.place? f.name = some i := by
  obtain ⟨hi, rfl⟩ := List.getElem?_eq_some_iff.1 hf
  rw [Schema.place?, List.findIdx?_eq_some_iff_getElem]
  refine ⟨hi, by simp, fun j hj hsame => Nat.ne_of_lt hj ?_⟩
  have hj' : j < (s.fields.map (·.name)).length := by simpa using hj.trans hi
  refine (List.getElem?_inj hj' h).1 ?_
  rw [List.getElem?_map, List.getElem?_map, List.getElem?_eq_getElem (hj.trans hi), List.getElem?_eq_getElem hi]
  simpa using hsame

/-! ### Members -/

variable {s : Schema}

/-- A member is read from a place where a key is due up to the separator behind its value. -/
theorem foldlM_member {g : Field} {v : g.kind.Value} {t : Token} {draft : Draft s.fields}
    {result : Except Fault (Draft s.fields)} {place : Nat} {stage : Stage}
    (hstage : ∀ name, Reading.step (.partway stage draft) (.text (.ok name)) =
      Reading.key draft (.text (.ok name)))
    (hplace : s.place? g.name = some place) (hnew : draft.has place = false)
    (hread : draft.read place t = result) {r : Bytes}
    (htokens : tokens (encode (g.kind.print v) ++ r) = t :: tokens r) :
    (tokens (encode (printText g.name.toList ++ ':' :: g.kind.print v) ++ r)).foldlM Reading.step
        (Reading.partway stage draft) =
      result.bind fun draft => (tokens r).foldlM Reading.step (Reading.partway .separator draft) := by
  have hkey : Reading.step (.partway stage draft) (.text (.ok g.name)) =
      .ok (.partway (.colon (some place)) draft) := by
    rw [hstage, Reading.key]
    simp only [hplace, hnew]
    rfl
  have hvalue : Reading.step (.partway (.value place) draft) t =
      result.map (Reading.partway .separator) := by
    change (draft.read place t).map _ = _
    rw [hread]
  have hbytes : encode (printText g.name.toList ++ ':' :: g.kind.print v) ++ r =
      encode (printText g.name.toList) ++ 58 :: (encode (g.kind.print v) ++ r) := by
    simp [Text.encodeChar]
  rw [hbytes, tokens_printText, tokens_colon, htokens, String.ofList_toList, List.foldlM_cons, hkey]
  change List.foldlM Reading.step (Reading.partway (.value place) draft) (t :: tokens r) = _
  rw [List.foldlM_cons, hvalue]
  cases result <;> rfl

theorem printMembers_cons (g h : Field) (gs : List Field) (v : g.kind.Value) (rest : Row (h :: gs)) :
    printMembers (g :: h :: gs) (v, rest) =
      (printText g.name.toList ++ ':' :: g.kind.print v) ++ ',' :: printMembers (h :: gs) rest := rfl

/-- The members of the last fields are read to the end of the object, or to the first fault among them. -/
theorem foldlM_members {gs : List Field} {rest : Row gs} {result : Except Fault (Row gs)} {start : Nat}
    {embed : Draft gs → Draft s.fields} {join : Row gs → Row s.fields} (hsome : gs ≠ [])
    (hembeds : Embeds s gs start embed join) (hrow : RowReadsAs gs rest result) (stage : Stage)
    (hstage : ∀ draft name, Reading.step (s := s) (.partway stage draft) (.text (.ok name)) =
      Reading.key draft (.text (.ok name))) (r : Bytes) :
    (tokens (encode (printMembers gs rest) ++ 125 :: r)).foldlM Reading.step
        (Reading.partway stage (embed (Draft.empty gs))) =
      result.bind fun rest => (tokens r).foldlM Reading.step (Reading.finished (join rest)) := by
  induction gs generalizing start stage with
  | nil => exact absurd rfl hsome
  | cons g gs ih =>
      obtain ⟨v, rest⟩ := rest
      obtain ⟨first, others, ⟨t, hvalue, htokens⟩, hothers, rfl⟩ := hrow
      have hread : (embed (Draft.empty (g :: gs))).read start t =
          first.map fun v => embed (some v, Draft.empty gs) := by
        refine (hembeds.read (Draft.empty (g :: gs)) 0 t).trans ?_
        change ((g.kind.read t).map _).map embed = _
        rw [hvalue]
        cases first <;> rfl
      have hnew : (embed (Draft.empty (g :: gs))).has start = false := hembeds.has (Draft.empty (g :: gs)) 0
      cases gs with
      | nil =>
          obtain rfl : others = .ok () := hothers
          refine (foldlM_member (hstage _) (hembeds.place 0 g rfl) hnew hread
            (htokens _ ⟨r, .inr rfl⟩)).trans ?_
          cases first with
          | error fault => rfl
          | ok v' =>
              have hfull : embed (some v', Draft.empty []) = Draft.full s.fields (join (v', ())) :=
                hembeds.full (v', ())
              simp only [Except.map, Except.bind]
              rw [tokens_close, List.foldlM_cons, hfull]
              change (Reading.endObject (Draft.full s.fields _) >>= fun b =>
                List.foldlM Reading.step b (tokens r)) = _
              rw [Reading.endObject, Draft.complete_full]
              rfl
      | cons h gs =>
          rw [printMembers_cons, Text.encode_append, List.append_assoc]
          refine (foldlM_member (hstage _) (hembeds.place 0 g rfl) hnew hread (htokens _ ⟨_, .inl rfl⟩)).trans ?_
          cases first with
          | error fault => rfl
          | ok v' =>
              change List.foldlM Reading.step _
                (tokens (44 :: (encode (printMembers (h :: gs) rest) ++ 125 :: r))) = _
              rw [tokens_comma, List.foldlM_cons]
              refine (ih (by simp) (hembeds.tail v') hothers .key (fun _ _ => rfl)).trans ?_
              cases others <;> rfl

/-- A record that was written is read as what its values are read as. -/
theorem Schema.decode_print_of_reads {row : Row s.fields} {result : Except Fault (Row s.fields)}
    (hsome : s.fields ≠ []) (hnames : (s.fields.map (·.name)).Nodup) (hrow : RowReadsAs s.fields row result) :
    s.decode (encode (s.print row)) = result := by
  have hbytes : encode (s.print row) = 123 :: (encode (printMembers s.fields row) ++ [125]) := by
    simp [Schema.print, Text.encodeChar]
  have hmembers := foldlM_members hsome (Embeds.whole (place?_of_nodup hnames)) hrow
    .keyOrClose (fun _ _ => rfl) []
  rw [Schema.decode, Schema.ofTokens, hbytes, tokens_open, List.foldlM_cons]
  change ((tokens (encode (printMembers s.fields row) ++ [125])).foldlM Reading.step
    (Reading.partway .keyOrClose (id (Draft.empty s.fields)))).bind Reading.result = _
  rw [hmembers, tokens_nil]
  cases result <;> rfl

/-- A record is read back as it was written, as long as all its values are. -/
theorem Schema.decode_print {row : Row s.fields} (hsome : s.fields ≠ [])
    (hnames : (s.fields.map (·.name)).Nodup) (hrow : RowRecovers s.fields row) :
    s.decode (encode (s.print row)) = .ok row :=
  decode_print_of_reads hsome hnames hrow.readsAs

end UsageLedger.Json
