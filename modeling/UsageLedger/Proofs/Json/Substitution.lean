import UsageLedger.Event
import UsageLedger.Proofs.Json.Record

/-! One value of a record written otherwise. A record is read in one pass that looks at each token once, so a text
with another token where the value of a field is due is read as the same record with another value there, as long
as the field can be read from that token. It does not matter how the rest is written, or in which order. So an event
can be read with any numbers for its kind and its scene, and its details with any text for the duration. -/

namespace UsageLedger

namespace Json

open Text (Bytes)

variable {s : Schema} {fs : List Field} {place : Nat} {t : Token}

theorem exists_of_map_eq_ok {ε α β : Type} {f : α → β} {x : Except ε α} {b : β} (h : x.map f = .ok b) :
    ∃ a, x = .ok a ∧ f a = b := by
  cases x with
  | error e => cases h
  | ok a => exact ⟨a, rfl, Except.ok.inj h⟩

theorem exists_of_bind_eq_ok {ε α β : Type} {f : α → Except ε β} {x : Except ε α} {b : β} (h : x.bind f = .ok b) :
    ∃ a, x = .ok a ∧ f a = .ok b := by
  cases x with
  | error e => cases h
  | ok a => exact ⟨a, rfl, h⟩

/-! ### Drafts -/

namespace Draft

variable {d d' e : Draft fs}

/-- Whether a draft has a field and becomes another one when that field is read again. -/
def Rereads (place : Nat) (t : Token) (d d' : Draft fs) : Prop := d.has place = true ∧ d.read place t = .ok d'

theorem lt_length_of_has (h : d.has place = true) : place < fs.length := by
  induction fs generalizing place with
  | nil => cases h
  | cons f fs ih =>
      cases place with
      | zero => exact Nat.succ_pos _
      | succ place => exact Nat.succ_lt_succ (ih h)

theorem has_of_read (h : d.read place t = .ok d') (hplace : place < fs.length) : d'.has place = true := by
  induction fs generalizing place with
  | nil => cases hplace
  | cons f fs ih =>
      cases place with
      | zero =>
          obtain ⟨v, -, rfl⟩ := exists_of_map_eq_ok h
          rfl
      | succ place =>
          obtain ⟨rest, hrest, rfl⟩ := exists_of_map_eq_ok h
          exact ih hrest (Nat.lt_of_succ_lt_succ hplace)

theorem has_of_read_of_ne {i : Nat} (h : d.read i t = .ok d') (hne : i ≠ place) : d'.has place = d.has place := by
  induction fs generalizing i place with
  | nil => rfl
  | cons f fs ih =>
      cases i with
      | zero =>
          obtain ⟨v, -, rfl⟩ := exists_of_map_eq_ok h
          cases place with
          | zero => exact (hne rfl).elim
          | succ place => rfl
      | succ i =>
          obtain ⟨rest, hrest, rfl⟩ := exists_of_map_eq_ok h
          cases place with
          | zero => rfl
          | succ place => exact ih hrest fun heq => hne (congrArg Nat.succ heq)

theorem exists_read {f : Field} {v : f.kind.Value} (hfield : fs[place]? = some f) (hread : f.kind.read t = .ok v)
    (d : Draft fs) : ∃ d', d.read place t = .ok d' := by
  induction fs generalizing place with
  | nil => cases hfield
  | cons g fs ih =>
      cases place with
      | zero =>
          obtain rfl := Option.some.inj hfield
          exact ⟨(some v, d.2), by rw [read, hread]; rfl⟩
      | succ place =>
          obtain ⟨rest, hrest⟩ := ih hfield d.2
          exact ⟨(d.1, rest), by rw [read, hrest]; rfl⟩

/-- Of two values read for a field the last one counts. -/
theorem read_read {u : Token} (h : d.read place u = .ok e) (h' : d.read place t = .ok d') :
    e.read place t = .ok d' := by
  induction fs generalizing place with
  | nil => exact h'
  | cons f fs ih =>
      cases place with
      | zero =>
          obtain ⟨v, -, rfl⟩ := exists_of_map_eq_ok h
          exact h'
      | succ place =>
          obtain ⟨rest, hrest, rfl⟩ := exists_of_map_eq_ok h
          obtain ⟨rest', hrest', rfl⟩ := exists_of_map_eq_ok h'
          change (read _ place t).map _ = _
          rw [ih hrest hrest']
          rfl

/-- Values of different fields may be read in either order. -/
theorem read_comm {i : Nat} {u : Token} (hne : i ≠ place) (h : d.read i u = .ok e) (h' : d.read place t = .ok d') :
    ∃ e', d'.read i u = .ok e' ∧ e.read place t = .ok e' := by
  induction fs generalizing i place with
  | nil => exact ⟨(), rfl, rfl⟩
  | cons f fs ih =>
      cases i with
      | zero =>
          cases place with
          | zero => exact (hne rfl).elim
          | succ place =>
              obtain ⟨v, hv, rfl⟩ := exists_of_map_eq_ok h
              obtain ⟨rest, hrest, rfl⟩ := exists_of_map_eq_ok h'
              refine ⟨(some v, rest), ?_, ?_⟩
              · change (f.kind.read u).map _ = _
                rw [hv]
                rfl
              · change (read _ place t).map _ = _
                rw [hrest]
                rfl
      | succ i =>
          obtain ⟨rest, hrest, rfl⟩ := exists_of_map_eq_ok h
          cases place with
          | zero =>
              obtain ⟨v, hv, rfl⟩ := exists_of_map_eq_ok h'
              refine ⟨(some v, rest), ?_, ?_⟩
              · change (read _ i u).map _ = _
                rw [hrest]
                rfl
              · change (f.kind.read t).map _ = _
                rw [hv]
                rfl
          | succ place =>
              obtain ⟨rest', hrest', rfl⟩ := exists_of_map_eq_ok h'
              obtain ⟨last, hleft, hright⟩ := ih (fun heq => hne (congrArg Nat.succ heq)) hrest hrest'
              refine ⟨(d.1, last), ?_, ?_⟩
              · change (read _ i u).map _ = _
                rw [hleft]
                rfl
              · change (read _ place t).map _ = _
                rw [hright]
                rfl

theorem Rereads.has (h : Rereads place t d d') (i : Nat) : d'.has i = d.has i := by
  by_cases hi : place = i
  · subst hi
    rw [h.1]
    exact has_of_read h.2 (lt_length_of_has h.1)
  · exact has_of_read_of_ne h.2 hi

/-- Another field is read from a draft that has been reread as from the one before. -/
theorem Rereads.read {i : Nat} {u : Token} (h : Rereads place t d d') (hne : i ≠ place) (hread : d.read i u = .ok e) :
    ∃ e', d'.read i u = .ok e' ∧ Rereads place t e e' := by
  obtain ⟨e', hleft, hright⟩ := read_comm hne hread h.2
  exact ⟨e', hleft, (has_of_read_of_ne hread hne).trans h.1, hright⟩

end Draft

/-- Whether two rows differ at most in the value of one field, which is read from a token in the second one. -/
def RowRereads (place : Nat) (t : Token) (row row' : Row fs) : Prop :=
  (Draft.full fs row).read place t = .ok (Draft.full fs row')

theorem Draft.full_injective (fs : List Field) : Function.Injective (Draft.full fs) := by
  intro row row' h
  induction fs with
  | nil => rfl
  | cons f fs ih =>
      obtain ⟨hv, hrest⟩ := Prod.mk.inj h
      exact Prod.ext (Option.some.inj hv) (ih hrest)

theorem RowRereads.eq {row row' row'' : Row fs} (h : RowRereads place t row row') (h' : RowRereads place t row row'') :
    row' = row'' := Draft.full_injective fs (Except.ok.inj (h.symm.trans h'))

/-- A draft can be completed after a field has been read into it if it could be before. -/
theorem Draft.complete_read {missing : Nat → Field → Mismatch} {d d' : Draft fs} {row : Row fs} {first : Nat}
    (hplace : place < fs.length) (hread : d.read place t = .ok d') (hcomplete : d.complete missing first = .ok row) :
    ∃ row', d'.complete missing first = .ok row' ∧ RowRereads place t row row' := by
  induction fs generalizing place first with
  | nil => cases hplace
  | cons f fs ih =>
      obtain ⟨v, rest⟩ := d
      unfold complete at hcomplete
      split at hcomplete
      · cases hcomplete
      · rename_i value hvalue
        obtain ⟨tail, htail, rfl⟩ := exists_of_map_eq_ok hcomplete
        cases place with
        | zero =>
            obtain ⟨v', hv', rfl⟩ := exists_of_map_eq_ok hread
            refine ⟨(v', tail), ?_, ?_⟩
            · simp only [complete, Option.some_or, htail, Except.map]
            · change (f.kind.read t).map _ = _
              rw [hv']
              rfl
        | succ place =>
            obtain ⟨rest', hrest', rfl⟩ := exists_of_map_eq_ok hread
            obtain ⟨tail', htail', hrow⟩ := ih (Nat.lt_of_succ_lt_succ hplace) hrest' htail
            refine ⟨(value, tail'), ?_, ?_⟩
            · simp only [complete, hvalue, htail', Except.map]
            · change (Draft.read (Draft.full fs tail) place t).map _ = _
              rw [show Draft.read (Draft.full fs tail) place t = _ from hrow]
              rfl

theorem Draft.Rereads.complete {missing : Nat → Field → Mismatch} {d d' : Draft fs} {row : Row fs} {first : Nat}
    (h : Rereads place t d d') (hcomplete : d.complete missing first = .ok row) :
    ∃ row', d'.complete missing first = .ok row' ∧ RowRereads place t row row' :=
  complete_read (lt_length_of_has h.1) h.2 hcomplete

/-! ### Readings -/

/-- Whether a field is not read any more from a stage on, if it has been read before. -/
def Stage.IsPast (place : Nat) : Stage → Prop
  | .start => False
  | .colon (some i) => i ≠ place
  | .value i => i ≠ place
  | .elementOrClose => False
  | .element i => place < i
  | .elementSeparator i => place < i
  | _ => True

/-- Whether one reading is another one with a field reread that is not read any more. -/
inductive Reading.Follows (place : Nat) (t : Token) : Reading s → Reading s → Prop
  | partway {stage : Stage} {d d' : Draft s.fields} (hpast : stage.IsPast place) (h : d.Rereads place t d') :
      Follows place t (.partway stage d) (.partway stage d')
  | finished {row row' : Row s.fields} (h : RowRereads place t row row') :
      Follows place t (.finished row) (.finished row')

namespace Reading

variable {x x' y : Reading s} {d d' : Draft s.fields} {u : Token}

/-- The end of an object or of a list. -/
theorem Follows.complete {missing : Nat → Field → Mismatch} (h : d.Rereads place t d')
    (hend : (d.complete missing 0).map Reading.finished = .ok y) :
    ∃ y', (d'.complete missing 0).map Reading.finished = .ok y' ∧ Follows place t y y' := by
  obtain ⟨row, hrow, rfl⟩ := exists_of_map_eq_ok hend
  obtain ⟨row', hrow', hrereads⟩ := h.complete hrow
  exact ⟨.finished row', by rw [hrow']; rfl, .finished hrereads⟩

/-- A key that has been met before is refused, so the value behind a key is never that of the reread field. -/
theorem Follows.key (h : d.Rereads place t d') (hkey : key d u = .ok y) :
    ∃ y', Reading.key d' u = .ok y' ∧ Follows place t y y' := by
  unfold Reading.key at hkey
  split at hkey
  · rename_i name
    rw [Reading.key]
    cases hplace : s.place? name with
    | none =>
        rw [hplace] at hkey
        obtain rfl := Except.ok.inj hkey
        exact ⟨_, rfl, .partway trivial h⟩
    | some i =>
        rw [hplace] at hkey
        dsimp only at hkey ⊢
        rw [h.has]
        split at hkey
        · cases hkey
        · rename_i hnew
          obtain rfl := Except.ok.inj hkey
          rw [if_neg hnew]
          refine ⟨_, rfl, .partway (fun heq => hnew ?_) h⟩
          rw [heq]
          exact h.1
  · cases hkey
  · cases hkey
  · cases hkey

theorem Follows.element {i : Nat} (hi : place < i) (h : d.Rereads place t d') (helement : element i d u = .ok y) :
    ∃ y', Reading.element i d' u = .ok y' ∧ Follows place t y y' := by
  obtain ⟨e, he, rfl⟩ := exists_of_map_eq_ok helement
  obtain ⟨e', he', hrereads⟩ := h.read hi.ne' he
  refine ⟨.partway (.elementSeparator (i + 1)) e', ?_, .partway (hi.trans (Nat.lt_succ_self i)) hrereads⟩
  rw [Reading.element, he']
  rfl

theorem Follows.past {nesting : Nesting} (h : d.Rereads place t d') (hpast : past nesting d u = .ok y) :
    ∃ y', Reading.past nesting d' u = .ok y' ∧ Follows place t y y' := by
  obtain ⟨next, hnext, rfl⟩ := exists_of_map_eq_ok hpast
  rw [Reading.past, hnext]
  cases next with
  | none => exact ⟨_, rfl, .partway trivial h⟩
  | some nesting => exact ⟨_, rfl, .partway trivial h⟩

theorem Follows.value {i : Nat} (hi : i ≠ place) (h : d.Rereads place t d')
    (hvalue : Reading.step (.partway (.value i) d) u = .ok y) :
    ∃ y', Reading.step (.partway (.value i) d') u = .ok y' ∧ Follows place t y y' := by
  obtain ⟨e, he, rfl⟩ := exists_of_map_eq_ok hvalue
  obtain ⟨e', he', hrereads⟩ := h.read hi he
  refine ⟨.partway .separator e', ?_, .partway trivial hrereads⟩
  change (Draft.read _ i u).map _ = _
  rw [he']
  rfl

theorem Follows.separator (h : d.Rereads place t d') (hseparator : Reading.step (.partway .separator d) u = .ok y) :
    ∃ y', Reading.step (.partway .separator d') u = .ok y' ∧ Follows place t y y' := by
  cases u with
  | comma =>
      obtain rfl := Except.ok.inj hseparator
      exact ⟨_, rfl, .partway trivial h⟩
  | closing bracket =>
      cases bracket with
      | object => exact Follows.complete h hseparator
      | list => cases hseparator
  | _ => cases hseparator

theorem Follows.elementSeparator {i : Nat} (hi : place < i) (h : d.Rereads place t d')
    (hseparator : Reading.step (.partway (.elementSeparator i) d) u = .ok y) :
    ∃ y', Reading.step (.partway (.elementSeparator i) d') u = .ok y' ∧ Follows place t y y' := by
  cases u with
  | comma =>
      change (if _ then _ else _) = _ at hseparator
      split at hseparator
      · rename_i hmore
        obtain rfl := Except.ok.inj hseparator
        exact ⟨_, if_pos hmore, .partway hi h⟩
      · cases hseparator
  | closing bracket =>
      cases bracket with
      | list => exact Follows.complete h hseparator
      | object => cases hseparator
  | _ => cases hseparator

theorem step_keyOrClose (hu : u ≠ .closing .object) : Reading.step (.partway .keyOrClose d) u = Reading.key d u := by
  cases u with
  | closing bracket =>
      cases bracket with
      | object => exact (hu rfl).elim
      | list => rfl
  | _ => rfl

/-- A token is read alike from a reading with a field reread. -/
theorem Follows.step (h : Follows place t x x') (hstep : step x u = .ok y) :
    ∃ y', Reading.step x' u = .ok y' ∧ Follows place t y y' := by
  cases h with
  | finished h => cases hstep
  | @partway stage d d' hpast h =>
      -- only a value or an element reads from the draft, and neither is that of the reread field
      cases stage with
      | start => exact hpast.elim
      | keyOrClose =>
          by_cases hu : u = .closing .object
          · subst hu
            exact Follows.complete h hstep
          · rw [step_keyOrClose hu] at hstep ⊢
            exact Follows.key h hstep
      | key => exact Follows.key h hstep
      | colon i =>
          cases u with
          | colon =>
              cases i with
              | none =>
                  obtain rfl := Except.ok.inj hstep
                  exact ⟨_, rfl, .partway trivial h⟩
              | some i =>
                  obtain rfl := Except.ok.inj hstep
                  exact ⟨_, rfl, .partway hpast h⟩
          | _ => cases i <;> cases hstep
      | value i => exact Follows.value hpast h hstep
      | past nesting => exact Follows.past h hstep
      | separator => exact Follows.separator h hstep
      | elementOrClose => exact hpast.elim
      | element i => exact Follows.element hpast h hstep
      | elementSeparator i => exact Follows.elementSeparator hpast h hstep

theorem Follows.foldlM (h : Follows place t x x') (ts : List Token) (hfold : ts.foldlM Reading.step x = .ok y) :
    ∃ y', ts.foldlM Reading.step x' = .ok y' ∧ Follows place t y y' := by
  induction ts generalizing x x' with
  | nil =>
      obtain rfl := Except.ok.inj hfold
      exact ⟨x', rfl, h⟩
  | cons u ts ih =>
      rw [List.foldlM_cons] at hfold ⊢
      obtain ⟨next, hnext, hrest⟩ := exists_of_bind_eq_ok hfold
      obtain ⟨next', hnext', hfollows⟩ := h.step hnext
      rw [hnext']
      exact ih hfollows hrest

end Reading

/-! ### Records -/

deriving instance DecidableEq for Token

/-- Whether the value of a field is due, in an object or in a list. -/
def Reading.isAt (place : Nat) : Reading s → Bool
  | partway (.value i) _ => i == place
  | partway (.element i) _ => i == place
  | _ => false

/-- Whether the value of a field is due behind some tokens. -/
def Schema.isDue (s : Schema) (place : Nat) (front : List Token) : Bool :=
  (front.foldlM Reading.step (Reading.start (s := s))).toOption.any (·.isAt place)

/-- Whether two texts have the same tokens but for one, which stands where the value of a field is due and is `t` in
the second text. -/
def Schema.Rewrites (s : Schema) (place : Nat) (t : Token) (bytes bytes' : Bytes) : Prop :=
  ∃ front back u, s.isDue place front = true ∧ tokens bytes = front ++ u :: back ∧ tokens bytes' = front ++ t :: back

theorem Schema.exists_of_isDue {front : List Token} (h : s.isDue place front = true) :
    ∃ stage draft, (stage = .value place ∨ stage = .element place) ∧
      front.foldlM Reading.step Reading.start = .ok (Reading.partway (s := s) stage draft) := by
  obtain ⟨x, hx, hat⟩ := (Option.any_eq_true _ _).1 h
  cases hfold : front.foldlM Reading.step (Reading.start (s := s)) with
  | error fault =>
      rw [hfold] at hx
      cases hx
  | ok y =>
      rw [hfold] at hx
      obtain rfl := Option.some.inj hx
      unfold Reading.isAt at hat
      split at hat
      · exact ⟨_, _, .inl (congrArg Stage.value (beq_iff_eq.1 hat)), rfl⟩
      · exact ⟨_, _, .inr (congrArg Stage.element (beq_iff_eq.1 hat)), rfl⟩
      · cases hat

/-- The value of a field, where it is due, is read from either of two tokens, and all else is read alike. -/
theorem Reading.follows_of_read {stage : Stage} {d d' : Draft s.fields} {u : Token} {y : Reading s}
    (hstage : stage = .value place ∨ stage = .element place) (hplace : place < s.fields.length)
    (hread : d.read place t = .ok d') (hstep : Reading.step (.partway stage d) u = .ok y) :
    ∃ y', Reading.step (.partway stage d) t = .ok y' ∧ Follows place t y y' := by
  have hrereads : ∀ e, d.read place u = .ok e → e.Rereads place t d' := fun e he =>
    ⟨Draft.has_of_read he hplace, Draft.read_read he hread⟩
  rcases hstage with rfl | rfl
  · obtain ⟨e, he, rfl⟩ := exists_of_map_eq_ok hstep
    refine ⟨.partway .separator d', ?_, .partway trivial (hrereads e he)⟩
    change (Draft.read _ place t).map _ = _
    rw [hread]
    rfl
  · obtain ⟨e, he, rfl⟩ := exists_of_map_eq_ok hstep
    refine ⟨.partway (.elementSeparator (place + 1)) d', ?_, .partway (Nat.lt_succ_self place) (hrereads e he)⟩
    change (Draft.read _ place t).map _ = _
    rw [hread]
    rfl

/-- A record with one value written otherwise is read with that value, as long as the field can be read from it. -/
theorem Schema.decode_of_rewrites {bytes bytes' : Bytes} {row : Row s.fields} {f : Field} {v : f.kind.Value}
    (hfield : s.fields[place]? = some f) (hread : f.kind.read t = .ok v) (hrewrites : s.Rewrites place t bytes bytes')
    (hdecode : s.decode bytes = .ok row) : ∃ row', s.decode bytes' = .ok row' ∧ RowRereads place t row row' := by
  obtain ⟨front, back, u, hdue, hbytes, hbytes'⟩ := hrewrites
  obtain ⟨stage, d, hstage, hfront⟩ := exists_of_isDue hdue
  rw [decode, ofTokens, hbytes, List.foldlM_append, hfront] at hdecode
  rw [decode, ofTokens, hbytes', List.foldlM_append, hfront]
  obtain ⟨last, hlast, hresult⟩ := exists_of_bind_eq_ok hdecode
  change List.foldlM Reading.step (.partway stage d) (u :: back) = .ok last at hlast
  rw [List.foldlM_cons] at hlast
  obtain ⟨y, hstep, hback⟩ := exists_of_bind_eq_ok hlast
  obtain ⟨d', hd'⟩ := Draft.exists_read hfield hread d
  have hplace : place < s.fields.length := (List.getElem?_eq_some_iff.1 hfield).1
  obtain ⟨y', hstep', hfollows⟩ := Reading.follows_of_read hstage hplace hd' hstep
  obtain ⟨last', hlast', hfollows'⟩ := hfollows.foldlM back hback
  have hfold : List.foldlM Reading.step (.partway stage d) (t :: back) = .ok last' := by
    rw [List.foldlM_cons, hstep']
    exact hlast'
  change ∃ row', (List.foldlM Reading.step (.partway stage d) (t :: back)).bind _ = _ ∧ _
  rw [hfold]
  cases hfollows' with
  | partway hpast h => cases hresult
  | finished h =>
      obtain rfl := Except.ok.inj hresult
      exact ⟨_, rfl, h⟩

/-- The token of a number. -/
def Token.ofInt64 (n : Int64) : Token := .number (.ok (.integer n.toInt))

end Json

/-! ### Events -/

open Text (Bytes encode)
open Json (RowRereads)

namespace Event

variable {payload payload' : Bytes} {e : Event} {place : Nat} {t : Json.Token}

/-- An event of which one value is written otherwise is that of another row. -/
theorem decode_of_rewrites {f : Json.Field} {v : f.kind.Value} (hfield : schema.fields[place]? = some f)
    (hread : f.kind.read t = .ok v) (hrewrites : schema.Rewrites place t payload payload')
    (hdecode : decode payload = .ok e) :
    ∃ row, ofRow row = e ∧ ∀ row', RowRereads place t row row' → decode payload' = .ok (ofRow row') := by
  unfold decode at hdecode
  split at hdecode
  · rename_i row hrow
    obtain ⟨row', hrow', hrereads⟩ := Json.Schema.decode_of_rewrites hfield hread hrewrites hrow
    refine ⟨row, Except.ok.inj hdecode, fun row'' hrereads' => ?_⟩
    rw [decode, hrow', hrereads.eq hrereads']
  · cases hdecode

theorem decode_of_kind {n : Int64} (hrewrites : schema.Rewrites 3 (.ofInt64 n) payload payload')
    (hdecode : decode payload = .ok e) : decode payload' = .ok { e with kind := .ofOrdinal n } := by
  obtain ⟨⟨id, user, value, kind, rest⟩, rfl, hreads⟩ := decode_of_rewrites rfl (Json.read_int64 n) hrewrites hdecode
  exact hreads (id, user, value, n, rest) (by
    simp only [RowRereads, Json.Draft.read, Json.Draft.full, schema, Json.Token.ofInt64, Json.read_int64, Except.map])

theorem decode_of_scene {n : Int64} (hrewrites : schema.Rewrites 4 (.ofInt64 n) payload payload')
    (hdecode : decode payload = .ok e) : decode payload' = .ok { e with scene := .ofOrdinal n } := by
  obtain ⟨⟨id, user, value, kind, scene, rest⟩, rfl, hreads⟩ :=
    decode_of_rewrites rfl (Json.read_int64 n) hrewrites hdecode
  exact hreads (id, user, value, kind, n, rest) (by
    simp only [RowRereads, Json.Draft.read, Json.Draft.full, schema, Json.Token.ofInt64, Json.read_int64, Except.map])

theorem decode_of_extra {text : String} (hrewrites : schema.Rewrites 7 (.text (.ok text)) payload payload')
    (hdecode : decode payload = .ok e) : decode payload' = .ok { e with extra := text } := by
  obtain ⟨⟨id, user, value, kind, scene, operator, occurredAt, extra, ⟨⟩⟩, rfl, hreads⟩ :=
    decode_of_rewrites rfl (Json.read_text text) hrewrites hdecode
  exact hreads (id, user, value, kind, scene, operator, occurredAt, text, ()) rfl

/-- An event whose extra is a text of details has some. -/
theorem exists_details {row : Json.Row Extra.schema.fields}
    (h : Extra.schema.decode (encode e.extra.toList) = .ok row) : ∃ details, e.details = .ok details := by
  unfold details
  split
  · exact ⟨_, rfl⟩
  · rw [h]
    exact ⟨_, rfl⟩

/-- Details of which the duration is written otherwise can be read. -/
theorem details_of_duration {duration text : String} {row : Json.Row Extra.schema.fields}
    (hrewrites : Extra.schema.Rewrites 3 (.text (.ok duration)) (encode e.extra.toList) (encode text.toList))
    (hread : Extra.schema.decode (encode e.extra.toList) = .ok row) :
    ∃ details, ({ e with extra := text } : Event).details = .ok details := by
  obtain ⟨row', hrow', -⟩ := Json.Schema.decode_of_rewrites rfl (Json.read_text duration) hrewrites hread
  exact exists_details hrow'

end Event

end UsageLedger
