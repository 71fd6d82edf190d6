import UsageLedger.Proofs.Json.Grammar
import UsageLedger.Proofs.Json.Substitution

/-! Records that are read from objects. A value that does not count is read past whatever it is, as every phrase of
the grammar leads from the place where it may begin to the place behind it. So what a record is read as depends on
the members of the object alone: each one fills in the field of its name, or does not count. The order of members
does not matter then, nor do further ones of other names, and a field that may be missing has its fallback when its
member is left out. -/

namespace UsageLedger.Json

open Text (Bytes)

variable {s : Schema} {fs : List Field} {place : Nat} {t : Token}

/-! ### Reading past values -/

/-- What may be due where a phrase begins. -/
def Category.BeginsAt : Category → Due → Prop
  | value, due => due = .value ∨ due = .valueOrClose
  | items .list, due => due = .value ∨ due = .valueOrClose
  | items .object, due => due = .key ∨ due = .keyOrClose

/-- The open brackets around a phrase of which those around the value are given. -/
def Category.within (brackets : List Bracket) : Category → List Bracket
  | value => brackets
  | items bracket => bracket :: brackets

/-- The reading behind a phrase that does not count. -/
def Reading.resume (d : Draft s.fields) : Option Nesting → Reading s
  | none => partway .separator d
  | some nesting => partway (.past nesting) d

theorem Reading.step_past (nesting : Nesting) (d : Draft s.fields) (t : Token) :
    Reading.step (.partway (.past nesting) d) t = (nesting.step false t).map (resume d) := rfl

theorem Reading.foldlM_cons {x y : Reading s} (h : x.step t = .ok y) (ts : List Token) :
    (t :: ts).foldlM Reading.step x = ts.foldlM Reading.step y := by
  rw [List.foldlM_cons, h]
  rfl

theorem Reading.foldlM_append {x y : Reading s} {ts : List Token} (h : ts.foldlM Reading.step x = .ok y)
    (us : List Token) : (ts ++ us).foldlM Reading.step x = us.foldlM Reading.step y := by
  rw [List.foldlM_append, h]
  rfl

/-- A token is read past. -/
theorem Reading.foldlM_past {nesting : Nesting} {next : Option Nesting} (h : nesting.step false t = .ok next)
    (d : Draft s.fields) (ts : List Token) :
    (t :: ts).foldlM Reading.step (.partway (.past nesting) d) = ts.foldlM Reading.step (resume d next) :=
  foldlM_cons (by rw [step_past, h]; rfl) ts

theorem Nesting.step_scalar {due : Due} (hdue : Category.value.BeginsAt due) (brackets : List Bracket) {l : Lexeme}
    (h : l.IsScalar) : Nesting.step false ⟨brackets, due⟩ l.token = .ok (after brackets) := by
  have hskip : value false brackets l.token = .ok (after brackets) := by
    cases h with
    | null => rfl
    | boolean b => rfl
    | number n => cases hn : n.spelling.value <;> simp [Lexeme.token, hn, value]
    | text pieces => cases hp : textOf pieces <;> simp [Lexeme.token, hp, value]
  rcases hdue with rfl | rfl
  · exact hskip
  · cases h <;> exact hskip

theorem Nesting.step_key {due : Due} (hdue : (Category.items .object).BeginsAt due) (brackets : List Bracket)
    (key : List Piece) :
    Nesting.step false ⟨brackets, due⟩ (Lexeme.text key).token = .ok (some ⟨brackets, .colon⟩) := by
  have hskip : Nesting.key false brackets (Lexeme.text key).token = .ok (some ⟨brackets, .colon⟩) := by
    cases hp : textOf key <;> simp [Lexeme.token, hp, Nesting.key]
  rcases hdue with rfl | rfl
  · exact hskip
  · exact hskip

theorem Nesting.step_opening {due : Due} (hdue : Category.value.BeginsAt due) (brackets : List Bracket)
    (bracket : Bracket) :
    Nesting.step false ⟨brackets, due⟩ (.opening bracket) = .ok (some (enter bracket brackets)) := by
  rcases hdue with rfl | rfl <;> rfl

theorem Nesting.step_closing (brackets : List Bracket) (bracket : Bracket) {due : Due}
    (hdue : due = .separator ∨ due = (enter bracket brackets).due) :
    Nesting.step false ⟨bracket :: brackets, due⟩ (.closing bracket) = .ok (after brackets) := by
  rcases hdue with rfl | rfl <;> cases bracket <;> rfl

theorem Nesting.begins_enter (bracket : Bracket) (brackets : List Bracket) :
    (Category.items bracket).BeginsAt (enter bracket brackets).due := by
  cases bracket <;> exact .inr rfl

theorem Nesting.step_comma (brackets : List Bracket) (bracket : Bracket) :
    ∃ due, (Category.items bracket).BeginsAt due ∧
      Nesting.step false ⟨bracket :: brackets, .separator⟩ .comma = .ok (some ⟨bracket :: brackets, due⟩) := by
  cases bracket with
  | list => exact ⟨.value, .inl rfl, rfl⟩
  | object => exact ⟨.key, .inl rfl, rfl⟩

/-- A phrase is read past, up to the place behind it. -/
theorem Phrase.foldlM_past {c : Category} {ls : List Lexeme} (h : Phrase c ls) (d : Draft s.fields)
    (brackets : List Bracket) {due : Due} (hdue : c.BeginsAt due) :
    (ls.map Lexeme.token).foldlM Reading.step (Reading.partway (.past ⟨c.within brackets, due⟩) d) =
      .ok (Reading.resume d (Nesting.after (c.within brackets))) := by
  induction h generalizing brackets due with
  | scalar h => exact Reading.foldlM_past (Nesting.step_scalar hdue _ h) d []
  | empty bracket =>
      refine (Reading.foldlM_past (Nesting.step_opening hdue brackets bracket) d _).trans ?_
      exact Reading.foldlM_past (Nesting.step_closing brackets bracket (.inr rfl)) d []
  | @enclosed bracket ls h ih =>
      refine (Reading.foldlM_past (Nesting.step_opening hdue brackets bracket) d _).trans ?_
      rw [List.map_append]
      refine (Reading.foldlM_append (ih brackets (Nesting.begins_enter bracket brackets)) _).trans ?_
      exact Reading.foldlM_past (Nesting.step_closing brackets bracket (.inl rfl)) d []
  | element _ ih => exact ih (.list :: brackets) hdue
  | member key h ih =>
      have hcolon : Nesting.step false ⟨.object :: brackets, .colon⟩ .colon =
          .ok (some ⟨.object :: brackets, .value⟩) := rfl
      refine (Reading.foldlM_past (Nesting.step_key hdue (.object :: brackets) key) d _).trans ?_
      refine (Reading.foldlM_past hcolon d _).trans ?_
      exact ih (.object :: brackets) (.inl rfl)
  | @more bracket ls ls' h h' ih ih' =>
      obtain ⟨due', hdue', hcomma⟩ := Nesting.step_comma brackets bracket
      rw [List.map_append]
      refine (Reading.foldlM_append (ih brackets hdue) _).trans ?_
      refine (Reading.foldlM_past hcomma d _).trans ?_
      exact ih' brackets hdue'

/-! ### Members -/

/-- The token that the value of a member begins with. -/
def Member.head (m : Member) : Token := (m.value.head m.isValue.ne_nil).token

/-- The draft behind a member. The field of its name is read from its value, but once only; a member of another name
does not count. -/
def Schema.absorb (s : Schema) (d : Draft s.fields) (m : Member) : Except Fault (Draft s.fields) :=
  (textOf m.key).bind fun name =>
    match s.place? name with
    | none => .ok d
    | some place => if d.has place then .error (.mismatch (.repeated (s.nameAt place))) else d.read place m.head

/-- The record of an object with some members. -/
def Schema.ofMembers (s : Schema) (ms : List Member) : Except Fault (Row s.fields) :=
  (ms.foldlM s.absorb (Draft.empty s.fields)).bind fun d => d.complete (fun _ f => .missing f.name) 0

/-- Whether a token is a value by itself. -/
def Token.IsScalar : Token → Prop
  | null => True
  | boolean _ => True
  | number _ => True
  | text _ => True
  | _ => False

theorem Kind.isScalar_of_read {kind : Kind} {v : kind.Value} (h : kind.read t = .ok v) : t.IsScalar := by
  cases t with
  | opening bracket => cases bracket <;> cases kind <;> cases h
  | null => trivial
  | boolean _ => trivial
  | number _ => trivial
  | text _ => trivial
  | _ => cases h

/-- No field is read from a list or an object. -/
theorem Draft.isScalar_of_read {d d' : Draft fs} (hplace : place < fs.length) (h : d.read place t = .ok d') :
    t.IsScalar := by
  induction fs generalizing place with
  | nil => cases hplace
  | cons f fs ih =>
      cases place with
      | zero =>
          obtain ⟨v, hv, -⟩ := exists_of_map_eq_ok h
          exact Kind.isScalar_of_read hv
      | succ place =>
          obtain ⟨rest, hrest, -⟩ := exists_of_map_eq_ok h
          exact ih (Nat.lt_of_succ_lt_succ hplace) hrest

theorem Schema.lt_length_of_place? {name : String} (h : s.place? name = some place) : place < s.fields.length :=
  (List.findIdx?_eq_some_iff_getElem.1 h).1

/-- The value of a member that counts. -/
theorem Member.foldlM_value (m : Member) (d : Draft s.fields) (hplace : place < s.fields.length) :
    (m.value.map Lexeme.token).foldlM Reading.step (Reading.partway (.value place) d) =
      (d.read place m.head).map (Reading.partway .separator) := by
  have hopening : ∀ bracket ls, (.opening bracket :: ls : List Token).foldlM Reading.step
      (Reading.partway (.value place) d) = (d.read place (.opening bracket)).map (Reading.partway .separator) := by
    intro bracket ls
    rw [List.foldlM_cons]
    change (Except.map _ (d.read place _)) >>= _ = _
    cases hread : d.read place (.opening bracket) with
    | error fault => rfl
    | ok d' => exact (Draft.isScalar_of_read hplace hread).elim
  obtain ⟨key, ls, hvalue⟩ := m
  cases hvalue with
  | @scalar l h =>
      rw [List.map_singleton, List.foldlM_cons]
      change (d.read place l.token).map _ >>= _ = (d.read place l.token).map _
      cases d.read place l.token <;> rfl
  | empty bracket => exact hopening bracket _
  | enclosed h => exact hopening _ _

/-- A member is read from where a key is due, up to the place behind its value. -/
theorem Member.foldlM_lexemes (m : Member) (d : Draft s.fields) {stage : Stage}
    (hstage : stage = .key ∨ stage = .keyOrClose) :
    (m.lexemes.map Lexeme.token).foldlM Reading.step (Reading.partway stage d) =
      (s.absorb d m).map (Reading.partway .separator) := by
  have hkey : Reading.step (.partway stage d) (Lexeme.text m.key).token = Reading.key d (.text (textOf m.key)) := by
    rcases hstage with rfl | rfl <;> rfl
  rw [Member.lexemes, List.map_cons, List.foldlM_cons, hkey, Schema.absorb]
  cases textOf m.key with
  | error fault => rfl
  | ok name =>
      simp only [Reading.key, Except.bind]
      cases hplace : s.place? name with
      | none =>
          exact m.isValue.foldlM_past d [] (.inl rfl)
      | some place =>
          dsimp only
          cases hnew : d.has place with
          | true => rfl
          | false => exact m.foldlM_value d (Schema.lt_length_of_place? hplace)

theorem foldlM_memberLexemes (m : Member) (ms : List Member) (d : Draft s.fields) {stage : Stage}
    (hstage : stage = .key ∨ stage = .keyOrClose) :
    ((memberLexemes (m :: ms)).map Lexeme.token).foldlM Reading.step (Reading.partway stage d) =
      ((m :: ms).foldlM s.absorb d).map (Reading.partway .separator) := by
  induction ms generalizing m d stage with
  | nil =>
      rw [memberLexemes, m.foldlM_lexemes d hstage, List.foldlM_cons]
      cases s.absorb d m <;> rfl
  | cons m' ms ih =>
      rw [memberLexemes, List.map_append, List.foldlM_append, m.foldlM_lexemes d hstage, List.foldlM_cons]
      cases s.absorb d m with
      | error fault => rfl
      | ok e =>
          have hcomma : Reading.step (.partway .separator e) .comma = .ok (.partway .key e) := rfl
          exact (Reading.foldlM_cons hcomma _).trans (ih m' e (.inl rfl))

theorem Reading.foldlM_closing (d : Draft s.fields) {stage : Stage}
    (hstage : stage = .separator ∨ stage = .keyOrClose) :
    ([.closing .object].foldlM Reading.step (Reading.partway stage d)).bind Reading.result =
      d.complete (fun _ f => .missing f.name) 0 := by
  have hend : Reading.step (Reading.partway stage d) (.closing .object) = Reading.endObject d := by
    rcases hstage with rfl | rfl <;> rfl
  rw [List.foldlM_cons, hend, Reading.endObject]
  cases d.complete (fun _ f => .missing f.name) 0 <;> rfl

/-- What a record is read as from the text of an object depends on the members only. -/
theorem Schema.decode_object {ms : List Member} {bytes : Bytes} (h : Lays (objectLexemes ms) bytes) :
    s.decode bytes = s.ofMembers ms := by
  rw [decode, ofTokens, (phrase_objectLexemes ms).tokens_eq h, objectLexemes, List.map_cons]
  rw [Reading.foldlM_cons (y := .partway .keyOrClose (Draft.empty s.fields)) rfl, List.map_append]
  cases ms with
  | nil => exact Reading.foldlM_closing _ (.inr rfl)
  | cons m ms =>
      rw [List.foldlM_append, foldlM_memberLexemes m ms _ (.inr rfl), ofMembers]
      cases (m :: ms).foldlM s.absorb (Draft.empty s.fields) with
      | error fault => rfl
      | ok d => exact Reading.foldlM_closing d (.inl rfl)

/-! ### Order -/

theorem Schema.absorb_eq_ok {d e : Draft s.fields} {m : Member} : s.absorb d m = .ok e ↔
    ∃ name, textOf m.key = .ok name ∧ (s.place? name = none ∧ d = e ∨
      ∃ place, s.place? name = some place ∧ d.has place = false ∧ d.read place m.head = .ok e) := by
  unfold absorb
  cases textOf m.key with
  | error fault => simp [Except.bind]
  | ok name =>
      cases hplace : s.place? name with
      | none => simp [Except.bind, hplace]
      | some place => cases hnew : d.has place <;> simp [Except.bind, hplace, hnew]

namespace Draft

/-- Whether a field can be read from a token does not depend on the draft. -/
theorem exists_read_of_read {d d' : Draft fs} (e : Draft fs) (h : d.read place t = .ok d') :
    ∃ e', e.read place t = .ok e' := by
  induction fs generalizing place with
  | nil => exact ⟨(), rfl⟩
  | cons f fs ih =>
      cases place with
      | zero =>
          obtain ⟨v, hv, -⟩ := exists_of_map_eq_ok h
          exact ⟨(some v, e.2), by rw [read, hv]; rfl⟩
      | succ place =>
          obtain ⟨rest, hrest, -⟩ := exists_of_map_eq_ok h
          obtain ⟨rest', hrest'⟩ := ih e.2 hrest
          exact ⟨(e.1, rest'), by rw [read, hrest']; rfl⟩

theorem has_empty (fs : List Field) (place : Nat) : (Draft.empty fs).has place = false := by
  induction fs generalizing place with
  | nil => rfl
  | cons f fs ih =>
      cases place with
      | zero => rfl
      | succ place => exact ih place

end Draft

/-- Two members that are absorbed one after the other may be absorbed in either order. -/
theorem Schema.absorb_comm {d e f : Draft s.fields} {m m' : Member} (h : s.absorb d m = .ok e)
    (h' : s.absorb e m' = .ok f) : ∃ e', s.absorb d m' = .ok e' ∧ s.absorb e' m = .ok f := by
  obtain ⟨name, hname, ⟨hnone, rfl⟩ | ⟨i, hi, hnew, hread⟩⟩ := absorb_eq_ok.1 h
  · exact ⟨f, h', absorb_eq_ok.2 ⟨name, hname, .inl ⟨hnone, rfl⟩⟩⟩
  · obtain ⟨name', hname', ⟨hnone', rfl⟩ | ⟨j, hj, hnew', hread'⟩⟩ := absorb_eq_ok.1 h'
    · exact ⟨d, absorb_eq_ok.2 ⟨name', hname', .inl ⟨hnone', rfl⟩⟩, h⟩
    · have hne : i ≠ j := by
        rintro rfl
        rw [Draft.has_of_read hread (lt_length_of_place? hi)] at hnew'
        cases hnew'
      obtain ⟨e', he'⟩ := Draft.exists_read_of_read d hread'
      obtain ⟨f', hleft, hright⟩ := Draft.read_comm hne hread he'
      obtain rfl : f' = f := Except.ok.inj (hright.symm.trans hread')
      have hnewj : d.has j = false := (Draft.has_of_read_of_ne hread hne).symm.trans hnew'
      have hnewi : e'.has i = false := (Draft.has_of_read_of_ne he' hne.symm).trans hnew
      exact ⟨e', absorb_eq_ok.2 ⟨name', hname', .inr ⟨j, hj, hnewj, he'⟩⟩,
        absorb_eq_ok.2 ⟨name, hname, .inr ⟨i, hi, hnewi, hleft⟩⟩⟩

/-- Members may be absorbed in any order. -/
theorem Schema.foldlM_absorb_perm {ms ms' : List Member} (h : ms.Perm ms') {d e : Draft s.fields}
    (hfold : ms.foldlM s.absorb d = .ok e) : ms'.foldlM s.absorb d = .ok e := by
  induction h generalizing d with
  | nil => exact hfold
  | cons m _ ih =>
      rw [List.foldlM_cons] at hfold ⊢
      obtain ⟨d', hd', hrest⟩ := exists_of_bind_eq_ok hfold
      rw [hd']
      exact ih hrest
  | swap m m' ms =>
      rw [List.foldlM_cons] at hfold ⊢
      obtain ⟨d', hd', hrest⟩ := exists_of_bind_eq_ok hfold
      rw [List.foldlM_cons] at hrest
      obtain ⟨d'', hd'', hrest⟩ := exists_of_bind_eq_ok hrest
      obtain ⟨e', hleft, hright⟩ := absorb_comm hd' hd''
      rw [hleft]
      change List.foldlM _ _ _ = _
      rw [List.foldlM_cons, hright]
      exact hrest
  | trans _ _ ih ih' => exact ih' (ih hfold)

/-! ### Further members -/

/-- Whether a member has a text for its key that is not the name of a field. -/
def Member.IsForeign (s : Schema) (m : Member) : Prop :=
  ∃ name, textOf m.key = .ok name ∧ name ∉ s.fields.map (·.name)

theorem Schema.place?_eq_none_iff {name : String} : s.place? name = none ↔ name ∉ s.fields.map (·.name) := by
  simp [place?, List.findIdx?_eq_none_iff]

theorem Schema.foldlM_absorb_foreign {ms : List Member} (h : ∀ m ∈ ms, m.IsForeign s) (d : Draft s.fields) :
    ms.foldlM s.absorb d = .ok d := by
  induction ms with
  | nil => rfl
  | cons m ms ih =>
      obtain ⟨name, hname, hforeign⟩ := h m List.mem_cons_self
      have habsorb : s.absorb d m = .ok d :=
        absorb_eq_ok.2 ⟨name, hname, .inl ⟨place?_eq_none_iff.2 hforeign, rfl⟩⟩
      rw [List.foldlM_cons, habsorb]
      exact ih fun m' hm' => h m' (List.mem_cons_of_mem m hm')

/-- No record is read from an object that has a key which is no text. -/
theorem Schema.exists_textOf {ms : List Member} {d e : Draft s.fields} (h : ms.foldlM s.absorb d = .ok e) :
    ∀ m ∈ ms, ∃ name, textOf m.key = .ok name := by
  induction ms generalizing d with
  | nil => simp
  | cons m ms ih =>
      rw [List.foldlM_cons] at h
      obtain ⟨d', habsorb, hrest⟩ := exists_of_bind_eq_ok h
      obtain ⟨name, hname, -⟩ := absorb_eq_ok.1 habsorb
      exact List.forall_mem_cons.2 ⟨⟨name, hname⟩, ih hrest⟩

/-- A record is read alike from members in any order and with further ones of other names. -/
theorem Schema.ofMembers_perm {ms ms' further : List Member} {row : Row s.fields}
    (hfurther : ∀ m ∈ further, m.IsForeign s) (hperm : ms'.Perm (ms ++ further)) (h : s.ofMembers ms = .ok row) :
    s.ofMembers ms' = .ok row := by
  obtain ⟨d, hfold, hcomplete⟩ := exists_of_bind_eq_ok h
  have hmore : (ms ++ further).foldlM s.absorb (Draft.empty s.fields) = .ok d := by
    rw [List.foldlM_append, hfold]
    exact foldlM_absorb_foreign hfurther d
  rw [ofMembers, foldlM_absorb_perm hperm.symm hmore]
  exact hcomplete

/-! ### Members left out -/

/-- Whether the key of a member is one of some texts. -/
def Member.isAmong (names : List String) (m : Member) : Bool := (textOf m.key).toOption.any names.contains

theorem Member.isAmong_nil (m : Member) : m.isAmong [] = false := by
  cases hkey : textOf m.key <;> simp [isAmong, hkey, Except.toOption]

theorem Member.isAmong_cons (m : Member) (name : String) (names : List String) :
    m.isAmong (name :: names) = (m.isAmong [name] || m.isAmong names) := by
  cases hkey : textOf m.key <;> simp [isAmong, hkey, Except.toOption]

/-- Whether two drafts are the same one once a field has been read into both. -/
def Draft.Shares (place : Nat) (t : Token) (d d' : Draft fs) : Prop :=
  ∃ e, d.read place t = .ok e ∧ d'.read place t = .ok e

/-- A member of another name is absorbed by drafts that differ in one field only. -/
theorem Draft.Shares.read {d d' e : Draft fs} {i : Nat} {u : Token} (h : Shares place t d d') (hne : i ≠ place)
    (hread : d.read i u = .ok e) : ∃ e', d'.read i u = .ok e' ∧ Shares place t e e' := by
  obtain ⟨g, hg, hg'⟩ := h
  obtain ⟨e', he'⟩ := exists_read_of_read d' hread
  obtain ⟨last, hleft, hright⟩ := read_comm hne hread hg
  obtain ⟨last', hleft', hright'⟩ := read_comm hne he' hg'
  obtain rfl : last = last' := Except.ok.inj (hleft.symm.trans hleft')
  exact ⟨e', he', last, hright, hright'⟩

theorem Draft.Shares.has {d d' : Draft fs} {i : Nat} (h : Shares place t d d') (hne : i ≠ place) :
    d'.has i = d.has i := by
  obtain ⟨g, hg, hg'⟩ := h
  exact (has_of_read_of_ne hg' hne.symm).symm.trans (has_of_read_of_ne hg hne.symm)

theorem Schema.name_of_place? {f : Field} {name : String} (hfield : s.fields[place]? = some f)
    (hplace : s.place? name = some place) : f.name = name := by
  obtain ⟨hlt, hname, -⟩ := List.findIdx?_eq_some_iff_getElem.1 hplace
  obtain rfl := Option.some.inj ((List.getElem?_eq_getElem hlt).symm.trans hfield)
  exact beq_iff_eq.1 hname

/-- Without the members of one name the others are absorbed to a draft that lacks this field at most. -/
theorem Schema.foldlM_absorb_filter {f : Field} (hfield : s.fields[place]? = some f)
    (hplace : s.place? f.name = some place) {ms : List Member} {d d' e : Draft s.fields}
    (hshares : d.Shares place t d') (hnew : d'.has place = false) (hfold : ms.foldlM s.absorb d = .ok e) :
    ∃ e', (ms.filter fun m => !m.isAmong [f.name]).foldlM s.absorb d' = .ok e' ∧ e.Shares place t e' ∧
      e'.has place = false := by
  induction ms generalizing d d' with
  | nil =>
      obtain rfl := Except.ok.inj hfold
      exact ⟨d', rfl, hshares, hnew⟩
  | cons m ms ih =>
      rw [List.foldlM_cons] at hfold
      obtain ⟨g, hg, hrest⟩ := exists_of_bind_eq_ok hfold
      obtain ⟨name, hname, hcase⟩ := absorb_eq_ok.1 hg
      by_cases hsame : name = f.name
      · -- the member that is left out
        subst hsame
        have hout : m.isAmong [f.name] = true := by simp [Member.isAmong, hname, Except.toOption]
        rw [List.filter_cons_of_neg (by simp [hout])]
        obtain ⟨hnone, -⟩ | ⟨i, hi, -, hread⟩ := hcase
        · rw [hplace] at hnone
          cases hnone
        · obtain rfl : place = i := Option.some.inj (hplace.symm.trans hi)
          obtain ⟨last, hlast, hlast'⟩ := hshares
          exact ih ⟨last, Draft.read_read hread hlast, hlast'⟩ hnew hrest
      · have hkept : m.isAmong [f.name] = false := by simp [Member.isAmong, hname, Except.toOption, hsame]
        rw [List.filter_cons_of_pos (by simp [hkept]), List.foldlM_cons]
        obtain ⟨hnone, rfl⟩ | ⟨i, hi, hnewi, hread⟩ := hcase
        · rw [absorb_eq_ok.2 ⟨name, hname, .inl ⟨hnone, rfl⟩⟩]
          exact ih hshares hnew hrest
        · have hne : i ≠ place := by
            rintro rfl
            exact hsame (name_of_place? hfield hi).symm
          obtain ⟨g', hg', hshares'⟩ := hshares.read hne hread
          rw [absorb_eq_ok.2 ⟨name, hname, .inr ⟨i, hi, (hshares.has hne).trans hnewi, hg'⟩⟩]
          exact ih hshares' ((Draft.has_of_read_of_ne hg' hne).trans hnew) hrest

/-- A field that is read as its fallback is read as if it were missing. -/
theorem Draft.complete_fallback {missing : Nat → Field → Mismatch} {f : Field} {v : f.kind.Value} {d d' : Draft fs}
    {first : Nat} (hfield : fs[place]? = some f) (hfallback : f.fallback = some v) (hvalue : f.kind.read t = .ok v)
    (hnew : d.has place = false) (hread : d.read place t = .ok d') :
    d'.complete missing first = d.complete missing first := by
  induction fs generalizing place first with
  | nil => cases hfield
  | cons g fs ih =>
      cases place with
      | zero =>
          obtain rfl := Option.some.inj hfield
          obtain ⟨v', hv', rfl⟩ := exists_of_map_eq_ok hread
          obtain rfl : v' = v := Except.ok.inj (hv'.symm.trans hvalue)
          obtain ⟨w, rest⟩ := d
          obtain rfl : w = none := by simpa [has] using hnew
          simp only [complete, hfallback, Option.some_or, Option.none_or]
      | succ place =>
          obtain ⟨rest', hrest', rfl⟩ := exists_of_map_eq_ok hread
          simp only [complete, ih hfield hnew hrest']

/-- Without the members of one name a record is read with the fallback of that field. -/
theorem Schema.ofMembers_filter {f : Field} {v : f.kind.Value} {ms : List Member} {row row' : Row s.fields}
    (hfield : s.fields[place]? = some f) (hplace : s.place? f.name = some place) (hfallback : f.fallback = some v)
    (hvalue : f.kind.read t = .ok v) (hrereads : RowRereads place t row row') (h : s.ofMembers ms = .ok row) :
    s.ofMembers (ms.filter fun m => !m.isAmong [f.name]) = .ok row' := by
  obtain ⟨d, hfold, hcomplete⟩ := exists_of_bind_eq_ok h
  obtain ⟨start, hstart⟩ := Draft.exists_read hfield hvalue (Draft.empty s.fields)
  obtain ⟨d', hfold', ⟨last, hlast, hlast'⟩, hnew⟩ := foldlM_absorb_filter hfield hplace
    ⟨start, hstart, hstart⟩ (Draft.has_empty s.fields place) hfold
  obtain ⟨row'', hrow'', hrereads'⟩ := Draft.complete_read (lt_length_of_place? hplace) hlast hcomplete
  rw [ofMembers, hfold', hrereads.eq hrereads', ← hrow'']
  exact (Draft.complete_fallback hfield hfallback hvalue hnew hlast').symm

end UsageLedger.Json
