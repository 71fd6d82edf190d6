import UsageLedger.Proofs.Json.Members

/-! Every object from which a record is read is of the grammar. What is cut off a text is a lexeme unless it is broken,
and no broken token is read, so the text is made of lexemes. These are divided into members as they are read: a field
is read from a single lexeme, and what is read past up to its end is a value, by induction on how much of the text is
left. -/

namespace UsageLedger.Json

open Text (Bytes encode encodeChar)

variable {s : Schema}

/-! ### Lexemes that are cut off -/

theorem exists_char_of_isDigit {b : UInt8} (h : isDigit b = true) :
    ∃ c : Char, c.isDigit = true ∧ encodeChar c = [b] := by
  have hrange : 48 ≤ b.toNat ∧ b.toNat ≤ 57 := by
    simpa [isDigit, UInt8.le_iff_toNat_le] using h
  have hall : ∀ n : Fin 10, (Char.ofNat (48 + n)).isDigit = true ∧
      encodeChar (Char.ofNat (48 + n)) = [UInt8.ofNat (48 + n)] := by
    decide
  have hb : UInt8.ofNat (48 + (⟨b.toNat - 48, by omega⟩ : Fin 10)) = b := by
    rw [← UInt8.toNat_inj, Text.toNat_ofNat (by dsimp only; omega)]
    dsimp only
    omega
  exact ⟨_, hb ▸ hall _⟩

/-- The digits at the front of a text. -/
theorem exists_digits (r : Bytes) : ∃ cs rest, (∀ c ∈ cs, c.isDigit = true) ∧ Stops rest ∧ r = encode cs ++ rest := by
  induction r with
  | nil => exact ⟨[], [], by simp, by simp [Stops], rfl⟩
  | cons b r ih =>
      cases hdigit : isDigit b with
      | false => exact ⟨[], b :: r, by simp, by simp [Stops, hdigit], rfl⟩
      | true =>
          obtain ⟨cs, rest, hdigits, hstops, rfl⟩ := ih
          obtain ⟨c, hc, hb⟩ := exists_char_of_isDigit hdigit
          refine ⟨c :: cs, rest, List.forall_mem_cons.2 ⟨hc, hdigits⟩, hstops, ?_⟩
          rw [Text.encode_cons, hb]
          rfl

theorem exists_sign (r : Bytes) :
    ∃ sign rest, readSign r = (sign == some true, rest) ∧ r = encode (signChars sign) ++ rest := by
  unfold readSign
  split
  · exact ⟨some false, _, rfl, rfl⟩
  · exact ⟨some true, _, rfl, rfl⟩
  · exact ⟨none, _, rfl, rfl⟩

theorem exists_exponent {t t' : Spelling} {r q : Bytes} (h : readExponent t r = .ok (t', q)) (capital : Bool) :
    ∃ x : Exponent, x.capital = capital ∧ r = encode (signChars x.sign ++ x.digits) ++ q ∧
      t' = { t with exponent := x.value, plain := false } := by
  obtain ⟨sign, r, hread, rfl⟩ := exists_sign r
  obtain ⟨cs, rest, hdigits, hstops, rfl⟩ := exists_digits r
  rw [readExponent, hread] at h
  simp only [digitRun_of_digits hdigits hstops] at h
  split_ifs at h with hnone hsign
  all_goals
    obtain ⟨rfl, rfl⟩ := Prod.mk.inj (Except.ok.inj h)
    refine ⟨⟨capital, sign, cs, by simpa using hnone, hdigits⟩, rfl, by simp, ?_⟩
    simp_all [Exponent.value]

theorem exists_exponent_of_readTail {t t' : Spelling} {r q : Bytes} (h : readTail t r = .ok (t', q)) :
    ∃ exponent, r = encode (exponentChars exponent) ++ q ∧ t' = { t with
      exponent := (exponent.map Exponent.value).getD t.exponent, plain := t.plain && exponent.isNone } := by
  unfold readTail at h
  split at h
  · obtain ⟨x, hcapital, rfl, rfl⟩ := exists_exponent h false
    exact ⟨some x, by simp [exponentChars, Exponent.chars, hcapital, encodeChar], by simp⟩
  · obtain ⟨x, hcapital, rfl, rfl⟩ := exists_exponent h true
    exact ⟨some x, by simp [exponentChars, Exponent.chars, hcapital, encodeChar], by simp⟩
  · obtain ⟨rfl, rfl⟩ := Prod.mk.inj (Except.ok.inj h)
    exact ⟨none, by simp [exponentChars], by simp⟩

theorem isWhole_of_readSpelling {negative : Bool} {cs : List Char} {r q : Bytes} {t : Spelling}
    (hdigits : ∀ c ∈ cs, c.isDigit = true) (hstops : Stops r)
    (h : readSpelling negative (encode cs ++ r) = .ok (t, q)) : Text.IsWhole cs := by
  rw [readSpelling] at h
  simp only [digitRun_of_digits hdigits hstops] at h
  split_ifs at h with hnone hleading
  refine ⟨by simpa using hnone, hdigits, fun hzero => ?_⟩
  obtain ⟨cs, rfl⟩ := List.head?_eq_some_iff.1 hzero
  cases cs with
  | nil => rfl
  | cons c cs => exact (hleading ⟨rfl, by simp⟩).elim

theorem fraction_ne_nil_of_readSpelling {negative : Bool} {cs ds : List Char} {r q : Bytes} {t : Spelling}
    (hdigits : ∀ c ∈ cs, c.isDigit = true) (hfraction : ∀ c ∈ ds, c.isDigit = true) (hstops : Stops r)
    (h : readSpelling negative (encode cs ++ 46 :: (encode ds ++ r)) = .ok (t, q)) : ds ≠ [] := by
  have hpoint : Stops (46 :: (encode ds ++ r)) := by simp [Stops, isDigit]
  rw [readSpelling] at h
  simp only [digitRun_of_digits hdigits hpoint, extend_digits hfraction hstops] at h
  split_ifs at h with hnone hleading hmore
  simpa using hmore

/-- What is read as a number is one of the grammar. -/
theorem exists_numeral {negative : Bool} {r q : Bytes} {t : Spelling} (h : readSpelling negative r = .ok (t, q)) :
    ∃ n : Numeral, n.negative = negative ∧ r = encode n.magnitude ++ q ∧ n.spelling = t := by
  obtain ⟨cs, rest, hdigits, hstops, rfl⟩ := exists_digits r
  have hwhole := isWhole_of_readSpelling hdigits hstops h
  by_cases hpoint : rest.head? = some 46
  · obtain ⟨rest, rfl⟩ := List.head?_eq_some_iff.1 hpoint
    obtain ⟨ds, rest, hfraction, hstops', rfl⟩ := exists_digits rest
    have hsome := fraction_ne_nil_of_readSpelling hdigits hfraction hstops' h
    have hbytes : encode cs ++ 46 :: (encode ds ++ rest) = encode (cs ++ '.' :: ds) ++ rest := by simp [encodeChar]
    obtain ⟨d, ds, rfl⟩ := List.exists_cons_of_ne_nil hsome
    rw [hbytes, readSpelling_point negative hwhole hsome hfraction hstops'] at h
    obtain ⟨exponent, rfl, rfl⟩ := exists_exponent_of_readTail h
    refine ⟨⟨negative, cs, d :: ds, exponent, hwhole, hfraction⟩, rfl, ?_, ?_⟩
    · simp [Numeral.magnitude, fractionChars, encodeChar]
    · simp [Numeral.spelling]
  · rw [readSpelling_whole negative hwhole hstops hpoint] at h
    obtain ⟨exponent, rfl, rfl⟩ := exists_exponent_of_readTail h
    refine ⟨⟨negative, cs, [], exponent, hwhole, by simp⟩, rfl, ?_, ?_⟩
    · simp [Numeral.magnitude, fractionChars]
    · simp [Numeral.spelling]

/-- What is read past as a string is one of the grammar. -/
theorem exists_pieces {r q : Bytes} (h : skipText r = .ok q) :
    ∃ pieces : List Piece, r = pieces.flatMap Piece.bytes ++ 34 :: q := by
  fun_induction skipText r with
  | case1 => cases h
  | case2 r =>
      obtain rfl := Except.ok.inj h
      exact ⟨[], rfl⟩
  | case3 a b c d r hquad ih =>
      obtain ⟨pieces, rfl⟩ := ih h
      exact ⟨.quad a b c d hquad :: pieces, rfl⟩
  | case4 => cases h
  | case5 => cases h
  | case6 e r _ _ hshort ih =>
      obtain ⟨pieces, rfl⟩ := ih h
      exact ⟨.short e hshort :: pieces, rfl⟩
  | case7 => cases h
  | case8 => cases h
  | case9 => cases h
  | case10 b r hquote _ _ hescape hlast hcontrol ih =>
      have hplain : IsPlain b := by
        refine ⟨hcontrol, hquote, fun hb => ?_⟩
        cases r with
        | nil => exact hlast hb rfl
        | cons e r => exact hescape e r hb rfl
      obtain ⟨pieces, rfl⟩ := ih h
      exact ⟨.plain b hplain :: pieces, rfl⟩

theorem eq_append_of_readWord {word r q : Bytes} (h : readWord word r = .ok q) : r = word ++ q := by
  fun_induction readWord word r with
  | case1 s => rw [Except.ok.inj h]; rfl
  | case2 => cases h
  | case3 w word s ih => rw [ih h]; rfl
  | case4 => cases h

/-- Whether a token is that of a part of the text that cannot be cut. -/
def Token.IsBroken : Token → Prop
  | broken _ _ _ => True
  | _ => False

theorem exists_lexeme_of_cutWord (l : Lexeme) {b : UInt8} {word r : Bytes} (hbytes : l.bytes = b :: word)
    (h : ¬(cutWord word l.token r).token.IsBroken) :
    (cutWord word l.token r).token = l.token ∧ b :: r = l.bytes ++ (cutWord word l.token r).rest := by
  unfold cutWord at h ⊢
  split
  · rename_i q hread
    rw [hbytes, eq_append_of_readWord hread]
    exact ⟨rfl, rfl⟩
  · rename_i fault hread
    rw [hread] at h
    exact (h trivial).elim

theorem exists_lexeme_of_cutNumber {negative : Bool} {r : Bytes} (h : ¬(cutNumber negative r).token.IsBroken) :
    ∃ n : Numeral, n.negative = negative ∧ (cutNumber negative r).token = (Lexeme.number n).token ∧
      r = encode n.magnitude ++ (cutNumber negative r).rest := by
  unfold cutNumber at h ⊢
  split
  · rename_i t q hread
    obtain ⟨n, hnegative, hbytes, rfl⟩ := exists_numeral hread
    exact ⟨n, hnegative, rfl, hbytes⟩
  · rename_i fault hread
    rw [hread] at h
    exact (h trivial).elim

theorem exists_lexeme_of_cutText {r : Bytes} (h : ¬(cutText r).token.IsBroken) :
    ∃ pieces, (cutText r).token = (Lexeme.text pieces).token ∧
      34 :: r = (Lexeme.text pieces).bytes ++ (cutText r).rest := by
  cases hskip : skipText r with
  | ok q =>
      obtain ⟨pieces, rfl⟩ := exists_pieces hskip
      rw [cutText_pieces]
      exact ⟨pieces, rfl, by simp [Lexeme.bytes]⟩
  | error fault =>
      rw [cutText, hskip] at h
      dsimp only at h
      split at h
      all_goals exact (h trivial).elim

/-- What is cut off is a lexeme of the grammar. -/
theorem exists_lexeme (b : UInt8) (r : Bytes) (h : ¬(cut b r).token.IsBroken) :
    ∃ l : Lexeme, (cut b r).token = l.token ∧ b :: r = l.bytes ++ (cut b r).rest := by
  generalize hcut : cut b r = c at h ⊢
  unfold cut at hcut
  split at hcut
  all_goals subst hcut
  · exact ⟨.opening .list, rfl, rfl⟩
  · exact ⟨.closing .list, rfl, rfl⟩
  · exact ⟨.opening .object, rfl, rfl⟩
  · exact ⟨.closing .object, rfl, rfl⟩
  · exact ⟨.comma, rfl, rfl⟩
  · exact ⟨.colon, rfl, rfl⟩
  · obtain ⟨pieces, hpieces⟩ := exists_lexeme_of_cutText h
    exact ⟨.text pieces, hpieces⟩
  · exact ⟨.null, exists_lexeme_of_cutWord .null rfl h⟩
  · exact ⟨.boolean true, exists_lexeme_of_cutWord (.boolean true) rfl h⟩
  · exact ⟨.boolean false, exists_lexeme_of_cutWord (.boolean false) rfl h⟩
  · obtain ⟨n, hnegative, htoken, hbytes⟩ := exists_lexeme_of_cutNumber h
    refine ⟨.number n, htoken, ?_⟩
    rw [Lexeme.bytes, hnegative, if_pos rfl, Text.encode_cons, List.append_assoc, ← hbytes]
    rfl
  · split at h
    · rename_i hdigit
      obtain ⟨n, hnegative, htoken, hbytes⟩ := exists_lexeme_of_cutNumber h
      refine ⟨.number n, ?_⟩
      rw [if_pos hdigit, Lexeme.bytes, hnegative, if_neg Bool.false_ne_true, ← hbytes]
      exact ⟨htoken, rfl⟩
    · exact (h trivial).elim

/-- A text that can be cut to its end is made of lexemes. -/
theorem exists_lays (r : Bytes) (h : ∀ t ∈ tokens r, ¬t.IsBroken) :
    ∃ ls, Lays ls r ∧ tokens r = ls.map Lexeme.token := by
  fun_induction tokens r with
  | case1 => exact ⟨[], .nil, rfl⟩
  | case2 b r hspace ih =>
      obtain ⟨ls, hlays, htokens⟩ := ih h
      exact ⟨ls, .space hspace hlays, htokens⟩
  | case3 b r hspace ih =>
      obtain ⟨hfirst, hrest⟩ := List.forall_mem_cons.1 h
      obtain ⟨l, htoken, hbytes⟩ := exists_lexeme b r hfirst
      obtain ⟨ls, hlays, htokens⟩ := ih hrest
      refine ⟨l :: ls, ?_, ?_⟩
      · rw [hbytes]
        exact .lexeme l hlays
      · rw [htoken, htokens, List.map_cons]

/-! ### Tokens that are read -/

/-- Whether a stage is one of reading an object, with a place that is that of a field. -/
def Stage.IsInObject (s : Schema) : Stage → Prop
  | keyOrClose => True
  | key => True
  | colon none => True
  | colon (some place) => place < s.fields.length
  | value place => place < s.fields.length
  | past _ => True
  | separator => True
  | _ => False

/-- Whether an object is being read, or has been read to its end. -/
inductive Reading.IsInObject : Reading s → Prop
  | partway {stage : Stage} {d : Draft s.fields} (h : stage.IsInObject s) : IsInObject (.partway stage d)
  | finished (row : Row s.fields) : IsInObject (.finished row)

theorem Nesting.not_isBroken_of_step {n : Nesting} {kept : Bool} {t : Token} {next : Option Nesting}
    (h : n.step kept t = .ok next) : ¬t.IsBroken := by
  obtain ⟨brackets, due⟩ := n
  cases t with
  | broken string sound skipped => cases due <;> cases string <;> cases h
  | _ => exact id

namespace Reading

variable {x y : Reading s} {d : Draft s.fields} {t : Token}

theorem isInObject_of_key (h : key d t = .ok y) : y.IsInObject ∧ ¬t.IsBroken := by
  unfold key at h
  split at h
  · refine ⟨?_, id⟩
    split at h
    · obtain rfl := Except.ok.inj h
      exact .partway trivial
    · rename_i place hplace
      split at h
      · cases h
      · obtain rfl := Except.ok.inj h
        exact .partway (Schema.lt_length_of_place? hplace)
  all_goals cases h

theorem isInObject_of_endObject (h : endObject d = .ok y) : y.IsInObject := by
  obtain ⟨row, -, rfl⟩ := exists_of_map_eq_ok h
  exact .finished row

theorem isInObject_resume (d : Draft s.fields) (next : Option Nesting) : (resume d next).IsInObject := by
  cases next <;> exact .partway trivial

/-- An object goes on being read, and no token that is read is broken. -/
theorem IsInObject.step (hx : x.IsInObject) (h : x.step t = .ok y) : y.IsInObject ∧ ¬t.IsBroken := by
  cases hx with
  | finished row => cases h
  | @partway stage d hstage =>
      cases stage with
      | keyOrClose =>
          by_cases hclosing : t = .closing .object
          · subst hclosing
            exact ⟨isInObject_of_endObject h, id⟩
          · rw [step_keyOrClose hclosing] at h
            exact isInObject_of_key h
      | key => exact isInObject_of_key h
      | colon place =>
          cases t with
          | colon =>
              cases place with
              | none =>
                  obtain rfl := Except.ok.inj h
                  exact ⟨.partway trivial, id⟩
              | some place =>
                  obtain rfl := Except.ok.inj h
                  exact ⟨.partway hstage, id⟩
          | _ => cases place <;> cases h
      | value place =>
          obtain ⟨d', hread, rfl⟩ := exists_of_map_eq_ok h
          refine ⟨.partway trivial, fun hbroken => ?_⟩
          have hscalar := Draft.isScalar_of_read hstage hread
          cases t <;> first | exact hbroken | exact hscalar
      | past nesting =>
          obtain ⟨next, hnext, rfl⟩ := exists_of_map_eq_ok h
          exact ⟨isInObject_resume d next, Nesting.not_isBroken_of_step hnext⟩
      | separator =>
          cases t with
          | comma =>
              obtain rfl := Except.ok.inj h
              exact ⟨.partway trivial, id⟩
          | closing bracket =>
              cases bracket with
              | object => exact ⟨isInObject_of_endObject h, id⟩
              | list => cases h
          | _ => cases h
      | _ => exact hstage.elim

theorem IsInObject.not_isBroken (hx : x.IsInObject) {ts : List Token} (h : ts.foldlM Reading.step x = .ok y) :
    ∀ t ∈ ts, ¬t.IsBroken := by
  induction ts generalizing x with
  | nil => simp
  | cons t ts ih =>
      rw [List.foldlM_cons] at h
      obtain ⟨x', hstep, hrest⟩ := exists_of_bind_eq_ok h
      obtain ⟨hx', hbroken⟩ := hx.step hstep
      exact List.forall_mem_cons.2 ⟨hbroken, ih hx' hrest⟩

/-- Whether a record is read to its end from some lexemes. -/
def Completes (x : Reading s) (ls : List Lexeme) : Prop :=
  ∃ row, (ls.map Lexeme.token).foldlM Reading.step x = .ok (.finished row)

theorem Completes.exists_cons {stage : Stage} {ls : List Lexeme} (h : (partway stage d).Completes ls) :
    ∃ l rest y, ls = l :: rest ∧ Reading.step (.partway stage d) l.token = .ok y ∧ y.Completes rest := by
  obtain ⟨row, hrow⟩ := h
  cases ls with
  | nil => cases hrow
  | cons l rest =>
      rw [List.map_cons, List.foldlM_cons] at hrow
      obtain ⟨y, hstep, hrest⟩ := exists_of_bind_eq_ok hrow
      exact ⟨l, rest, y, rfl, hstep, row, hrest⟩

/-- A token inside a value that does not count, of a record that is read to its end. -/
theorem Completes.exists_past {nesting : Nesting} {ls : List Lexeme} (h : (partway (.past nesting) d).Completes ls) :
    ∃ l rest next, ls = l :: rest ∧ nesting.step false l.token = .ok next ∧ (resume d next).Completes rest := by
  obtain ⟨l, rest, y, rfl, hstep, hrest⟩ := h.exists_cons
  obtain ⟨next, hnext, rfl⟩ := exists_of_map_eq_ok hstep
  exact ⟨l, rest, next, rfl, hnext, hrest⟩

theorem eq_nil_of_completes {row : Row s.fields} {ls : List Lexeme} (h : (finished row).Completes ls) : ls = [] := by
  obtain ⟨row', hrow⟩ := h
  cases ls with
  | nil => rfl
  | cons l rest => cases hrow

end Reading

/-! ### Phrases that are read past -/

open Reading (Completes)

variable {d : Draft s.fields} {brackets : List Bracket} {due : Due} {ls : List Lexeme}

/-- Whether what follows an opening bracket, or a comma behind it, is divided into items up to the closing bracket;
behind the opening bracket there may be none. -/
def Divides (s : Schema) (ls : List Lexeme) : Prop :=
  ∀ (d : Draft s.fields) (bracket : Bracket) (brackets : List Bracket) (due : Due),
    (Category.items bracket).BeginsAt due → Completes (.partway (.past ⟨bracket :: brackets, due⟩) d) ls →
    ∃ items rest, ls = items ++ .closing bracket :: rest ∧ Completes (Reading.resume d (Nesting.after brackets)) rest ∧
      (Phrase (.items bracket) items ∨ items = [] ∧ due = (Nesting.enter bracket brackets).due)

/-- A value begins where one is due, unless the bracket around it is closed there. -/
theorem exists_value (hdivides : ∀ ls', ls'.length < ls.length → Divides s ls')
    (hdue : Category.value.BeginsAt due) (hopen : due = .valueOrClose → ∀ bracket, ls.head? ≠ some (.closing bracket))
    (h : Completes (.partway (.past ⟨brackets, due⟩) d) ls) :
    ∃ v rest, ls = v ++ rest ∧ Phrase .value v ∧ Completes (Reading.resume d (Nesting.after brackets)) rest := by
  obtain ⟨l, rest, next, rfl, hstep, hrest⟩ := h.exists_past
  have hscalar : l.IsScalar → ∃ v rest', l :: rest = v ++ rest' ∧ Phrase .value v ∧
      Completes (Reading.resume d (Nesting.after brackets)) rest' := by
    intro hl
    rw [Nesting.step_scalar hdue brackets hl] at hstep
    obtain rfl := Except.ok.inj hstep
    exact ⟨[l], rest, rfl, .scalar hl, hrest⟩
  cases l with
  | opening bracket =>
      have henter := Nesting.step_opening hdue brackets bracket
      obtain rfl := Except.ok.inj (henter.symm.trans hstep)
      obtain ⟨items, rest, rfl, hends, hitems⟩ := hdivides rest (Nat.lt_succ_self _) d bracket brackets _
        (Nesting.begins_enter bracket brackets) hrest
      refine ⟨.opening bracket :: (items ++ [.closing bracket]), rest, by simp, ?_, hends⟩
      obtain hitems | ⟨rfl, -⟩ := hitems
      · exact .enclosed hitems
      · exact .empty bracket
  | closing bracket =>
      obtain rfl | rfl := hdue
      · cases hstep
      · exact (hopen rfl bracket rfl).elim
  | comma => rcases hdue with rfl | rfl <;> cases hstep
  | colon => rcases hdue with rfl | rfl <;> cases hstep
  | null => exact hscalar .null
  | boolean value => exact hscalar (.boolean value)
  | number n => exact hscalar (.number n)
  | text pieces => exact hscalar (.text pieces)

/-- An item begins where one is due, unless the bracket around it is closed there. -/
theorem exists_item {bracket : Bracket} (hdivides : ∀ ls', ls'.length < ls.length → Divides s ls')
    (hdue : (Category.items bracket).BeginsAt due)
    (hopen : due = (Nesting.enter bracket brackets).due → ∀ bracket, ls.head? ≠ some (.closing bracket))
    (h : Completes (.partway (.past ⟨bracket :: brackets, due⟩) d) ls) :
    ∃ item rest, ls = item ++ rest ∧ Phrase (.items bracket) item ∧
      Completes (.partway (.past ⟨bracket :: brackets, .separator⟩) d) rest := by
  cases bracket with
  | list =>
      obtain ⟨v, rest, rfl, hvalue, hends⟩ := exists_value hdivides hdue hopen h
      exact ⟨v, rest, rfl, .element hvalue, hends⟩
  | object =>
      obtain ⟨l, rest, next, rfl, hstep, hrest⟩ := h.exists_past
      obtain ⟨key, rfl⟩ : ∃ key, l = .text key := by
        cases l with
        | text key => exact ⟨key, rfl⟩
        | closing bracket =>
            obtain rfl | rfl := hdue
            · cases hstep
            · exact (hopen rfl bracket rfl).elim
        | _ => rcases hdue with rfl | rfl <;> cases hstep
      rw [Nesting.step_key hdue] at hstep
      obtain rfl := Except.ok.inj hstep
      obtain ⟨l, rest, next, rfl, hstep, hrest⟩ := hrest.exists_past
      obtain rfl : l = .colon := by
        cases l with
        | colon => rfl
        | _ => cases hstep
      obtain rfl := Except.ok.inj hstep
      obtain ⟨v, rest, rfl, hvalue, hends⟩ :=
        exists_value (fun ls' hls' => hdivides ls' (Nat.lt_add_right 2 hls')) (.inl rfl) nofun hrest
      exact ⟨.text key :: .colon :: v, rest, rfl, .member key hvalue, hends⟩

theorem Nesting.eq_of_step_closing {bracket b : Bracket} {next : Option Nesting}
    (hdue : due = .separator ∨ due = (enter bracket brackets).due)
    (h : Nesting.step false ⟨bracket :: brackets, due⟩ (.closing b) = .ok next) :
    b = bracket ∧ next = after brackets := by
  have hclose : Nesting.close b (bracket :: brackets) = .ok next := by
    rcases hdue with rfl | rfl <;> cases bracket <;> exact h
  rw [Nesting.close] at hclose
  split_ifs at hclose with hsame
  exact ⟨hsame.symm, (Except.ok.inj hclose).symm⟩

/-- Behind an item there is a comma or the closing bracket. -/
theorem exists_separator {bracket : Bracket} (h : Completes (.partway (.past ⟨bracket :: brackets, .separator⟩) d) ls) :
    (∃ rest, ls = .closing bracket :: rest ∧ Completes (Reading.resume d (Nesting.after brackets)) rest) ∨
    ∃ rest due, ls = .comma :: rest ∧ (Category.items bracket).BeginsAt due ∧
      due ≠ (Nesting.enter bracket brackets).due ∧
      Completes (.partway (.past ⟨bracket :: brackets, due⟩) d) rest := by
  obtain ⟨l, rest, next, rfl, hstep, hrest⟩ := h.exists_past
  cases l with
  | closing b =>
      obtain ⟨rfl, rfl⟩ := Nesting.eq_of_step_closing (.inl rfl) hstep
      exact .inl ⟨rest, rfl, hrest⟩
  | comma =>
      right
      cases bracket with
      | list =>
          obtain rfl := Except.ok.inj hstep
          exact ⟨rest, .value, rfl, .inl rfl, nofun, hrest⟩
      | object =>
          obtain rfl := Except.ok.inj hstep
          exact ⟨rest, .key, rfl, .inl rfl, nofun, hrest⟩
  | _ => cases hstep

theorem divides (ls : List Lexeme) : Divides s ls := by
  induction hn : ls.length using Nat.strong_induction_on generalizing ls with
  | _ n ih =>
      subst hn
      have hdivides : ∀ ls', ls'.length < ls.length → Divides s ls' := fun ls' hls' => ih _ hls' ls' rfl
      intro d bracket brackets due hdue h
      by_cases hempty : due = (Nesting.enter bracket brackets).due ∧ ∃ b, ls.head? = some (.closing b)
      · obtain ⟨rfl, b, hb⟩ := hempty
        obtain ⟨l, rest, next, rfl, hstep, hrest⟩ := h.exists_past
        obtain rfl := Option.some.inj hb
        obtain ⟨rfl, rfl⟩ := Nesting.eq_of_step_closing (.inr rfl) hstep
        exact ⟨[], rest, rfl, hrest, .inr ⟨rfl, rfl⟩⟩
      · obtain ⟨item, rest, rfl, hitem, hrest⟩ := exists_item hdivides hdue
          (fun hsame b hb => hempty ⟨hsame, b, hb⟩) h
        obtain ⟨rest, rfl, hends⟩ | ⟨rest, due', rfl, hdue', hne, hmore⟩ := exists_separator hrest
        · exact ⟨item, rest, rfl, hends, .inl hitem⟩
        · have hshorter : rest.length < (item ++ .comma :: rest).length := by simp; omega
          obtain ⟨items, rest, rfl, hends, hitems⟩ := hdivides rest hshorter d bracket brackets due' hdue' hmore
          refine ⟨item ++ .comma :: items, rest, by simp, hends, .inl ?_⟩
          exact .more hitem (hitems.resolve_right fun h => hne h.2)

/-! ### Objects that are read -/

theorem Lexeme.isScalar_of_token {l : Lexeme} (h : l.token.IsScalar) : l.IsScalar := by
  cases l with
  | null => exact .null
  | boolean value => exact .boolean value
  | number n => exact .number n
  | text pieces => exact .text pieces
  | _ => exact h.elim

/-- The value of a member is read or read past. -/
theorem exists_member_value {place? : Option Nat} (hplace : ∀ place ∈ place?, place < s.fields.length)
    (h : Completes (.partway (.colon place?) d) ls) : ∃ v rest, ls = .colon :: (v ++ rest) ∧ Phrase .value v ∧
      ∃ d' : Draft s.fields, Completes (.partway .separator d') rest := by
  obtain ⟨l, rest, y, rfl, hstep, hrest⟩ := h.exists_cons
  obtain rfl : l = .colon := by
    cases l with
    | colon => rfl
    | _ => cases place? <;> cases hstep
  cases place? with
  | none =>
      obtain rfl := Except.ok.inj hstep
      have hpast : Completes (.partway (.past ⟨[], .value⟩) d) rest := hrest
      obtain ⟨v, rest, rfl, hvalue, hends⟩ := exists_value (fun ls' _ => divides ls') (.inl rfl) nofun hpast
      exact ⟨v, rest, rfl, hvalue, d, hends⟩
  | some place =>
      obtain rfl := Except.ok.inj hstep
      obtain ⟨l, rest, y, rfl, hstep, hrest⟩ := hrest.exists_cons
      obtain ⟨d', hread, rfl⟩ := exists_of_map_eq_ok hstep
      have hscalar := Lexeme.isScalar_of_token (Draft.isScalar_of_read (hplace place rfl) hread)
      exact ⟨[l], rest, rfl, .scalar hscalar, d', hrest⟩

/-- Where a key is due there is one, unless the object is closed there. -/
theorem exists_key {stage : Stage} {l : Lexeme} {y : Reading s} (hstage : stage = .key ∨ stage = .keyOrClose)
    (hopen : stage = .keyOrClose → l ≠ .closing .object) (h : Reading.step (.partway stage d) l.token = .ok y) :
    ∃ key place?, l = .text key ∧ y = .partway (.colon place?) d ∧ ∀ place ∈ place?, place < s.fields.length := by
  have hkey : Reading.key d l.token = .ok y := by
    rcases hstage with rfl | rfl
    · exact h
    · rwa [Reading.step_keyOrClose] at h
      intro hclosing
      cases l with
      | closing bracket => exact hopen rfl (congrArg _ (Token.closing.inj hclosing))
      | _ => cases hclosing
  obtain ⟨key, rfl⟩ : ∃ key, l = .text key := by
    cases l with
    | text key => exact ⟨key, rfl⟩
    | _ => cases hkey
  refine ⟨key, ?_⟩
  rw [Lexeme.token] at hkey
  cases hname : textOf key with
  | error fault =>
      rw [hname] at hkey
      cases hkey
  | ok name =>
      rw [hname, Reading.key] at hkey
      split at hkey
      · exact ⟨none, rfl, (Except.ok.inj hkey).symm, by simp⟩
      · rename_i place hplace
        split_ifs at hkey
        refine ⟨some place, rfl, (Except.ok.inj hkey).symm, fun i hi => ?_⟩
        obtain rfl := Option.some.inj hi
        exact Schema.lt_length_of_place? hplace

/-- Behind a member there is a comma or the end of the object. -/
theorem exists_member_separator (h : Completes (.partway .separator d) ls) :
    ls = [.closing .object] ∨ ∃ rest, ls = .comma :: rest ∧ Completes (.partway .key d) rest := by
  obtain ⟨l, rest, y, rfl, hstep, hrest⟩ := h.exists_cons
  cases l with
  | comma =>
      obtain rfl := Except.ok.inj hstep
      exact .inr ⟨rest, rfl, hrest⟩
  | closing bracket =>
      cases bracket with
      | list => cases hstep
      | object =>
          obtain ⟨row, -, rfl⟩ := exists_of_map_eq_ok hstep
          exact .inl (by rw [Reading.eq_nil_of_completes hrest])
  | _ => cases hstep

/-- Where a key is due there are members up to the end of the object; there may be none if the object has just been
opened. -/
theorem exists_members {stage : Stage} (hstage : stage = .key ∨ stage = .keyOrClose)
    (h : Completes (.partway stage d) ls) :
    ∃ ms, ls = memberLexemes ms ++ [.closing .object] ∧ (stage = .key → ms ≠ []) := by
  induction hn : ls.length using Nat.strong_induction_on generalizing ls d stage with
  | _ n ih =>
      subst hn
      obtain ⟨l, rest, y, rfl, hstep, hrest⟩ := h.exists_cons
      by_cases hempty : stage = .keyOrClose ∧ l = .closing .object
      · obtain ⟨rfl, rfl⟩ := hempty
        obtain ⟨row, -, rfl⟩ := exists_of_map_eq_ok hstep
        exact ⟨[], by rw [Reading.eq_nil_of_completes hrest]; rfl, nofun⟩
      · obtain ⟨key, place?, rfl, rfl, hplace⟩ := exists_key hstage (fun h hl => hempty ⟨h, hl⟩) hstep
        obtain ⟨v, rest, rfl, hvalue, d', hrest⟩ := exists_member_value hplace hrest
        obtain rfl | ⟨rest, rfl, hmore⟩ := exists_member_separator hrest
        · exact ⟨[⟨key, v, hvalue⟩], rfl, nofun⟩
        · obtain ⟨ms, rfl, hsome⟩ := ih rest.length (by simp; omega) (.inl rfl) hmore rfl
          obtain ⟨m, ms, rfl⟩ := List.exists_cons_of_ne_nil (hsome rfl)
          exact ⟨⟨key, v, hvalue⟩ :: m :: ms, by simp [memberLexemes, Member.lexemes], nofun⟩

/-- An object from which a record is read is one of the grammar. -/
theorem Schema.exists_object {bytes : Bytes} {row : Row s.fields}
    (hobject : (tokens bytes).head? = some (.opening .object)) (h : s.decode bytes = .ok row) :
    ∃ ms, Lays (objectLexemes ms) bytes := by
  obtain ⟨ts, hts⟩ := List.head?_eq_some_iff.1 hobject
  rw [decode, ofTokens, hts] at h
  obtain ⟨last, hlast, hresult⟩ := exists_of_bind_eq_ok h
  have hrest : ts.foldlM Reading.step (.partway .keyOrClose (Draft.empty s.fields)) = .ok last := hlast
  obtain rfl : last = .finished row := by
    cases last with
    | partway stage d => cases hresult
    | finished row' => rw [Except.ok.inj hresult]
  have hin : (Reading.partway .keyOrClose (Draft.empty s.fields)).IsInObject := .partway trivial
  have hcut : ∀ t ∈ tokens bytes, ¬t.IsBroken := by
    rw [hts]
    exact List.forall_mem_cons.2 ⟨id, hin.not_isBroken hrest⟩
  obtain ⟨ls, hlays, hls⟩ := exists_lays bytes hcut
  rw [hts] at hls
  obtain ⟨l, ls, rfl, hl, rfl⟩ := List.map_eq_cons_iff.1 hls.symm
  obtain rfl : l = .opening .object := by
    cases l with
    | opening bracket => exact congrArg _ (Token.opening.inj hl)
    | _ => cases hl
  obtain ⟨ms, rfl, -⟩ := exists_members (.inr rfl) ⟨row, hrest⟩
  exact ⟨ms, hlays⟩

end UsageLedger.Json
