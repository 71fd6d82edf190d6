import UsageLedger.Json.Printer
import UsageLedger.Json.Token
import UsageLedger.Proofs.Text.Digits
import UsageLedger.Proofs.Text.Utf8

/-! The tokens of what is written in JSON. A string is cut off whole and holds the text that was written,
whatever comes after its closing quote; a whole number is cut off before anything that cannot go on with
it. -/

namespace UsageLedger.Json

open Text (Bytes encode encodeChar)

/-! ### Strings -/

/-- A byte that stands for itself inside a string. -/
def IsPlain (b : UInt8) : Prop := ¬b < 32 ∧ b ≠ 34 ∧ b ≠ 92

theorem skipText_plain {b : UInt8} (h : IsPlain b) (r : Bytes) : skipText (b :: r) = skipText r := by
  obtain ⟨hcontrol, hquote, hescape⟩ := h
  rw [skipText, if_neg hcontrol] <;> simp_all

theorem keepBytes_plain {b : UInt8} (h : IsPlain b) (r : Bytes) :
    keepBytes (b :: r) = (keepBytes r).map (b :: ·) := by
  obtain ⟨hcontrol, hquote, hescape⟩ := h
  rw [keepBytes, if_neg hcontrol] <;> simp_all

/-- Whether written bytes stand for the bytes `kept` inside a string, whatever follows them. -/
def Spells (written kept : Bytes) : Prop :=
  ∀ r, skipText (written ++ r) = skipText r ∧ keepBytes (written ++ r) = (keepBytes r).map (kept ++ ·)

theorem Spells.nil : Spells [] [] := by
  intro r
  refine ⟨rfl, ?_⟩
  rw [List.nil_append]
  cases keepBytes r <;> rfl

theorem Spells.append {w w' k k' : Bytes} (h : Spells w k) (h' : Spells w' k') : Spells (w ++ w') (k ++ k') := by
  intro r
  rw [List.append_assoc, (h _).1, (h _).2, (h' r).1, (h' r).2]
  refine ⟨rfl, ?_⟩
  cases keepBytes r <;> simp [Except.map]

theorem spells_of_plain {bs : Bytes} (h : ∀ b ∈ bs, IsPlain b) : Spells bs bs := by
  induction bs with
  | nil => exact Spells.nil
  | cons b bs ih =>
      have hb : Spells [b] [b] := fun r =>
        ⟨skipText_plain (h b List.mem_cons_self) r, keepBytes_plain (h b List.mem_cons_self) r⟩
      exact hb.append (ih fun b' hb' => h b' (List.mem_cons_of_mem b hb'))

theorem spells_short {e b : UInt8} (hescape : shortEscape? e = some b) (hu : e ≠ 117) : Spells [92, e] [b] := by
  intro r
  constructor
  · change skipText (92 :: e :: r) = _
    rw [skipText] <;> simp_all
  · change keepBytes (92 :: e :: r) = _
    rw [keepBytes] <;> simp_all

theorem spells_control (n : Fin 32) :
    Spells (encode ['\\', 'u', '0', '0', Text.hexChar (n / 16), Text.hexChar (n % 16)])
      (encodeChar (Char.ofNat n)) := by
  have hquad : ∀ n : Fin 32,
      let high := UInt8.ofNat (Text.hexChar (n / 16)).toNat
      let low := UInt8.ofNat (Text.hexChar (n % 16)).toNat
      hexQuad? 48 48 high low = some n.val ∧
        encode ['\\', 'u', '0', '0', Text.hexChar (n / 16), Text.hexChar (n % 16)] =
          [92, 117, 48, 48, high, low] := by
    decide
  intro r
  rw [(hquad n).2]
  simp only [List.cons_append, List.nil_append]
  rw [skipText, keepBytes, (hquad n).1]
  refine ⟨rfl, ?_⟩
  dsimp only
  rw [if_neg (by omega), if_neg (by omega)]

theorem isPlain_of_toNat {n : Nat} (hlow : 32 ≤ n) (hhigh : n < 256) (hquote : n ≠ 34) (hescape : n ≠ 92) :
    IsPlain (UInt8.ofNat n) := by
  simp only [IsPlain, UInt8.lt_iff_toNat_lt, ne_eq, ← UInt8.toNat_inj, Text.toNat_ofNat hhigh]
  refine ⟨?_, ?_, ?_⟩
  · simpa using hlow
  · simpa using hquote
  · simpa using hescape

/-- A character that needs no escape is written with plain bytes only. -/
theorem isPlain_of_mem_encodeChar {c : Char} {b : UInt8} (h : b ∈ encodeChar c) (hcontrol : ¬c.toNat < 32)
    (hquote : c.toNat ≠ 34) (hescape : c.toNat ≠ 92) : IsPlain b := by
  have hvalid : c.toNat < 0xD800 ∨ 0xDFFF < c.toNat ∧ c.toNat < 0x110000 := c.valid
  unfold encodeChar at h
  dsimp only at h
  split at h
  · obtain rfl := List.mem_singleton.1 h
    exact isPlain_of_toNat (by omega) (by omega) hquote hescape
  · split at h
    · simp only [List.mem_cons, List.not_mem_nil, or_false] at h
      rcases h with rfl | rfl
      all_goals exact isPlain_of_toNat (by omega) (by omega) (by omega) (by omega)
    · split at h
      · simp only [List.mem_cons, List.not_mem_nil, or_false] at h
        rcases h with rfl | rfl | rfl
        all_goals exact isPlain_of_toNat (by omega) (by omega) (by omega) (by omega)
      · simp only [List.mem_cons, List.not_mem_nil, or_false] at h
        rcases h with rfl | rfl | rfl | rfl
        all_goals exact isPlain_of_toNat (by omega) (by omega) (by omega) (by omega)

/-- What is written for a character stands for its bytes. -/
theorem spells_printChar (c : Char) : Spells (encode (printChar c)) (encodeChar c) := by
  unfold printChar
  split
  · rename_i h
    rcases h with rfl | rfl
    · exact spells_short rfl (by decide)
    · exact spells_short rfl (by decide)
  · rename_i hmark
    iterate 5
      split
      · rename_i h
        subst h
        exact spells_short rfl (by decide)
    split
    · rename_i h
      have hspells := spells_control ⟨c.toNat, h⟩
      rwa [Char.ofNat_toNat] at hspells
    · rename_i hcontrol
      rw [not_or] at hmark
      have hquote : c.toNat ≠ 34 := fun h => hmark.1 (Char.toNat_inj.1 h)
      have hescape : c.toNat ≠ 92 := fun h => hmark.2 (Char.toNat_inj.1 h)
      rw [Text.encode_cons, Text.encode_nil, List.append_nil]
      exact spells_of_plain fun b hb => isPlain_of_mem_encodeChar hb hcontrol hquote hescape

theorem spells_printChars (cs : List Char) : Spells (encode (cs.flatMap printChar)) (encode cs) := by
  induction cs with
  | nil => exact Spells.nil
  | cons c cs ih =>
      rw [List.flatMap_cons, Text.encode_append, Text.encode_cons]
      exact (spells_printChar c).append ih

/-- A written string is cut off whole. -/
theorem tokens_printText (cs : List Char) (r : Bytes) :
    tokens (encode (printText cs) ++ r) = .text (.ok (String.ofList cs)) :: tokens r := by
  obtain ⟨hskip, hkeep⟩ := spells_printChars cs (34 :: r)
  have hbytes : encode (printText cs) ++ r = 34 :: (encode (cs.flatMap printChar) ++ 34 :: r) := by
    simp [printText, encodeChar]
  have hskip' : skipText (encode (cs.flatMap printChar) ++ 34 :: r) = .ok r := hskip
  have hkeep' : keepText (encode (cs.flatMap printChar) ++ 34 :: r) = .ok (String.ofList cs) := by
    rw [keepText, hkeep, show keepBytes (34 :: r) = .ok [] from rfl]
    simp only [Except.map, List.append_nil, Text.decode?_encode]
  have hcut : cut 34 (encode (cs.flatMap printChar) ++ 34 :: r) = ⟨.text (.ok (String.ofList cs)), r⟩ := by
    change cutText _ = _
    rw [cutText, hskip', hkeep']
  rw [hbytes, tokens, if_neg (by decide), hcut]

/-! ### Runs of digits -/

/-- Whether a text does not begin with a digit. -/
def Stops (r : Bytes) : Prop := ∀ b ∈ r.head?, ¬isDigit b = true

/-- Whether a text cannot go on with a number in front of it: it begins with a comma or a bracket that
closes an object. -/
def Ends (r : Bytes) : Prop := ∃ s, r = 44 :: s ∨ r = 125 :: s

theorem Ends.stops {r : Bytes} (h : Ends r) : Stops r := by
  obtain ⟨s, rfl | rfl⟩ := h
  · simp [Stops, isDigit]
  · simp [Stops, isDigit]

theorem isDigit_encodeChar {c : Char} (h : c.isDigit = true) :
    ∃ b, encodeChar c = [b] ∧ isDigit b = true ∧ b.toNat = c.toNat := by
  have hrange : 48 ≤ c.toNat ∧ c.toNat ≤ 57 := by simpa [Char.isDigit, UInt32.le_iff_toNat_le] using h
  refine ⟨UInt8.ofNat c.toNat, if_pos (by omega), ?_, Text.toNat_ofNat (by omega)⟩
  rw [isDigit, Bool.and_eq_true, decide_eq_true_iff, decide_eq_true_iff, UInt8.le_iff_toNat_le,
    UInt8.le_iff_toNat_le, Text.toNat_ofNat (by omega)]
  exact hrange

/-- A run of digits is read up to what ends it. -/
theorem extend_digits {cs : List Char} {r : Bytes} (hdigits : ∀ c ∈ cs, c.isDigit = true) (hstops : Stops r)
    (value count : Nat) : DigitRun.extend value count (encode cs ++ r) =
      ⟨cs.foldl (fun n c => 10 * n + Text.digitValue c) value, count + cs.length, r⟩ := by
  induction cs generalizing value count with
  | nil =>
      cases r with
      | nil => rfl
      | cons b r => exact if_neg (hstops b rfl)
  | cons c cs ih =>
      obtain ⟨b, hb, hdigit, hvalue⟩ := isDigit_encodeChar (hdigits c List.mem_cons_self)
      rw [Text.encode_cons, hb, List.cons_append, List.nil_append, List.cons_append, DigitRun.extend,
        if_pos hdigit, ih fun c' hc' => hdigits c' (List.mem_cons_of_mem c hc')]
      simp only [List.foldl_cons, List.length_cons, Text.digitValue, hvalue, Nat.add_assoc, Nat.add_comm 1]

theorem digitRun_of_digits {cs : List Char} {r : Bytes} (hdigits : ∀ c ∈ cs, c.isDigit = true)
    (hstops : Stops r) : digitRun (encode cs ++ r) = ⟨Text.ofDigits cs, cs.length, r⟩ := by
  rw [digitRun, extend_digits hdigits hstops, Nat.zero_add]
  rfl

/-! ### Numbers -/

theorem isSpace_of_isDigit {b : UInt8} (h : isDigit b = true) : ¬isSpace b = true := by
  intro hspace
  simp only [isSpace, Bool.or_eq_true, beq_iff_eq] at hspace
  rcases hspace with ((rfl | rfl) | rfl) | rfl
  all_goals exact absurd h (by decide)

theorem cut_of_isDigit {b : UInt8} (h : isDigit b = true) (s : Bytes) : cut b s = cutNumber false (b :: s) := by
  unfold cut
  split
  all_goals first
    | exact absurd h (by decide)
    | exact if_pos h

/-- What is read as a number begins with a digit. -/
theorem exists_digit_of_readSpelling {negative : Bool} {s r : Bytes} {t : Spelling}
    (h : readSpelling negative s = .ok (t, r)) : ∃ b rest, s = b :: rest ∧ isDigit b = true := by
  cases s with
  | nil => cases h
  | cons b rest =>
      refine ⟨b, rest, rfl, ?_⟩
      cases hdigit : isDigit b with
      | true => rfl
      | false =>
          have hrun : digitRun (b :: rest) = ⟨0, 0, b :: rest⟩ := by
            rw [digitRun, DigitRun.extend, hdigit]
            rfl
          rw [readSpelling] at h
          simp only [hrun, if_true] at h
          cases h

/-- A number is cut off with its sign. -/
theorem tokens_number {negative : Bool} {cs : List Char} {r : Bytes} {s : Spelling}
    (hread : readSpelling negative (encode cs ++ r) = .ok (s, r)) :
    tokens (encode (if negative then '-' :: cs else cs) ++ r) = .number s.value :: tokens r := by
  have hcut : cutNumber negative (encode cs ++ r) = ⟨.number s.value, r⟩ := by rw [cutNumber, hread]
  cases negative with
  | true =>
      have hsign : cut 45 (encode cs ++ r) = ⟨.number s.value, r⟩ := hcut
      rw [if_pos rfl, Text.encode_cons, show encodeChar '-' = [45] from rfl, List.cons_append,
        List.nil_append, List.cons_append, tokens, if_neg (by decide), hsign]
  | false =>
      obtain ⟨b, rest, hbytes, hdigit⟩ := exists_digit_of_readSpelling hread
      rw [hbytes] at hcut
      rw [if_neg Bool.false_ne_true, hbytes, tokens, if_neg (isSpace_of_isDigit hdigit), cut_of_isDigit hdigit, hcut]

theorem leading_encode {whole : List Char} (h : Text.IsWhole whole) (r : Bytes) :
    ¬((encode whole ++ r).head? = some 48 ∧ 1 < whole.length) := by
  rintro ⟨hzero, hlong⟩
  cases whole with
  | nil => exact h.nonempty rfl
  | cons c cs =>
      obtain ⟨b, hb, -, hvalue⟩ := isDigit_encodeChar (h.isDigit c List.mem_cons_self)
      rw [Text.encode_cons, hb] at hzero
      obtain rfl : b = 48 := Option.some.inj hzero
      obtain rfl : '0' = c := Char.toNat_inj.1 hvalue
      rw [h.leading rfl] at hlong
      exact absurd hlong (by decide)

/-- A number without a point is read up to its exponent. -/
theorem readSpelling_whole (negative : Bool) {whole : List Char} (h : Text.IsWhole whole) {r : Bytes}
    (hstops : Stops r) (hpoint : r.head? ≠ some 46) : readSpelling negative (encode whole ++ r) =
      readTail ⟨negative, Text.ofDigits whole, 0, 0, true⟩ r := by
  rw [readSpelling]
  simp only [digitRun_of_digits h.isDigit hstops]
  rw [if_neg (by simpa using h.nonempty), if_neg (leading_encode h r)]
  split
  · exact absurd rfl hpoint
  · rfl

/-- A number with a point is read up to its exponent. -/
theorem readSpelling_point (negative : Bool) {whole fraction : List Char} (h : Text.IsWhole whole)
    (hsome : fraction ≠ []) (hfraction : ∀ c ∈ fraction, c.isDigit = true) {r : Bytes} (hstops : Stops r) :
    readSpelling negative (encode (whole ++ '.' :: fraction) ++ r) =
      readTail ⟨negative, Text.ofDigits (whole ++ fraction), fraction.length, 0, false⟩ r := by
  have hbytes : encode (whole ++ '.' :: fraction) ++ r = encode whole ++ 46 :: (encode fraction ++ r) := by
    simp [encodeChar]
  have hpoint : Stops (46 :: (encode fraction ++ r)) := by simp [Stops, isDigit]
  rw [hbytes, readSpelling]
  simp only [digitRun_of_digits h.isDigit hpoint, extend_digits hfraction hstops, Nat.zero_add]
  rw [if_neg (by simpa using h.nonempty), if_neg (leading_encode h _), if_neg (by simpa using hsome),
    Text.ofDigits_append]

theorem readTail_of_ends (s : Spelling) {r : Bytes} (hends : Ends r) : readTail s r = .ok (s, r) := by
  obtain ⟨t, rfl | rfl⟩ := hends
  · rfl
  · rfl

theorem readSpelling_digits (negative : Bool) (n : Nat) {r : Bytes} (hends : Ends r) :
    readSpelling negative (encode (Text.digits n) ++ r) = .ok (⟨negative, n, 0, 0, true⟩, r) := by
  have hpoint : r.head? ≠ some 46 := by
    obtain ⟨s, rfl | rfl⟩ := hends
    · simp
    · simp
  rw [readSpelling_whole negative (Text.isWhole_digits n) hends.stops hpoint, readTail_of_ends _ hends,
    Text.ofDigits_digits]

/-! ### Whole numbers -/

theorem value_natural {n : Nat} (h : n < 2 ^ 64) :
    Spelling.value ⟨false, n, 0, 0, true⟩ = .ok (.integer n) := by
  simp [Spelling.value, h]

theorem value_negative {n : Nat} (hpos : 0 < n) (h : n ≤ 2 ^ 63) :
    Spelling.value ⟨true, n, 0, 0, true⟩ = .ok (.integer (-(n : Int))) := by
  simp [Spelling.value, hpos, h]

/-- A written whole number of 64 bits is cut off before what ends it. -/
theorem tokens_signed {n : Int} (hlow : -(2 ^ 63) ≤ n) (hhigh : n < 2 ^ 64) {r : Bytes} (hends : Ends r) :
    tokens (encode (Text.signed n) ++ r) = .number (.ok (.integer n)) :: tokens r := by
  unfold Text.signed
  by_cases hneg : n < 0
  · rw [if_pos hneg]
    refine (tokens_number (readSpelling_digits true n.natAbs hends)).trans ?_
    rw [value_negative (by omega) (by omega), Int.ofNat_natAbs_of_nonpos (Int.le_of_lt hneg), Int.neg_neg]
  · rw [if_neg hneg]
    refine (tokens_number (readSpelling_digits false n.natAbs hends)).trans ?_
    rw [value_natural (by omega), Int.natAbs_of_nonneg (Int.not_lt.1 hneg)]

/-! ### Marks -/

theorem tokens_open (r : Bytes) : tokens (123 :: r) = .opening .object :: tokens r := by
  rw [tokens, if_neg (by decide)]
  rfl

theorem tokens_close (r : Bytes) : tokens (125 :: r) = .closing .object :: tokens r := by
  rw [tokens, if_neg (by decide)]
  rfl

theorem tokens_comma (r : Bytes) : tokens (44 :: r) = .comma :: tokens r := by
  rw [tokens, if_neg (by decide)]
  rfl

theorem tokens_colon (r : Bytes) : tokens (58 :: r) = .colon :: tokens r := by
  rw [tokens, if_neg (by decide)]
  rfl

end UsageLedger.Json
