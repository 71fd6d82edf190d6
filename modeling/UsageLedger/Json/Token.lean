import UsageLedger.Binary64.Arithmetic
import UsageLedger.Json.Fault
import UsageLedger.Text.Utf8

/-! The tokens of a JSON text. A text is cut into tokens byte by byte, without regard to whether a value
is going to be kept or read past; a token therefore says both what it holds and whether it may be read
past, and those answers differ: a string that is kept has to be Unicode, one that is read past need
not be. The last token of a text that cannot be cut further says what is wrong there. -/

namespace UsageLedger.Json

open UsageLedger.Text (Bytes)

/-- A number: whole numbers of 64 bits are exact, and all others are floating-point. -/
inductive Number
  | integer (value : Int)
  | float (value : Binary64)
  deriving DecidableEq, Repr

/-- The two kinds of brackets. -/
inductive Bracket
  | list
  | object
  deriving DecidableEq, Repr

/-- A token. A number or a string holds its value, or the fault that keeping it has. A broken token says
whether it opens a string, and holds the fault when the value is kept and when it is read past. -/
inductive Token
  | opening (bracket : Bracket)
  | closing (bracket : Bracket)
  | comma
  | colon
  | null
  | boolean (value : Bool)
  | number (value : Except Fault Number)
  | text (value : Except Fault String)
  | broken (string : Bool) (kept skipped : Fault)

/-- Whether a byte is white space between tokens. -/
def isSpace (b : UInt8) : Bool := b == 32 || b == 10 || b == 9 || b == 13

def isDigit (b : UInt8) : Bool := 48 ≤ b && b ≤ 57

/-- The value of a hexadecimal digit in either case. -/
def hexValue? (b : UInt8) : Option Nat :=
  if 48 ≤ b && b ≤ 57 then some (b.toNat - 48)
  else if 97 ≤ b && b ≤ 102 then some (b.toNat - 87)
  else if 65 ≤ b && b ≤ 70 then some (b.toNat - 55)
  else none

/-- The number of four hexadecimal digits. -/
def hexQuad? (a b c d : UInt8) : Option Nat := do
  let a ← hexValue? a
  let b ← hexValue? b
  let c ← hexValue? c
  let d ← hexValue? d
  some (((a * 16 + b) * 16 + c) * 16 + d)

/-- The byte that a single-letter escape stands for. -/
def shortEscape? (b : UInt8) : Option UInt8 :=
  if b == 34 || b == 92 || b == 47 then some b
  else if b == 98 then some 8
  else if b == 102 then some 12
  else if b == 110 then some 10
  else if b == 114 then some 13
  else if b == 116 then some 9
  else none

/-- Reads past a string after its opening quote and gives what follows its closing quote. Escapes have
to be well formed, but four digits may name half of a surrogate pair. -/
def skipText : Bytes → Except Fault Bytes
  | [] => .error .ended
  | 34 :: r => .ok r
  | 92 :: 117 :: a :: b :: c :: d :: r =>
    if (hexQuad? a b c d).isSome then skipText r else .error .malformed
  | 92 :: 117 :: _ => .error .ended
  | 92 :: e :: r => if (shortEscape? e).isSome then skipText r else .error .malformed
  | [92] => .error .ended
  | b :: r => if b < 32 then .error .malformed else skipText r

def keepBytes : Bytes → Except Fault Bytes
  | [] => .error .ended
  | 34 :: _ => .ok []
  | 92 :: 117 :: a :: b :: c :: d :: r =>
    match hexQuad? a b c d with
    | none => .error .malformed
    | some n =>
      if 0xDC00 ≤ n ∧ n ≤ 0xDFFF then .error .malformed
      else if 0xD800 ≤ n ∧ n ≤ 0xDBFF then
        match r with
        | [] => .error .ended
        | [92] => .error .ended
        | 92 :: 117 :: a :: b :: c :: d :: r =>
          match hexQuad? a b c d with
          | none => .error .malformed
          | some m =>
            if 0xDC00 ≤ m ∧ m ≤ 0xDFFF then
              let point := (n - 0xD800) * 1024 + (m - 0xDC00) + 0x10000
              (keepBytes r).map (Text.encodeChar (Char.ofNat point) ++ ·)
            else .error .malformed
        | 92 :: 117 :: _ => .error .ended
        | _ => .error .malformed
      else (keepBytes r).map (Text.encodeChar (Char.ofNat n) ++ ·)
  | 92 :: 117 :: _ => .error .ended
  | 92 :: e :: r =>
    match shortEscape? e with
    | some b => (keepBytes r).map (b :: ·)
    | none => .error .malformed
  | [92] => .error .ended
  | b :: r => if b < 32 then .error .malformed else (keepBytes r).map (b :: ·)

/-- The value of a string that is kept, read after its opening quote. It has to be UTF-8 throughout. -/
def keepText (s : Bytes) : Except Fault String :=
  match keepBytes s with
  | .error fault => .error fault
  | .ok bytes =>
    match Text.decode? bytes with
    | some cs => .ok (String.ofList cs)
    | none => .error .malformed

/-- The digits at the front of a text, as a number with their count, and what follows. -/
structure DigitRun where
  value : Nat
  count : Nat
  rest : Bytes

/-- Reads digits onto a number read so far. -/
def DigitRun.extend (value count : Nat) : Bytes → DigitRun
  | [] => ⟨value, count, []⟩
  | b :: r =>
    if isDigit b then DigitRun.extend (10 * value + (b.toNat - 48)) (count + 1) r
    else ⟨value, count, b :: r⟩

/-- The digits at the front of a text. -/
def digitRun (s : Bytes) : DigitRun := DigitRun.extend 0 0 s

/-- A number as it is spelled: its digits without the point, the count of those behind the point, and
the exponent; a spelling without point and exponent is plain. -/
structure Spelling where
  negative : Bool
  digits : Nat
  places : Nat
  exponent : Int
  plain : Bool
  deriving DecidableEq, Repr

/-- Reads digits onto a number as long as it keeps within 64 bits, and gives the digits that are left. -/
def readOnto : Nat → List Char → Nat × List Char
  | n, [] => (n, [])
  | n, c :: cs =>
    if 10 * n + Text.digitValue c < 2 ^ 64 then readOnto (10 * n + Text.digitValue c) cs else (n, c :: cs)

/-- The significand that counts, of 64 bits, with its exponent. What does not fit in front of the point is made up for
in the exponent, and behind the point it is left out. -/
def Spelling.significand (s : Spelling) : Nat × Int :=
  let ds := Text.digits s.digits
  let whole := readOnto 0 (ds.take (ds.length - s.places))
  let all := readOnto whole.1 (ds.drop (ds.length - s.places))
  (all.1, s.exponent + whole.2.length - (s.places - all.2.length : Nat))

/-- A value moved by powers of ten, one step for each of at most `10 ^ 308`. Each step rounds; a positive value that
has to be moved up by more is infinite. -/
def moveTens (x : Binary64) (exponent : Int) : Binary64 :=
  if exponent.natAbs ≤ 308 then
    if 0 ≤ exponent then x.mul (.ofNat (10 ^ exponent.toNat)) else x.div (.ofNat (10 ^ (-exponent).toNat))
  else
    match x with
    | .finite _ 0 _ => x
    | _ => if 0 ≤ exponent then .infinite false else moveTens (x.div (.ofNat (10 ^ 308))) (exponent + 308)
termination_by exponent.natAbs
decreasing_by omega

/-- The floating-point number that is taken for a spelling: not always the nearest one, as the significand is rounded
before it is moved. -/
def Spelling.float (s : Spelling) : Binary64 :=
  (moveTens (.ofNat s.significand.1) s.significand.2).withSign s.negative

/-- The value of a spelling. A plain one within 64 bits is an integer, except for a minus zero; what is
beyond every finite floating-point number has no value. -/
def Spelling.value (s : Spelling) : Except Fault Number :=
  if s.plain ∧ ¬s.negative ∧ s.digits < 2 ^ 64 then .ok (.integer s.digits)
  else if s.plain ∧ s.negative ∧ 0 < s.digits ∧ s.digits ≤ 2 ^ 63 then .ok (.integer (-(s.digits : Int)))
  else
    match s.float with
    | .infinite _ => .error .malformed
    | x => .ok (.float x)

/-- The fault of a number that stops at a byte where a digit is due: the text has ended there or not. -/
def dueDigit : Bytes → Fault
  | [] => .ended
  | _ => .malformed

/-- The sign in front of an exponent, if there is one, and the rest. -/
def readSign : Bytes → Bool × Bytes
  | 43 :: r => (false, r)
  | 45 :: r => (true, r)
  | r => (false, r)

/-- Reads an exponent after its mark. -/
def readExponent (s : Spelling) (r : Bytes) : Except Fault (Spelling × Bytes) :=
  let (negative, r) := readSign r
  let run := digitRun r
  if run.count = 0 then .error (dueDigit r)
  else
    let e : Int := if negative then -(run.value : Int) else run.value
    .ok ({ s with exponent := e, plain := false }, run.rest)

/-- Reads an exponent, if there is one. -/
def readTail (s : Spelling) : Bytes → Except Fault (Spelling × Bytes)
  | 101 :: r => readExponent s r
  | 69 :: r => readExponent s r
  | r => .ok (s, r)

/-- Reads a number after its sign. -/
def readSpelling (negative : Bool) (s : Bytes) : Except Fault (Spelling × Bytes) :=
  let run := digitRun s
  if run.count = 0 then .error (dueDigit s)
  else if s.head? = some 48 ∧ 1 < run.count then .error .malformed
  else
    match run.rest with
    | 46 :: r =>
      let more := DigitRun.extend run.value 0 r
      if more.count = 0 then .error (dueDigit r)
      else readTail ⟨negative, more.value, more.count, 0, false⟩ more.rest
    | r => readTail ⟨negative, run.value, 0, 0, true⟩ r

/-- Reads the rest of a word and gives what follows it. -/
def readWord : (word s : Bytes) → Except Fault Bytes
  | [], s => .ok s
  | _ :: _, [] => .error .ended
  | w :: word, b :: s => if w = b then readWord word s else .error .malformed

/-- A token and what follows it; nothing follows a broken one. -/
structure Cut where
  token : Token
  rest : Bytes

/-- The cut at a word with a fixed meaning, read after its first byte. -/
def cutWord (word : Bytes) (token : Token) (s : Bytes) : Cut :=
  match readWord word s with
  | .ok r => ⟨token, r⟩
  | .error fault => ⟨.broken false fault fault, []⟩

/-- The cut at a number, read after its sign. A number that is cut short is never well formed when it is
read past. -/
def cutNumber (negative : Bool) (s : Bytes) : Cut :=
  match readSpelling negative s with
  | .ok (spelling, r) => ⟨.number spelling.value, r⟩
  | .error fault => ⟨.broken false fault .malformed, []⟩

/-- The cut at a string, read after its opening quote. -/
def cutText (s : Bytes) : Cut :=
  match skipText s with
  | .ok r => ⟨.text (keepText s), r⟩
  | .error fault =>
    match keepText s with
    | .error kept => ⟨.broken true kept fault, []⟩
    | .ok _ => ⟨.broken true fault fault, []⟩

/-- Cuts the first token off a text that begins with the byte `b`, which is not white space. -/
def cut (b : UInt8) (s : Bytes) : Cut :=
  match b with
  | 91 => ⟨.opening .list, s⟩
  | 93 => ⟨.closing .list, s⟩
  | 123 => ⟨.opening .object, s⟩
  | 125 => ⟨.closing .object, s⟩
  | 44 => ⟨.comma, s⟩
  | 58 => ⟨.colon, s⟩
  | 34 => cutText s
  | 110 => cutWord [117, 108, 108] .null s
  | 116 => cutWord [114, 117, 101] (.boolean true) s
  | 102 => cutWord [97, 108, 115, 101] (.boolean false) s
  | 45 => cutNumber true s
  | b => if isDigit b then cutNumber false (b :: s) else ⟨.broken false .malformed .malformed, []⟩

theorem length_skipText {s r : Bytes} (h : skipText s = .ok r) : r.length < s.length := by
  fun_induction skipText s <;> simp_all <;> grind

theorem length_extend (value count : Nat) (s : Bytes) :
    (DigitRun.extend value count s).rest.length + (DigitRun.extend value count s).count =
      s.length + count := by
  induction s generalizing value count with
  | nil => simp [DigitRun.extend]
  | cons b r ih =>
    rw [DigitRun.extend]
    split
    · rw [ih]; simp; omega
    · simp

theorem length_readSign (r : Bytes) : (readSign r).2.length ≤ r.length := by
  fun_cases readSign r <;> simp

theorem length_readExponent {s t : Spelling} {r q : Bytes} (h : readExponent s r = .ok (t, q)) :
    q.length ≤ r.length := by
  have shorter := length_readSign r
  have run := length_extend 0 0 (readSign r).2
  simp only [readExponent, digitRun] at h
  by_cases none : (DigitRun.extend 0 0 (readSign r).2).count = 0
  · simp [none] at h
  · simp only [none, if_false, Except.ok.injEq, Prod.mk.injEq] at h
    rw [← h.2]
    omega

theorem length_readTail {s t : Spelling} {r q : Bytes} (h : readTail s r = .ok (t, q)) :
    q.length ≤ r.length := by
  unfold readTail at h
  split at h
  · exact Nat.le_succ_of_le (length_readExponent h)
  · exact Nat.le_succ_of_le (length_readExponent h)
  · simp_all

theorem length_readSpelling {negative : Bool} {s r : Bytes} {t : Spelling}
    (h : readSpelling negative s = .ok (t, r)) : r.length < s.length := by
  have run := length_extend 0 0 s
  unfold readSpelling digitRun at h
  simp only at h
  split at h
  · simp at h
  · split at h
    · simp at h
    · split at h
      · rename_i tail htail
        rw [htail] at run
        have more := length_extend (DigitRun.extend 0 0 s).value 0 tail
        split at h
        · simp at h
        · have := length_readTail h
          simp at run
          omega
      · have := length_readTail h
        omega

theorem length_readWord {word s r : Bytes} (h : readWord word s = .ok r) : r.length ≤ s.length := by
  fun_induction readWord word s with
  | case1 s =>
    obtain rfl := Except.ok.inj h
    exact Nat.le_refl _
  | case2 => nomatch h
  | case3 b word s ih => exact Nat.le_succ_of_le (ih h)
  | case4 => nomatch h

/-- Cutting a token off leaves less of the text. -/
theorem length_cut (b : UInt8) (s : Bytes) : (cut b s).rest.length ≤ s.length := by
  have word : ∀ w t, (cutWord w t s).rest.length ≤ s.length := by
    intro w t
    unfold cutWord
    split
    · exact length_readWord (by assumption)
    · simp
  have text : (cutText s).rest.length ≤ s.length := by
    unfold cutText
    split
    · exact Nat.le_of_lt (length_skipText (by assumption))
    · split <;> simp
  have number : ∀ negative u, (cutNumber negative u).rest.length ≤ u.length - 1 := by
    intro negative u
    unfold cutNumber
    split
    · have := length_readSpelling (by assumption)
      simp only
      omega
    · simp
  unfold cut
  split
  iterate 6 exact Nat.le_refl _
  · exact text
  iterate 3 exact word _ _
  · have := number true s
    omega
  · split
    · simpa using number false (b :: s)
    · simp

/-- The tokens of a text. -/
def tokens : Bytes → List Token
  | [] => []
  | b :: s =>
    if isSpace b then tokens s
    else (cut b s).token :: tokens (cut b s).rest
termination_by s => s.length
decreasing_by
  · simp
  · have := length_cut b s
    simp only [List.length_cons]
    omega

@[simp] theorem tokens_nil : tokens [] = [] := by rw [tokens]

/-- White space between tokens does not count. -/
theorem tokens_space {b : UInt8} (h : isSpace b = true) (s : Bytes) : tokens (b :: s) = tokens s := by
  rw [tokens, if_pos h]

end UsageLedger.Json
