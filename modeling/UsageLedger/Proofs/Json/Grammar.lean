import Mathlib.Data.List.Chain
import UsageLedger.Proofs.Json.Token

/-! The grammar of JSON texts, and what the texts of the grammar are cut into. A text is a row of lexemes with any
white space between them; which rows are values is said by the productions of the grammar, without regard to what a
reader makes of them. Each lexeme is cut off as one token, whatever comes after it, save that a number has to end
there: in a value it always does, as only a comma or a closing bracket can follow it. -/

namespace UsageLedger.Json

open Text (Bytes encode encodeChar)

/-! ### Lexemes -/

/-- A part of a string between its quotes: a byte that stands for itself, an escape of a single letter or sign, or
one of four hexadecimal digits, which may name half of a surrogate pair. -/
inductive Piece
  | plain (b : UInt8) (h : IsPlain b)
  | short (b : UInt8) (h : (shortEscape? b).isSome = true)
  | quad (a b c d : UInt8) (h : (hexQuad? a b c d).isSome = true)

def Piece.bytes : Piece → Bytes
  | plain b _ => [b]
  | short b _ => [92, b]
  | quad a b c d _ => [92, 117, a, b, c, d]

/-- An exponent as it is written; its sign, if there is one, says whether it is negative. -/
structure Exponent where
  capital : Bool
  sign : Option Bool
  digits : List Char
  nonempty : digits ≠ []
  isDigit : ∀ c ∈ digits, c.isDigit = true

def signChars : Option Bool → List Char
  | none => []
  | some false => ['+']
  | some true => ['-']

def Exponent.chars (x : Exponent) : List Char :=
  (if x.capital then 'E' else 'e') :: (signChars x.sign ++ x.digits)

/-- A number as it is written; one without a point has no fraction. -/
structure Numeral where
  negative : Bool
  whole : List Char
  fraction : List Char
  exponent : Option Exponent
  isWhole : Text.IsWhole whole
  isFraction : ∀ c ∈ fraction, c.isDigit = true

/-- The point with the digits behind it. -/
def fractionChars : List Char → List Char
  | [] => []
  | c :: cs => '.' :: c :: cs

def exponentChars : Option Exponent → List Char
  | none => []
  | some x => x.chars

/-- A number without its sign. -/
def Numeral.magnitude (n : Numeral) : List Char :=
  n.whole ++ fractionChars n.fraction ++ exponentChars n.exponent

/-- The smallest parts of a text that white space does not divide. -/
inductive Lexeme
  | opening (bracket : Bracket)
  | closing (bracket : Bracket)
  | comma
  | colon
  | null
  | boolean (value : Bool)
  | number (n : Numeral)
  | text (pieces : List Piece)

namespace Lexeme

def bytes : Lexeme → Bytes
  | opening .list => encode ['[']
  | opening .object => encode ['\x7b']
  | closing .list => encode [']']
  | closing .object => encode ['\x7d']
  | comma => encode [',']
  | colon => encode [':']
  | null => encode ['n', 'u', 'l', 'l']
  | boolean true => encode ['t', 'r', 'u', 'e']
  | boolean false => encode ['f', 'a', 'l', 's', 'e']
  | number n => encode (if n.negative then '-' :: n.magnitude else n.magnitude)
  | text pieces => 34 :: (pieces.flatMap Piece.bytes ++ [34])

/-- The lexemes that are a value by themselves. -/
inductive IsScalar : Lexeme → Prop
  | null : IsScalar null
  | boolean (value : Bool) : IsScalar (boolean value)
  | number (n : Numeral) : IsScalar (number n)
  | text (pieces : List Piece) : IsScalar (text pieces)

end Lexeme

/-- Whether a text is made of lexemes in their order, with any white space around them. -/
inductive Lays : List Lexeme → Bytes → Prop
  | nil : Lays [] []
  | space {ls : List Lexeme} {b : UInt8} {s : Bytes} (h : isSpace b = true) (hs : Lays ls s) : Lays ls (b :: s)
  | lexeme {ls : List Lexeme} {s : Bytes} (l : Lexeme) (hs : Lays ls s) : Lays (l :: ls) (l.bytes ++ s)

/-! ### Phrases -/

/-- What a row of lexemes can be: a value, or what stands between two brackets. -/
inductive Category
  | value
  | items (bracket : Bracket)

/-- The productions of the grammar. A list has values for its items, and an object has members; items are divided by
commas. -/
inductive Phrase : Category → List Lexeme → Prop
  | scalar {l : Lexeme} (h : l.IsScalar) : Phrase .value [l]
  | empty (bracket : Bracket) : Phrase .value [.opening bracket, .closing bracket]
  | enclosed {bracket : Bracket} {ls : List Lexeme} (h : Phrase (.items bracket) ls) :
      Phrase .value (.opening bracket :: (ls ++ [.closing bracket]))
  | element {ls : List Lexeme} (h : Phrase .value ls) : Phrase (.items .list) ls
  | member {ls : List Lexeme} (key : List Piece) (h : Phrase .value ls) :
      Phrase (.items .object) (.text key :: .colon :: ls)
  | more {bracket : Bracket} {ls ls' : List Lexeme} (h : Phrase (.items bracket) ls)
      (h' : Phrase (.items bracket) ls') : Phrase (.items bracket) (ls ++ .comma :: ls')

/-- A member of an object: its key, and the lexemes of its value. -/
structure Member where
  key : List Piece
  value : List Lexeme
  isValue : Phrase .value value

def Member.lexemes (m : Member) : List Lexeme := .text m.key :: .colon :: m.value

/-- The lexemes of members with commas between them. -/
def memberLexemes : List Member → List Lexeme
  | [] => []
  | [m] => m.lexemes
  | m :: m' :: ms => m.lexemes ++ .comma :: memberLexemes (m' :: ms)

/-- The lexemes of the object with some members. -/
def objectLexemes (ms : List Member) : List Lexeme :=
  .opening .object :: (memberLexemes ms ++ [.closing .object])

theorem phrase_memberLexemes (m : Member) (ms : List Member) :
    Phrase (.items .object) (memberLexemes (m :: ms)) := by
  induction ms generalizing m with
  | nil => exact .member m.key m.isValue
  | cons m' ms ih => exact .more (.member m.key m.isValue) (ih m')

theorem phrase_objectLexemes (ms : List Member) : Phrase .value (objectLexemes ms) := by
  cases ms with
  | nil => exact .empty .object
  | cons m ms => exact .enclosed (phrase_memberLexemes m ms)

theorem Phrase.ne_nil {c : Category} {ls : List Lexeme} (h : Phrase c ls) : ls ≠ [] := by
  induction h with
  | element _ ih => exact ih
  | more _ _ ih _ => simp
  | _ => exact List.cons_ne_nil _ _

/-! ### Strings -/

theorem ne_of_shortEscape {b : UInt8} (h : (shortEscape? b).isSome = true) : b ≠ 117 := by
  rintro rfl
  exact absurd h (by decide)

theorem skipText_quad {a b c d : UInt8} (h : (hexQuad? a b c d).isSome = true) (r : Bytes) :
    skipText (92 :: 117 :: a :: b :: c :: d :: r) = skipText r := by
  rw [skipText, if_pos h]

theorem skipText_piece (p : Piece) (r : Bytes) : skipText (p.bytes ++ r) = skipText r := by
  cases p with
  | plain b h => exact skipText_plain h r
  | short b h =>
      obtain ⟨v, hv⟩ := Option.isSome_iff_exists.1 h
      exact (spells_short hv (ne_of_shortEscape h) r).1
  | quad a b c d h => exact skipText_quad h r

theorem skipText_pieces (pieces : List Piece) (r : Bytes) :
    skipText (pieces.flatMap Piece.bytes ++ 34 :: r) = .ok r := by
  induction pieces with
  | nil => rfl
  | cons p ps ih => rw [List.flatMap_cons, List.append_assoc, skipText_piece, ih]

/-- What a string is kept as does not depend on what comes after it. -/
theorem keepBytes_pieces (pieces : List Piece) (r : Bytes) :
    keepBytes (pieces.flatMap Piece.bytes ++ 34 :: r) = keepBytes (pieces.flatMap Piece.bytes ++ [34]) := by
  -- half of a pair needs the other half right behind it, so the induction goes on behind two pieces
  induction hn : pieces.length using Nat.strong_induction_on generalizing pieces with
  | _ n ih =>
      subst hn
      cases pieces with
      | nil => rfl
      | cons p ps =>
          have hps := ih ps.length (Nat.lt_succ_self _) ps rfl
          cases p with
          | plain b h =>
              change keepBytes (b :: (ps.flatMap Piece.bytes ++ _)) = keepBytes (b :: (ps.flatMap Piece.bytes ++ _))
              rw [keepBytes_plain h, keepBytes_plain h, hps]
          | short b h =>
              obtain ⟨v, hv⟩ := Option.isSome_iff_exists.1 h
              have hspells := spells_short hv (ne_of_shortEscape h)
              change keepBytes ([92, b] ++ (ps.flatMap Piece.bytes ++ _)) =
                keepBytes ([92, b] ++ (ps.flatMap Piece.bytes ++ _))
              rw [(hspells _).2, (hspells _).2, hps]
          | quad a b c d h =>
              change keepBytes (92 :: 117 :: a :: b :: c :: d :: (ps.flatMap Piece.bytes ++ _)) =
                keepBytes (92 :: 117 :: a :: b :: c :: d :: (ps.flatMap Piece.bytes ++ _))
              rw [keepBytes, keepBytes, hps]
              cases ps with
              | nil => rfl
              | cons p ps =>
                  have hrest := ih ps.length (Nat.lt_add_right 1 (Nat.lt_succ_self _)) ps rfl
                  cases p with
                  | plain b h => simp [Piece.bytes, h.2.2]
                  | short b h => simp [Piece.bytes, ne_of_shortEscape h]
                  | quad a b c d h => simp [Piece.bytes, hrest]

/-- The text of a string, or the fault of one that is none. -/
def textOf (pieces : List Piece) : Except Fault String := keepText (pieces.flatMap Piece.bytes ++ [34])

theorem cutText_pieces (pieces : List Piece) (r : Bytes) :
    cutText (pieces.flatMap Piece.bytes ++ 34 :: r) = ⟨.text (textOf pieces), r⟩ := by
  rw [cutText, skipText_pieces]
  dsimp only
  rw [textOf, keepText, keepText, keepBytes_pieces pieces r]

/-! ### Numbers -/

/-- Whether a text cannot go on with a number in front of it: it is at its end, or begins with white space, a comma
or a closing bracket. -/
def Parts (r : Bytes) : Prop := ∀ b ∈ r.head?, isSpace b = true ∨ b = 44 ∨ b = 93 ∨ b = 125

theorem Parts.ne {r : Bytes} (h : Parts r) {b : UInt8} (hb : r.head? = some b) :
    isDigit b = false ∧ b ≠ 46 ∧ b ≠ 101 ∧ b ≠ 69 := by
  have hparts := h b hb
  simp only [isSpace, Bool.or_eq_true, beq_iff_eq] at hparts
  rcases hparts with (((rfl | rfl) | rfl) | rfl) | rfl | rfl | rfl
  all_goals decide

theorem Parts.stops {r : Bytes} (h : Parts r) : Stops r := fun b hb => by simp [(h.ne hb).1]

def Exponent.value (x : Exponent) : Int :=
  if x.sign = some true then -(Text.ofDigits x.digits : Int) else Text.ofDigits x.digits

/-- What a number is read as. -/
def Numeral.spelling (n : Numeral) : Spelling where
  negative := n.negative
  digits := Text.ofDigits (n.whole ++ n.fraction)
  places := n.fraction.length
  exponent := (n.exponent.map Exponent.value).getD 0
  plain := n.fraction.isEmpty && n.exponent.isNone

theorem readTail_of_parts (s : Spelling) {r : Bytes} (h : Parts r) : readTail s r = .ok (s, r) := by
  unfold readTail
  split
  · exact absurd rfl (h.ne rfl).2.2.1
  · exact absurd rfl (h.ne rfl).2.2.2
  · rfl

theorem readSign_signChars (sign : Option Bool) {cs : List Char} (hsome : cs ≠ [])
    (hdigits : ∀ c ∈ cs, c.isDigit = true) (r : Bytes) :
    readSign (encode (signChars sign) ++ (encode cs ++ r)) = (sign == some true, encode cs ++ r) := by
  match sign with
  | some true => rfl
  | some false => rfl
  | none =>
      obtain ⟨c, cs, rfl⟩ := List.exists_cons_of_ne_nil hsome
      obtain ⟨b, hb, hdigit, -⟩ := isDigit_encodeChar (hdigits c List.mem_cons_self)
      rw [Text.encode_cons, hb]
      change readSign (b :: (encode cs ++ r)) = _
      unfold readSign
      split
      · rename_i heq
        rw [(List.cons.inj heq).1] at hdigit
        exact absurd hdigit (by decide)
      · rename_i heq
        rw [(List.cons.inj heq).1] at hdigit
        exact absurd hdigit (by decide)
      · rfl

theorem readTail_exponent (s : Spelling) (x : Exponent) {r : Bytes} (h : Parts r) :
    readTail s (encode x.chars ++ r) = .ok ({ s with exponent := x.value, plain := false }, r) := by
  have hbytes : encode x.chars ++ r = (if x.capital then 69 else 101) ::
      (encode (signChars x.sign) ++ (encode x.digits ++ r)) := by
    rw [Exponent.chars, Text.encode_cons, Text.encode_append, List.append_assoc, List.append_assoc]
    cases x.capital <;> rfl
  have hrun := digitRun_of_digits x.isDigit h.stops
  have hsome : x.digits.length ≠ 0 := by simpa using x.nonempty
  have hread : readExponent s (encode (signChars x.sign) ++ (encode x.digits ++ r)) =
      .ok ({ s with exponent := x.value, plain := false }, r) := by
    rw [readExponent, readSign_signChars x.sign x.nonempty x.isDigit]
    simp only [hrun, if_neg hsome, Exponent.value, beq_iff_eq]
  rw [hbytes]
  cases x.capital with
  | true => exact hread
  | false => exact hread

theorem readTail_exponentChars (s : Spelling) (exponent : Option Exponent) {r : Bytes} (h : Parts r) :
    readTail s (encode (exponentChars exponent) ++ r) = .ok ({ s with
      exponent := (exponent.map Exponent.value).getD s.exponent, plain := s.plain && exponent.isNone }, r) := by
  cases exponent with
  | none => simpa [exponentChars] using readTail_of_parts s h
  | some x => simpa [exponentChars] using readTail_exponent s x h

/-- Neither an exponent nor the end of a number goes on with its digits. -/
theorem stops_exponentChars (exponent : Option Exponent) {r : Bytes} (h : Parts r) :
    Stops (encode (exponentChars exponent) ++ r) ∧ (encode (exponentChars exponent) ++ r).head? ≠ some 46 := by
  cases exponent with
  | none =>
      rw [exponentChars, Text.encode_nil, List.nil_append]
      exact ⟨h.stops, fun hhead => (h.ne hhead).2.1 rfl⟩
  | some x => cases hx : x.capital <;> simp [exponentChars, Exponent.chars, hx, Stops, encodeChar, isDigit]

/-- A number is read up to where it ends. -/
theorem readSpelling_magnitude (n : Numeral) {r : Bytes} (h : Parts r) :
    readSpelling n.negative (encode n.magnitude ++ r) = .ok (n.spelling, r) := by
  obtain ⟨negative, whole, fraction, exponent, hwhole, hfraction⟩ := n
  obtain ⟨hstops, hpoint⟩ := stops_exponentChars exponent h
  rw [Numeral.magnitude, Text.encode_append, List.append_assoc]
  cases fraction with
  | nil =>
      rw [fractionChars, List.append_nil, readSpelling_whole negative hwhole hstops hpoint,
        readTail_exponentChars _ _ h]
      simp [Numeral.spelling]
  | cons c cs =>
      rw [fractionChars, readSpelling_point negative hwhole (List.cons_ne_nil c cs) hfraction hstops,
        readTail_exponentChars _ _ h]
      simp [Numeral.spelling]

/-! ### Texts -/

namespace Lexeme

/-- The token that a lexeme is cut off as. -/
def token : Lexeme → Token
  | opening bracket => .opening bracket
  | closing bracket => .closing bracket
  | comma => .comma
  | colon => .colon
  | null => .null
  | boolean value => .boolean value
  | number n => .number n.spelling.value
  | text pieces => .text (textOf pieces)

/-- Whether one lexeme may follow another one without white space between them. -/
def Borders : Lexeme → Lexeme → Prop
  | number _, closing _ => True
  | number _, comma => True
  | number _, _ => False
  | _, _ => True

end Lexeme

/-- A token that is cut off at a byte. -/
theorem tokens_of_cut {b : UInt8} {s r : Bytes} {t : Token} (hspace : isSpace b = false) (h : cut b s = ⟨t, r⟩) :
    tokens (b :: s) = t :: tokens r := by
  rw [tokens, if_neg (by simp [hspace]), h]

/-- A lexeme is cut off whole, whatever follows it; a number has to end there. -/
theorem tokens_lexeme (l : Lexeme) {r : Bytes} (h : ∀ n, l = .number n → Parts r) :
    tokens (l.bytes ++ r) = l.token :: tokens r := by
  cases l with
  | opening bracket => cases bracket <;> exact tokens_of_cut (by decide) rfl
  | closing bracket => cases bracket <;> exact tokens_of_cut (by decide) rfl
  | comma => exact tokens_of_cut (by decide) rfl
  | colon => exact tokens_of_cut (by decide) rfl
  | null => exact tokens_of_cut (by decide) rfl
  | boolean value => cases value <;> exact tokens_of_cut (by decide) rfl
  | number n => exact tokens_number (readSpelling_magnitude n (h n rfl))
  | text pieces =>
      have hbytes : (Lexeme.text pieces).bytes ++ r = 34 :: (pieces.flatMap Piece.bytes ++ 34 :: r) := by
        simp [Lexeme.bytes]
      rw [hbytes]
      exact tokens_of_cut (by decide) (cutText_pieces pieces r)

theorem Lays.parts {ls : List Lexeme} {s : Bytes} (h : Lays ls s) {n : Numeral}
    (hborders : ∀ l ∈ ls.head?, Lexeme.Borders (.number n) l) : Parts s := by
  cases h with
  | nil => simp [Parts]
  | space hspace _ =>
      intro b hb
      obtain rfl := Option.some.inj hb
      exact .inl hspace
  | lexeme l hs =>
      have hl := hborders l rfl
      cases l with
      | closing bracket => cases bracket <;> simp [Parts, Lexeme.bytes, encodeChar]
      | comma => simp [Parts, Lexeme.bytes, encodeChar]
      | _ => exact hl.elim

/-- A text in which no number runs into what follows it is cut into its lexemes. -/
theorem Lays.tokens_eq {ls : List Lexeme} {s : Bytes} (h : Lays ls s) (hborders : ls.IsChain Lexeme.Borders) :
    tokens s = ls.map Lexeme.token := by
  induction h with
  | nil => exact tokens_nil
  | space hspace _ ih => rw [tokens_space hspace, ih hborders]
  | lexeme l hs ih =>
      obtain ⟨hhead, htail⟩ := List.isChain_cons.1 hborders
      have hparts : ∀ n, l = .number n → Parts _ := fun n hn => hs.parts (hn ▸ hhead)
      rw [tokens_lexeme l hparts, ih htail, List.map_cons]

theorem Phrase.borders {c : Category} {ls : List Lexeme} (h : Phrase c ls) : ls.IsChain Lexeme.Borders := by
  have hmark : ∀ {l l' : Lexeme}, l' = .comma ∨ (∃ b, l' = .closing b) → l.Borders l' := by
    rintro l l' (rfl | ⟨b, rfl⟩) <;> cases l <;> trivial
  induction h with
  | scalar h => exact List.isChain_singleton _
  | empty bracket => exact List.isChain_pair.2 trivial
  | enclosed h ih =>
      refine List.isChain_cons.2 ⟨fun _ _ => trivial, List.isChain_append.2 ⟨ih, List.isChain_singleton _, ?_⟩⟩
      intro l hl l' hl'
      exact hmark (.inr ⟨_, (Option.some.inj hl').symm⟩)
  | element _ ih => exact ih
  | member key h ih => exact List.isChain_cons.2 ⟨fun _ _ => trivial, List.isChain_cons.2 ⟨fun _ _ => trivial, ih⟩⟩
  | more h h' ih ih' =>
      refine List.isChain_append.2 ⟨ih, List.isChain_cons.2 ⟨fun _ _ => trivial, ih'⟩, ?_⟩
      intro l hl l' hl'
      exact hmark (.inl (Option.some.inj hl').symm)

/-- A text of the grammar is cut into its lexemes, whatever white space is between them. -/
theorem Phrase.tokens_eq {c : Category} {ls : List Lexeme} {s : Bytes} (h : Phrase c ls) (hlays : Lays ls s) :
    tokens s = ls.map Lexeme.token :=
  hlays.tokens_eq h.borders

end UsageLedger.Json
