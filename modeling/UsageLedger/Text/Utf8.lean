/-! UTF-8. A text is encoded one character at a time; a byte string is cut into pieces, each a
character or a broken sequence. Reading strictly refuses a broken piece, and reading leniently puts
U+FFFD in its place, so what a lenient reader shows is as long as the longest starts of characters
allow. -/

namespace UsageLedger.Text

/-- A string of bytes. -/
abbrev Bytes := List UInt8

def encodeChar (c : Char) : Bytes :=
  let n := c.toNat
  if n < 0x80 then [UInt8.ofNat n]
  else if n < 0x800 then [UInt8.ofNat (0xC0 + n / 64), UInt8.ofNat (0x80 + n % 64)]
  else if n < 0x10000 then
    [UInt8.ofNat (0xE0 + n / 4096), UInt8.ofNat (0x80 + n / 64 % 64), UInt8.ofNat (0x80 + n % 64)]
  else
    [UInt8.ofNat (0xF0 + n / 262144), UInt8.ofNat (0x80 + n / 4096 % 64),
      UInt8.ofNat (0x80 + n / 64 % 64), UInt8.ofNat (0x80 + n % 64)]

def encode (cs : List Char) : Bytes := cs.flatMap encodeChar

/-- Whether a byte can continue a character. -/
def isTail (b : UInt8) : Bool := 0x80 ≤ b && b ≤ 0xBF

/-- How many bytes the character has that a byte opens; none for a byte that opens no character. -/
def width (lead : UInt8) : Nat :=
  if lead < 0x80 then 1
  else if 0xC2 ≤ lead && lead ≤ 0xDF then 2
  else if 0xE0 ≤ lead && lead ≤ 0xEF then 3
  else if 0xF0 ≤ lead && lead ≤ 0xF4 then 4
  else 0

/-- Whether a byte can come second after a lead byte. The narrower ranges keep out overlong forms,
surrogates and numbers beyond U+10FFFF. -/
def isSecond (lead b : UInt8) : Bool :=
  if lead == 0xE0 then 0xA0 ≤ b && b ≤ 0xBF
  else if lead == 0xED then 0x80 ≤ b && b ≤ 0x9F
  else if lead == 0xF0 then 0x90 ≤ b && b ≤ 0xBF
  else if lead == 0xF4 then 0x80 ≤ b && b ≤ 0x8F
  else isTail b

/-- How many of the bytes after a lead byte belong to its character. -/
def followers (lead : UInt8) (rest : Bytes) : Nat :=
  match rest with
  | [] => 0
  | b :: more =>
    if 2 ≤ width lead && isSecond lead b then
      1 + ((more.take (width lead - 2)).takeWhile isTail).length
    else 0

/-- The code point that a lead byte and its followers spell. -/
def codePoint (lead : UInt8) (rest : Bytes) : Nat :=
  let top :=
    if lead < 0x80 then lead.toNat
    else if lead < 0xE0 then lead.toNat % 32
    else if lead < 0xF0 then lead.toNat % 16
    else lead.toNat % 8
  rest.foldl (fun n b => 64 * n + b.toNat % 64) top

/-- Cuts a byte string into characters and broken sequences (`none`). A broken sequence is a lead
byte with as many followers as fit, or a byte that opens nothing. -/
def pieces : Bytes → List (Option Char)
  | [] => []
  | lead :: rest =>
    let taken := followers lead rest
    let piece :=
      if 1 + taken = width lead then some (Char.ofNat (codePoint lead (rest.take taken))) else none
    piece :: pieces (rest.drop taken)
termination_by bytes => bytes.length
decreasing_by simp only [List.length_drop, List.length_cons]; omega

def decode? (bytes : Bytes) : Option (List Char) := (pieces bytes).mapM id

def decodeLenient (bytes : Bytes) : List Char :=
  (pieces bytes).map fun piece => piece.getD '\uFFFD'

@[simp] theorem encode_nil : encode [] = [] := rfl

@[simp] theorem encode_cons (c : Char) (cs : List Char) : encode (c :: cs) = encodeChar c ++ encode cs := by
  simp [encode]

@[simp] theorem encode_append (s t : List Char) : encode (s ++ t) = encode s ++ encode t := by
  simp [encode]

@[simp] theorem pieces_nil : pieces [] = [] := by rw [pieces]

end UsageLedger.Text
