import UsageLedger.Text.Quoted
import UsageLedger.Power

/-! Universally unique identifiers: 128 bits, written as 32 hexadecimal digits in five groups. Reading
takes either case and also the bare digits, braces around the groups, and the URN form. -/

namespace UsageLedger

/-- An identifier of 128 bits. -/
@[ext] structure Uuid where
  bits : BitVec 128
  deriving DecidableEq, Repr

namespace Uuid

/-- The identifier with no bit set. -/
def nil : Uuid := ⟨0⟩

instance : Inhabited Uuid := ⟨nil⟩

/-- The order of the identifiers as numbers, which is also that of their texts. -/
def compare (a b : Uuid) : Ordering := Ord.compare a.bits.toNat b.bits.toNat

/-- The lowest `count` hexadecimal digits of a number, most significant first. -/
def hexRun (count n : Nat) : List Char :=
  match count with
  | 0 => []
  | k + 1 => hexRun k (n / 16) ++ [Text.hexChar (n % 16)]

def toText (u : Uuid) : List Char :=
  let n := u.bits.toNat
  hexRun 8 (n / 2 ^ 96) ++ '-' :: hexRun 4 (n / 2 ^ 80) ++ '-' :: hexRun 4 (n / 2 ^ 64) ++
    '-' :: hexRun 4 (n / 2 ^ 48) ++ '-' :: hexRun 12 n

/-- The value of a hexadecimal digit in either case. -/
def hexValue? (c : Char) : Option Nat :=
  if '0' ≤ c ∧ c ≤ '9' then some (c.toNat - 48)
  else if 'a' ≤ c ∧ c ≤ 'f' then some (c.toNat - 87)
  else if 'A' ≤ c ∧ c ≤ 'F' then some (c.toNat - 55)
  else none

/-- The number that hexadecimal digits denote. -/
def ofHex? (cs : List Char) : Option Nat :=
  cs.foldlM (fun n c => (hexValue? c).map (16 * n + ·)) 0

/-- Reads 32 digits without groups. -/
def ofBare? (cs : List Char) : Option Uuid :=
  if cs.length = 32 then (ofHex? cs).map fun n => ⟨BitVec.ofNat 128 n⟩ else none

/-- Reads five groups with hyphens between them. -/
def ofGroups? (cs : List Char) : Option Uuid :=
  let hyphens := [cs[8]?, cs[13]?, cs[18]?, cs[23]?]
  if cs.length = 36 ∧ hyphens.all (· == some '-') then
    ofBare? (cs.take 8 ++ (cs.drop 9).take 4 ++ (cs.drop 14).take 4 ++ (cs.drop 19).take 4 ++ cs.drop 24)
  else none

/-- Reads an identifier in any of its forms. -/
def ofText? (cs : List Char) : Option Uuid :=
  match cs.length with
  | 32 => ofBare? cs
  | 36 => ofGroups? cs
  | 38 =>
    if cs.head? = some '\x7b' ∧ cs.getLast? = some '\x7d' then ofGroups? (cs.drop 1).dropLast else none
  | 45 =>
    if (cs.take 9).map Char.toLower = "urn:uuid:".toList then ofGroups? (cs.drop 9) else none
  | _ => none

end Uuid

end UsageLedger
