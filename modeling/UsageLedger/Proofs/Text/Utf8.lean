import Mathlib.Data.List.TakeWhile
import UsageLedger.Text.Utf8

/-! Reading UTF-8 gives back the text that was encoded. A character is a lead byte with as many followers as
the lead byte announces; reading takes exactly these, so characters are read one by one whatever comes
after them. -/

namespace UsageLedger.Text

theorem toNat_ofNat {n : Nat} (h : n < 256) : (UInt8.ofNat n).toNat = n := UInt8.toNat_ofNat_of_lt' h

theorem width_eq (b : UInt8) : width b =
    if b.toNat < 0x80 then 1 else if 0xC2 ≤ b.toNat ∧ b.toNat ≤ 0xDF then 2
    else if 0xE0 ≤ b.toNat ∧ b.toNat ≤ 0xEF then 3
    else if 0xF0 ≤ b.toNat ∧ b.toNat ≤ 0xF4 then 4 else 0 := by
  simp [width, UInt8.lt_iff_toNat_lt, UInt8.le_iff_toNat_le]

theorem isTail_iff {b : UInt8} : isTail b = true ↔ 0x80 ≤ b.toNat ∧ b.toNat ≤ 0xBF := by
  simp [isTail, UInt8.le_iff_toNat_le]

theorem isSecond_iff {lead b : UInt8} : isSecond lead b = true ↔
    0x80 ≤ b.toNat ∧ b.toNat ≤ 0xBF ∧ (lead.toNat = 0xE0 → 0xA0 ≤ b.toNat) ∧ (lead.toNat = 0xED → b.toNat ≤ 0x9F) ∧
      (lead.toNat = 0xF0 → 0x90 ≤ b.toNat) ∧ (lead.toNat = 0xF4 → b.toNat ≤ 0x8F) := by
  simp only [isSecond, isTail, beq_iff_eq, ← UInt8.toNat_inj, UInt8.le_iff_toNat_le]
  simp
  repeat' split
  all_goals omega

theorem codePoint_eq (lead : UInt8) (rest : Bytes) : codePoint lead rest =
    (rest.map UInt8.toNat).foldl (fun n b => 64 * n + b % 64)
      (if lead.toNat < 0x80 then lead.toNat else if lead.toNat < 0xE0 then lead.toNat % 32
        else if lead.toNat < 0xF0 then lead.toNat % 16 else lead.toNat % 8) := by
  simp [codePoint, UInt8.lt_iff_toNat_lt, List.foldl_map]

/-- A well-formed character: a lead byte with as many followers as it is wide, the first of them one that
can come second. -/
theorem pieces_of_followers {lead : UInt8} {rest : Bytes} (tail : Bytes) (hwidth : 1 + tail.length = width lead)
    (hsecond : ∀ b, tail.head? = some b → isSecond lead b = true) (htail : ∀ b ∈ tail.tail, isTail b = true) :
    pieces (lead :: tail ++ rest) = some (Char.ofNat (codePoint lead tail)) :: pieces rest := by
  have hfollowers : followers lead (tail ++ rest) = tail.length := by
    cases tail with
    | nil =>
        have hone : ¬2 ≤ width lead := by simp at hwidth; omega
        cases rest <;> simp [followers, hone]
    | cons b more =>
        have htwo : 2 ≤ width lead := by simp at hwidth; omega
        have hmore : width lead - 2 = more.length := by simp at hwidth; omega
        have hall : more.takeWhile isTail = more := List.takeWhile_eq_self_iff.2 htail
        simp [followers, htwo, hsecond b rfl, hmore, hall, Nat.add_comm]
  rw [List.cons_append, pieces, hfollowers]
  simp [hwidth]

/-- Reading the bytes of a character gives the character back. -/
theorem pieces_encodeChar (c : Char) (rest : Bytes) :
    pieces (encodeChar c ++ rest) = some c :: pieces rest := by
  have hvalid : c.toNat < 0xD800 ∨ 0xDFFF < c.toNat ∧ c.toNat < 0x110000 := c.valid
  have hback : ∀ {n}, n = c.toNat → Char.ofNat n = c := fun h => h ▸ Char.ofNat_toNat c
  unfold encodeChar
  dsimp only
  split
  · rename_i h
    have hlead := toNat_ofNat (show c.toNat < 256 by omega)
    rw [pieces_of_followers [], hback]
    · rw [codePoint_eq, hlead, if_pos h]
      rfl
    · rw [width_eq, hlead, if_pos h]
      rfl
    · simp
    · simp
  · split
    · rename_i h₁ h₂
      have hlead := toNat_ofNat (show 0xC0 + c.toNat / 64 < 256 by omega)
      have hsecond := toNat_ofNat (show 0x80 + c.toNat % 64 < 256 by omega)
      rw [pieces_of_followers [_], hback]
      · rw [codePoint_eq, hlead, if_neg (by omega), if_pos (by omega)]
        simp only [List.map_cons, List.map_nil, List.foldl_cons, List.foldl_nil, hsecond]
        omega
      · rw [width_eq, hlead, if_neg (by omega), if_pos (by omega)]
        rfl
      · simp only [List.head?_cons, Option.some.injEq, forall_eq', isSecond_iff, hlead, hsecond]
        omega
      · simp
    · split
      · rename_i h₁ h₂ h₃
        have hlead := toNat_ofNat (show 0xE0 + c.toNat / 4096 < 256 by omega)
        have hsecond := toNat_ofNat (show 0x80 + c.toNat / 64 % 64 < 256 by omega)
        have hthird := toNat_ofNat (show 0x80 + c.toNat % 64 < 256 by omega)
        rw [pieces_of_followers [_, _], hback]
        · rw [codePoint_eq, hlead, if_neg (by omega), if_neg (by omega), if_pos (by omega)]
          simp only [List.map_cons, List.map_nil, List.foldl_cons, List.foldl_nil, hsecond, hthird]
          omega
        · rw [width_eq, hlead, if_neg (by omega), if_neg (by omega), if_pos (by omega)]
          rfl
        · simp only [List.head?_cons, Option.some.injEq, forall_eq', isSecond_iff, hlead, hsecond]
          omega
        · simp only [List.tail_cons, List.mem_singleton, forall_eq, isTail_iff, hthird]
          omega
      · rename_i h₁ h₂ h₃
        have hlead := toNat_ofNat (show 0xF0 + c.toNat / 262144 < 256 by omega)
        have hsecond := toNat_ofNat (show 0x80 + c.toNat / 4096 % 64 < 256 by omega)
        have hthird := toNat_ofNat (show 0x80 + c.toNat / 64 % 64 < 256 by omega)
        have hfourth := toNat_ofNat (show 0x80 + c.toNat % 64 < 256 by omega)
        rw [pieces_of_followers [_, _, _], hback]
        · rw [codePoint_eq, hlead, if_neg (by omega), if_neg (by omega), if_neg (by omega)]
          simp only [List.map_cons, List.map_nil, List.foldl_cons, List.foldl_nil, hsecond, hthird, hfourth]
          omega
        · rw [width_eq, hlead, if_neg (by omega), if_neg (by omega), if_neg (by omega), if_pos (by omega)]
          rfl
        · simp only [List.head?_cons, Option.some.injEq, forall_eq', isSecond_iff, hlead, hsecond]
          omega
        · simp only [List.tail_cons, List.mem_cons, List.not_mem_nil, or_false, forall_eq_or_imp, forall_eq,
            isTail_iff, hthird, hfourth]
          omega

theorem pieces_encode (cs : List Char) : pieces (encode cs) = cs.map some := by
  induction cs with
  | nil => simp
  | cons c cs ih => rw [encode_cons, pieces_encodeChar, ih, List.map_cons]

/-- Reading what was encoded gives the text back. -/
theorem decode?_encode (cs : List Char) : decode? (encode cs) = some cs := by
  rw [decode?, pieces_encode]
  induction cs with
  | nil => rfl
  | cons c cs ih =>
      rw [List.map_cons, List.mapM_cons, ih]
      rfl

end UsageLedger.Text
