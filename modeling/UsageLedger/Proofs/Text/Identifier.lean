import UsageLedger.Uuid

/-! Identifiers as text. Different identifiers have different texts, each text is read back, and the texts are
in the order of the identifiers as numbers. The five groups are the runs of one number's digits, so the text
without its hyphens is a single run. -/

namespace UsageLedger

namespace Text

theorem hexChar_injective {a b : Nat} (ha : a < 16) (hb : b < 16) (h : hexChar a = hexChar b) : a = b := by
  have hsmall : ∀ i j : Fin 16, hexChar i = hexChar j → i = j := by decide
  exact congrArg Fin.val (hsmall ⟨a, ha⟩ ⟨b, hb⟩ h)

end Text

namespace Uuid

/-! ### Runs of digits -/

theorem length_hexRun (count n : Nat) : (hexRun count n).length = count := by
  induction count generalizing n with
  | zero => rfl
  | succ count ih => rw [hexRun, List.length_append, ih, List.length_singleton]

/-- A run of digits shows the number up to a power of sixteen. -/
theorem mod_eq_of_hexRun_eq {count n m : Nat} (h : hexRun count n = hexRun count m) :
    n % 16 ^ count = m % 16 ^ count := by
  induction count generalizing n m with
  | zero => rw [Nat.pow_zero, Nat.mod_one, Nat.mod_one]
  | succ count ih =>
      rw [hexRun, hexRun] at h
      obtain ⟨hinit, hlast⟩ := List.append_inj h (by rw [length_hexRun, length_hexRun])
      have hdigit := Text.hexChar_injective (Nat.mod_lt n (by decide)) (Nat.mod_lt m (by decide))
        (List.cons.inj hlast).1
      rw [Nat.pow_succ', Nat.mod_mul, Nat.mod_mul, hdigit, ih hinit]

theorem hexRun_add (a b n : Nat) : hexRun (a + b) n = hexRun a (n / 16 ^ b) ++ hexRun b n := by
  induction b generalizing n with
  | zero => simp [hexRun]
  | succ b ih =>
      rw [← Nat.add_assoc, hexRun, hexRun, ih, Nat.div_div_eq_div_mul, Nat.pow_succ', List.append_assoc]

theorem hexValue?_hexChar {d : Nat} (h : d < 16) : hexValue? (Text.hexChar d) = some d := by
  have hsmall : ∀ i : Fin 16, hexValue? (Text.hexChar i) = some i.val := by decide
  exact hsmall ⟨d, h⟩

/-- Reading a run onto a number read so far. -/
theorem foldlM_hexRun (count n start : Nat) :
    (hexRun count n).foldlM (fun n c => (hexValue? c).map (16 * n + ·)) start =
      some (16 ^ count * start + n % 16 ^ count) := by
  induction count generalizing n with
  | zero => simp [hexRun, Nat.mod_one]
  | succ count ih =>
      rw [hexRun, List.foldlM_append, ih]
      simp only [Option.bind_eq_bind, Option.bind_some, List.foldlM_cons, List.foldlM_nil,
        hexValue?_hexChar (Nat.mod_lt n (by decide : 0 < 16)), Option.map_some, Option.pure_def]
      rw [Nat.pow_succ', Nat.mod_mul, Nat.mul_add, Nat.mul_assoc, Nat.add_assoc, Nat.add_comm (n % 16)]

/-! ### Texts -/

theorem length_toText (u : Uuid) : u.toText.length = 36 := by
  simp only [toText, List.length_append, List.length_cons, length_hexRun]

theorem toText_injective {u v : Uuid} (h : u.toText = v.toText) : u = v := by
  have hlength := length_hexRun
  unfold toText at h
  simp only [List.append_assoc] at h
  obtain ⟨h₁, h⟩ := List.append_inj h (by rw [hlength, hlength])
  obtain ⟨h₂, h⟩ := List.append_inj (List.cons.inj h).2 (by rw [hlength, hlength])
  obtain ⟨h₃, h⟩ := List.append_inj (List.cons.inj h).2 (by rw [hlength, hlength])
  obtain ⟨h₄, h⟩ := List.append_inj (List.cons.inj h).2 (by rw [hlength, hlength])
  have h₅ := (List.cons.inj h).2
  have hbits : u.bits.toNat = v.bits.toNat := by
    have hu := u.bits.isLt
    have hv := v.bits.isLt
    have e₁ := mod_eq_of_hexRun_eq h₁
    have e₂ := mod_eq_of_hexRun_eq h₂
    have e₃ := mod_eq_of_hexRun_eq h₃
    have e₄ := mod_eq_of_hexRun_eq h₄
    have e₅ := mod_eq_of_hexRun_eq h₅
    omega
  exact Uuid.ext (BitVec.eq_of_toNat_eq hbits)

/-- The bare digits of an identifier are read. -/
theorem ofBare?_hexRun (u : Uuid) : ofBare? (hexRun 32 u.bits.toNat) = some u := by
  have hread := foldlM_hexRun 32 u.bits.toNat 0
  rw [Nat.mul_zero, Nat.zero_add, Nat.mod_eq_of_lt (by simpa using u.bits.isLt)] at hread
  rw [ofBare?, if_pos (length_hexRun _ _), ofHex?, hread]
  simp

/-- Groups of the right lengths with hyphens between them are read as the bare digits. -/
theorem ofGroups?_of_lengths {a b c d e : List Char} (ha : a.length = 8) (hb : b.length = 4)
    (hc : c.length = 4) (hd : d.length = 4) (he : e.length = 12) :
    ofGroups? (a ++ '-' :: b ++ '-' :: c ++ '-' :: d ++ '-' :: e) = ofBare? (a ++ b ++ c ++ d ++ e) := by
  have hlength : (a ++ '-' :: b ++ '-' :: c ++ '-' :: d ++ '-' :: e).length = 36 := by
    simp [ha, hb, hc, hd, he]
  rw [ofGroups?]
  simp only [List.append_assoc, List.cons_append] at hlength ⊢
  have hhyphens : ([8, 13, 18, 23].map fun i =>
      (a ++ '-' :: (b ++ '-' :: (c ++ '-' :: (d ++ '-' :: e))))[i]?).all (· == some '-') = true := by
    simp [List.getElem?_append, ha, hb, hc, hd]
  rw [if_pos ⟨hlength, hhyphens⟩]
  simp (disch := omega) [List.drop_append, List.drop_of_length_le, ha, hb, hc, hd]

/-- The bare digits are those of the five groups. -/
theorem hexRun_groups (n : Nat) : hexRun 32 n = hexRun 8 (n / 2 ^ 96) ++
    (hexRun 4 (n / 2 ^ 80) ++ (hexRun 4 (n / 2 ^ 64) ++ (hexRun 4 (n / 2 ^ 48) ++ hexRun 12 n))) := by
  rw [hexRun_add 20 12, hexRun_add 16 4, hexRun_add 12 4, hexRun_add 8 4]
  simp only [Nat.div_div_eq_div_mul, Nat.reducePow, Nat.reduceMul, List.append_assoc]

/-- The text of an identifier is read back. -/
theorem ofText?_toText (u : Uuid) : ofText? u.toText = some u := by
  have hgroups : ofGroups? u.toText = some u := by
    unfold toText
    dsimp only
    rw [ofGroups?_of_lengths (length_hexRun _ _) (length_hexRun _ _) (length_hexRun _ _) (length_hexRun _ _)
      (length_hexRun _ _)]
    simp only [List.append_assoc]
    rw [← hexRun_groups, ofBare?_hexRun]
  rw [ofText?, length_toText]
  exact hgroups

/-! ### Order -/

/-- Texts with beginnings of one length are in the order of the beginnings, and where these are equal in the
order of the rest. -/
theorem append_lt_append_iff {a b c d : List Char} (h : a.length = b.length) :
    a ++ c < b ++ d ↔ a < b ∨ a = b ∧ c < d := by
  induction a generalizing b with
  | nil =>
      obtain rfl := List.length_eq_zero_iff.1 h.symm
      simp
  | cons x xs ih =>
      cases b with
      | nil => simp at h
      | cons y ys =>
          rw [List.cons_append, List.cons_append, List.cons_lt_cons_iff, List.cons_lt_cons_iff,
            ih (Nat.succ.inj h), List.cons.injEq]
          grind

theorem hexChar_lt_iff {i j : Nat} (hi : i < 16) (hj : j < 16) : Text.hexChar i < Text.hexChar j ↔ i < j := by
  have hsmall : ∀ i j : Fin 16, Text.hexChar i < Text.hexChar j ↔ i.val < j.val := by decide
  exact hsmall ⟨i, hi⟩ ⟨j, hj⟩

theorem hexRun_eq_iff {count n m : Nat} : hexRun count n = hexRun count m ↔ n % 16 ^ count = m % 16 ^ count := by
  refine ⟨mod_eq_of_hexRun_eq, fun h => ?_⟩
  induction count generalizing n m with
  | zero => rfl
  | succ count ih =>
      rw [Nat.pow_succ', Nat.mod_mul, Nat.mod_mul] at h
      have hlast : n % 16 = m % 16 := by omega
      have hinit : n / 16 % 16 ^ count = m / 16 % 16 ^ count := by omega
      rw [hexRun, hexRun, ih hinit, hlast]

/-- Runs of digits are in the order of the numbers that they show. -/
theorem hexRun_lt_iff {count n m : Nat} : hexRun count n < hexRun count m ↔ n % 16 ^ count < m % 16 ^ count := by
  induction count generalizing n m with
  | zero => simp [hexRun, Nat.mod_one]
  | succ count ih =>
      have hlast := hexChar_lt_iff (Nat.mod_lt n (by decide : 0 < 16)) (Nat.mod_lt m (by decide : 0 < 16))
      rw [hexRun, hexRun, append_lt_append_iff (by rw [length_hexRun, length_hexRun]), ih, hexRun_eq_iff,
        List.cons_lt_cons_iff, hlast, Nat.pow_succ', Nat.mod_mul, Nat.mod_mul]
      simp only [List.not_lt_nil, and_false, or_false]
      omega

/-- The texts of identifiers are in the order of the identifiers. -/
theorem toText_lt_iff {u v : Uuid} : u.toText < v.toText ↔ u.bits.toNat < v.bits.toNat := by
  have hrun : hexRun 32 u.bits.toNat < hexRun 32 v.bits.toNat ↔ u.bits.toNat < v.bits.toNat := by
    rw [hexRun_lt_iff, Nat.mod_eq_of_lt (by simpa using u.bits.isLt), Nat.mod_eq_of_lt (by simpa using v.bits.isLt)]
  have hhyphen : ¬ '-' < '-' := Char.lt_irrefl _
  -- both sides are in order when the first groups that differ are
  rw [← hrun, hexRun_groups, hexRun_groups v.bits.toNat]
  unfold toText
  simp only [List.append_assoc, List.cons_append]
  repeat rw [append_lt_append_iff (by rw [length_hexRun, length_hexRun])]
  simp only [List.cons_lt_cons_iff, hhyphen, false_or, true_and, append_lt_append_iff, length_hexRun]

theorem ofList_toText_le_iff {u v : Uuid} :
    String.ofList u.toText ≤ String.ofList v.toText ↔ u.bits.toNat ≤ v.bits.toNat := by
  change ¬(String.ofList v.toText).toList < (String.ofList u.toText).toList ↔ _
  rw [String.toList_ofList, String.toList_ofList, toText_lt_iff, Nat.not_lt]

end Uuid

end UsageLedger
