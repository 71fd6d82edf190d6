import Mathlib.Data.List.Induction
import UsageLedger.Text.Digits

/-! Numbers written in digits are read back: digits without leading zeros, digits led by zeros up to a width,
and whole numbers with a sign. -/

namespace UsageLedger.Text

/-! ### Digits -/

theorem digits_ne_nil (n : Nat) : digits n ≠ [] := by
  rw [digits]
  split
  · exact List.cons_ne_nil _ _
  · exact List.append_ne_nil_of_right_ne_nil _ (List.cons_ne_nil _ _)

theorem length_digits_pos (n : Nat) : 0 < (digits n).length := List.length_pos_iff.2 (digits_ne_nil n)

/-- A number of at most `k` digits. -/
theorem length_digits_le {n k : Nat} (hk : 0 < k) (h : n < 10 ^ k) : (digits n).length ≤ k := by
  induction k generalizing n with
  | zero => omega
  | succ k ih =>
      rw [digits]
      split
      · simp
      · rename_i hn
        have hshorter : n / 10 < 10 ^ k := by rw [Nat.pow_succ] at h; omega
        have hpos : 0 < k := Nat.pos_of_ne_zero fun hzero => by
          rw [hzero, Nat.pow_zero] at hshorter
          omega
        have := ih hpos hshorter
        simp only [List.length_append, List.length_singleton]
        omega

theorem lt_pow_length_digits (n : Nat) : n < 10 ^ (digits n).length := by
  induction n using Nat.strongRecOn with
  | ind n ih =>
      rw [digits]
      split
      · simpa
      · rename_i hn
        have := ih (n / 10) (by omega)
        rw [List.length_append, List.length_singleton, Nat.pow_succ]
        omega

/-- A positive number has no leading zero. -/
theorem pow_length_digits_le {n : Nat} (h : 0 < n) : 10 ^ ((digits n).length - 1) ≤ n := by
  refine Nat.not_lt.1 fun hlt => ?_
  by_cases hone : (digits n).length - 1 = 0
  · rw [hone, Nat.pow_zero] at hlt
    omega
  · have := length_digits_le (Nat.pos_of_ne_zero hone) hlt
    omega

/-- Only zero is written with a leading zero. -/
theorem eq_zero_of_head?_digits {n : Nat} (h : (digits n).head? = some '0') : n = 0 := by
  induction n using Nat.strongRecOn with
  | ind n ih =>
      rw [digits] at h
      split at h
      · rename_i hn
        have hsmall : ∀ k : Fin 10, digitChar k = '0' → k.val = 0 := by decide
        exact hsmall ⟨n, hn⟩ (Option.some.inj h)
      · rename_i hn
        rw [List.head?_append, Option.or_of_isSome (by simpa using digits_ne_nil _)] at h
        have := ih (n / 10) (by omega) h
        omega

/-- Whether digits can stand in front of a point: at least one, and no zero that leads others. -/
structure IsWhole (cs : List Char) : Prop where
  nonempty : cs ≠ []
  isDigit : ∀ c ∈ cs, c.isDigit = true
  leading : cs.head? = some '0' → cs = ['0']

theorem isWhole_digits (n : Nat) : IsWhole (digits n) where
  nonempty := digits_ne_nil n
  isDigit := isDigit_of_mem_digits n
  leading h := by
    rw [eq_zero_of_head?_digits h, digits]
    rfl

theorem digitChar_digitValue {c : Char} (h : c.isDigit = true) : digitChar (digitValue c) = c := by
  have hvalue : 48 + (c.toNat - 48) = c.toNat := by
    have : 48 ≤ c.toNat := (Char.isDigit_iff_toNat.1 h).1
    omega
  rw [digitChar, digitValue, hvalue, Char.ofNat_toNat]

theorem digitValue_lt {c : Char} (h : c.isDigit = true) : digitValue c < 10 := by
  have : c.toNat ≤ 57 := (Char.isDigit_iff_toNat.1 h).2
  unfold digitValue
  omega

/-- Digits without a leading zero are written for the number that they denote. -/
theorem IsWhole.digits_ofDigits {cs : List Char} (h : IsWhole cs) : digits (ofDigits cs) = cs := by
  induction cs using List.reverseRecOn with
  | nil => exact absurd rfl h.nonempty
  | append_singleton ds c ih =>
      have hc : c.isDigit = true := h.isDigit c (by simp)
      have hlast := digitValue_lt hc
      rcases eq_or_ne ds [] with rfl | hds
      · rw [ofDigits_concat, ofDigits_nil, digits, if_pos (by omega), List.nil_append, Nat.mul_zero, Nat.zero_add,
          digitChar_digitValue hc]
      · have hhead : ds.head? ≠ some '0' := fun hzero => by
          have hlength := congrArg List.length (h.leading (by rw [List.head?_append, hzero, Option.some_or]))
          have := List.length_pos_iff.2 hds
          simp only [List.length_append, List.length_singleton] at hlength
          omega
        have hfront : digits (ofDigits ds) = ds :=
          ih ⟨hds, fun d hd => h.isDigit d (List.mem_append_left _ hd), fun hzero => absurd hzero hhead⟩
        have hpos : ofDigits ds ≠ 0 := fun hzero => hhead (by rw [← hfront, hzero, digits]; rfl)
        rw [ofDigits_concat, digits, if_neg (by omega), show (10 * ofDigits ds + digitValue c) / 10 = ofDigits ds by omega,
          show (10 * ofDigits ds + digitValue c) % 10 = digitValue c by omega, hfront, digitChar_digitValue hc]

theorem natural?_digits (n : Nat) : natural? (digits n) = some n := by
  rw [natural?, if_pos ⟨digits_ne_nil n, List.all_eq_true.2 (isDigit_of_mem_digits n)⟩, ofDigits_digits]

theorem splitSign_of_head {cs : List Char} (h : ∀ c ∈ cs.head?, c.isDigit = true) :
    splitSign cs = (false, cs) := by
  unfold splitSign
  split
  · exact absurd (h '-' rfl) (by decide)
  · exact absurd (h '+' rfl) (by decide)
  · rfl

theorem splitSign_digits (n : Nat) : splitSign (digits n) = (false, digits n) :=
  splitSign_of_head fun c hc => isDigit_of_mem_digits n c (List.mem_of_head? hc)

/-! ### Whole numbers with a sign -/

theorem integer64?_of_split {cs body : List Char} {negative : Bool} {m : Nat}
    (hsplit : splitSign cs = (negative, body)) (hbody : natural? body = some m)
    (hlow : -(2 ^ 63) ≤ if negative then -(m : Int) else m)
    (hhigh : (if negative then -(m : Int) else m) < 2 ^ 63) :
    integer64? cs = some (if negative then -(m : Int) else m) := by
  rw [integer64?, hsplit]
  dsimp only
  rw [hbody]
  exact if_pos ⟨hlow, hhigh⟩

/-- A whole number of 64 bits is read back as it was written. -/
theorem integer64?_signed {n : Int} (hlow : -(2 ^ 63) ≤ n) (hhigh : n < 2 ^ 63) :
    integer64? (signed n) = some n := by
  unfold signed
  by_cases hneg : n < 0
  · have hvalue : (if true then -(n.natAbs : Int) else n.natAbs) = n := by
      rw [if_pos rfl, Int.ofNat_natAbs_of_nonpos (Int.le_of_lt hneg), Int.neg_neg]
    have hread := integer64?_of_split (rfl : splitSign ('-' :: digits n.natAbs) = _)
      (natural?_digits n.natAbs)
    rw [hvalue] at hread
    rw [if_pos hneg]
    exact hread hlow hhigh
  · have hvalue : (if false then -(n.natAbs : Int) else n.natAbs) = n := by
      rw [if_neg Bool.false_ne_true, Int.natAbs_of_nonneg (Int.not_lt.1 hneg)]
    have hread := integer64?_of_split (splitSign_digits n.natAbs) (natural?_digits n.natAbs)
    rw [hvalue] at hread
    rw [if_neg hneg]
    exact hread hlow hhigh

/-! ### Digits led by zeros -/

theorem ofDigits_append (cs ds : List Char) :
    ofDigits (cs ++ ds) = ds.foldl (fun n c => 10 * n + digitValue c) (ofDigits cs) := by
  rw [ofDigits, List.foldl_append]
  rfl

theorem ofDigits_replicate_zero (k : Nat) : ofDigits (List.replicate k '0') = 0 := by
  induction k with
  | zero => rfl
  | succ k ih =>
      rw [List.replicate_succ', ofDigits_concat, ih]
      rfl

theorem ofDigits_zeros_append (k : Nat) (cs : List Char) :
    ofDigits (List.replicate k '0' ++ cs) = ofDigits cs := by
  rw [ofDigits_append, ofDigits_replicate_zero]
  rfl

theorem ofDigits_padded (width n : Nat) : ofDigits (padded width n) = n := by
  rw [padded, ofDigits_zeros_append, ofDigits_digits]

theorem isDigit_of_mem_padded (width n : Nat) : ∀ c ∈ padded width n, c.isDigit = true := by
  intro c hc
  rcases List.mem_append.1 hc with hzero | hdigit
  · rw [List.eq_of_mem_replicate hzero]
    rfl
  · exact isDigit_of_mem_digits n c hdigit

theorem padded_ne_nil (width n : Nat) : padded width n ≠ [] :=
  List.append_ne_nil_of_right_ne_nil _ (digits_ne_nil n)

/-- Zeros behind a number multiply it. -/
theorem ofDigits_append_zeros (cs : List Char) (k : Nat) :
    ofDigits (cs ++ List.replicate k '0') = ofDigits cs * 10 ^ k := by
  induction k with
  | zero => simp
  | succ k ih =>
      rw [List.replicate_succ', ← List.append_assoc, ofDigits_concat, ih, Nat.pow_succ', Nat.mul_left_comm]
      rfl

/-- Digits behind a number move it by as many places and fill these. -/
theorem ofDigits_append_bounds (cs : List Char) {ds : List Char} (h : ∀ c ∈ ds, c.isDigit = true) :
    ofDigits cs * 10 ^ ds.length ≤ ofDigits (cs ++ ds) ∧ ofDigits (cs ++ ds) < (ofDigits cs + 1) * 10 ^ ds.length := by
  induction ds generalizing cs with
  | nil => simp
  | cons d ds ih =>
      obtain ⟨hlow, hhigh⟩ := ih (cs ++ [d]) fun c hc => h c (List.mem_cons_of_mem d hc)
      have hdigit := digitValue_lt (h d List.mem_cons_self)
      rw [List.append_assoc, List.singleton_append, ofDigits_concat] at hlow hhigh
      rw [List.length_cons, Nat.pow_succ', ← Nat.mul_assoc, ← Nat.mul_assoc]
      constructor
      · exact Nat.le_trans (Nat.mul_le_mul_right _ (by omega)) hlow
      · exact Nat.lt_of_lt_of_le hhigh (Nat.mul_le_mul_right _ (by omega))

theorem le_length_padded (width n : Nat) : width ≤ (padded width n).length := by
  rw [padded, List.length_append, List.length_replicate]
  omega

/-- A number that is not too wide is written at its width. -/
theorem length_padded {width n : Nat} (hwidth : 0 < width) (h : n < 10 ^ width) :
    (padded width n).length = width := by
  have := length_digits_le hwidth h
  rw [padded, List.length_append, List.length_replicate]
  omega

end UsageLedger.Text
