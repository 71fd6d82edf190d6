import UsageLedger.Proofs.Binary64.Shortest

/-! The shapes of the texts of floating-point values. Positional notation shows all digits in front of the point
and behind it; exponential notation shows one digit in front of it. -/

namespace UsageLedger.Binary64

/-- Whether digits in front of a point and behind it show a number, without zeros that lead. -/
structure Scientific.Shows (s : Scientific) (whole fraction : List Char) : Prop where
  isWhole : Text.IsWhole whole
  isFraction : ∀ c ∈ fraction, c.isDigit = true
  places : fraction.length = (-s.exponent).toNat
  digits : Text.ofDigits (whole ++ fraction) = s.digits * 10 ^ s.exponent.toNat

namespace Scientific

variable {s : Scientific}

theorem isDigit_of_mem_zeros_append {k : Nat} {cs : List Char} (h : ∀ c ∈ cs, c.isDigit = true) :
    ∀ c ∈ List.replicate k '0' ++ cs, c.isDigit = true := by
  intro c hc
  rcases List.mem_append.1 hc with hzero | hc
  · rw [List.eq_of_mem_replicate hzero]
    rfl
  · exact h c hc

/-- All digits behind the point. -/
theorem shows_fraction (h : s.exponent + (Text.digits s.digits).length ≤ 0) : s.Shows ['0']
    (List.replicate (-(s.exponent + (Text.digits s.digits).length)).toNat '0' ++ Text.digits s.digits) where
  isWhole := ⟨List.cons_ne_nil _ _, by simp, fun _ => rfl⟩
  isFraction := isDigit_of_mem_zeros_append (Text.isDigit_of_mem_digits _)
  places := by
    rw [List.length_append, List.length_replicate]
    omega
  digits := by
    have hsome := Text.length_digits_pos s.digits
    rw [← List.append_assoc, List.singleton_append, ← List.replicate_succ, Text.ofDigits_zeros_append,
      Text.ofDigits_digits, show s.exponent.toNat = 0 by omega, Nat.pow_zero, Nat.mul_one]

/-- The point among the digits. -/
theorem shows_split (h : 0 < s.digits) {k : Nat} (hk : 0 < k) (hplace : s.exponent + (Text.digits s.digits).length = k)
    (hinside : k ≤ (Text.digits s.digits).length) :
    s.Shows ((Text.digits s.digits).take k) ((Text.digits s.digits).drop k) where
  isWhole := by
    refine ⟨?_, fun c hc => Text.isDigit_of_mem_digits _ c (List.mem_of_mem_take hc), fun hzero => ?_⟩
    · rw [Ne, List.take_eq_nil_iff, not_or]
      exact ⟨hk.ne', Text.digits_ne_nil _⟩
    · rw [List.head?_take, if_neg hk.ne'] at hzero
      exact absurd (Text.eq_zero_of_head?_digits hzero) h.ne'
  isFraction c hc := Text.isDigit_of_mem_digits _ c (List.mem_of_mem_drop hc)
  places := by
    rw [List.length_drop]
    omega
  digits := by
    rw [List.take_append_drop, Text.ofDigits_digits, show s.exponent.toNat = 0 by omega, Nat.pow_zero, Nat.mul_one]

/-- All digits in front of the point. -/
theorem shows_whole (h : 0 < s.digits) (hwhole : 0 ≤ s.exponent) :
    s.Shows (Text.digits s.digits ++ List.replicate s.exponent.toNat '0') [] where
  isWhole := by
    refine ⟨List.append_ne_nil_of_left_ne_nil (Text.digits_ne_nil _) _, fun c hc => ?_, fun hzero => ?_⟩
    · rcases List.mem_append.1 hc with hc | hzero
      · exact Text.isDigit_of_mem_digits _ c hc
      · rw [List.eq_of_mem_replicate hzero]
        rfl
    · rw [List.head?_append, Option.or_of_isSome (by simpa using Text.digits_ne_nil _)] at hzero
      exact absurd (Text.eq_zero_of_head?_digits hzero) h.ne'
  isFraction := by simp
  places := by
    rw [List.length_nil]
    omega
  digits := by rw [List.append_nil, Text.ofDigits_append_zeros, Text.ofDigits_digits]

/-- A number is shown by its positional text, without a fraction when it is whole. -/
theorem exists_shows (h : 0 < s.digits) : ∃ whole fraction, s.Shows whole fraction ∧ ∀ tail,
    positional (pointed s).1 (pointed s).2 tail = whole ++ if 0 ≤ s.exponent then tail else '.' :: fraction := by
  have hsome := Text.length_digits_pos s.digits
  unfold pointed positional
  dsimp only
  by_cases hsmall : s.exponent + (Text.digits s.digits).length ≤ 0
  · refine ⟨_, _, shows_fraction hsmall, fun tail => ?_⟩
    rw [if_pos hsmall, if_neg (by omega)]
    rfl
  · by_cases hinside : s.exponent < 0
    · refine ⟨_, _, shows_split h (k := (s.exponent + (Text.digits s.digits).length).toNat) (by omega) (by omega)
        (by omega), fun tail => ?_⟩
      rw [if_neg hsmall, if_pos (by omega), if_neg (by omega)]
    · refine ⟨_, _, shows_whole h (Int.not_lt.1 hinside), fun tail => ?_⟩
      rw [if_neg hsmall, if_neg (by omega), if_pos (by omega)]
      congr 3
      omega

/-- What digits show, moved by the places of the fraction, is the number. -/
theorem Shows.value_eq {whole fraction : List Char} (h : s.Shows whole fraction) :
    (Text.ofDigits (whole ++ fraction) : ℚ) * 10 ^ (-(fraction.length : Int)) = s.value := by
  rw [h.digits, h.places, value, zpow_eq_ratio (by norm_num : (10 : ℚ) ≠ 0) s.exponent, zpow_neg, zpow_natCast]
  push_cast
  rw [mul_assoc, div_eq_mul_inv]

end Scientific

end UsageLedger.Binary64
