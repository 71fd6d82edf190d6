import UsageLedger.Proofs.Json.Record
import UsageLedger.Proofs.Json.Shown

/-! The text of a floating-point number. It has a point or an exponent, and its digits fit a significand, so what it is
read as depends on these digits and their exponent; what a field holds then is the decimal that this shows. -/

namespace UsageLedger.Json

open Text (Bytes encode encodeChar)
open Binary64 (Normal Scientific shortest)

variable {m : Nat} {e : Int} {r : Bytes}

/-! ### Spellings -/

theorem readOnto_of_lt {cs : List Char} {n : Nat} (h : Decimal.onto n cs < 2 ^ 64) :
    readOnto n cs = (Decimal.onto n cs, []) := by
  induction cs generalizing n with
  | nil => rfl
  | cons c cs ih =>
      have hnext : Decimal.onto (10 * n + Text.digitValue c) cs < 2 ^ 64 := h
      have hgrows := Decimal.le_onto (10 * n + Text.digitValue c) cs
      rw [readOnto, if_pos (by omega), ih hnext]
      rfl

/-- Digits that fit a significand are kept. -/
theorem Spelling.significand_of_lt {s : Spelling} (h : s.digits < 2 ^ 64) :
    s.significand = (s.digits, s.exponent - s.places) := by
  have hvalue := Text.ofDigits_digits s.digits
  rw [← List.take_append_drop ((Text.digits s.digits).length - s.places) (Text.digits s.digits),
    ← Decimal.onto_onto] at hvalue
  unfold significand
  dsimp only
  generalize (Text.digits s.digits).take ((Text.digits s.digits).length - s.places) = whole at *
  generalize (Text.digits s.digits).drop ((Text.digits s.digits).length - s.places) = fraction at *
  have hgrows := Decimal.le_onto (Decimal.onto 0 whole) fraction
  rw [readOnto_of_lt (show Decimal.onto 0 whole < 2 ^ 64 by omega)]
  dsimp only
  rw [readOnto_of_lt (by omega), hvalue, List.length_nil, Nat.cast_zero, Int.add_zero, Nat.sub_zero]

/-- Whether a spelling with a point or an exponent has a sign, digits and an exponent. -/
structure Spelling.Denotes (s : Spelling) (negative : Bool) (p : Nat × Int) : Prop where
  notPlain : s.plain = false
  sign : s.negative = negative
  digits : s.digits = p.1
  exponent : s.exponent - s.places = p.2

/-- The value of a spelling with few digits. -/
theorem Spelling.Denotes.value_eq {s : Spelling} {negative : Bool} {p : Nat × Int} (h : s.Denotes negative p)
    (hfew : p.1 < 2 ^ 64) (hread : moveTens (.ofNat p.1) p.2 = .finite false m e) :
    s.value = .ok (.float (.finite negative m e)) := by
  have hsignificand := significand_of_lt (h.digits.trans_lt hfew)
  have hfloat : s.float = .finite negative m e := by
    rw [float, hsignificand, h.exponent, h.digits, h.sign, hread, Binary64.withSign_finite]
  unfold Spelling.value
  simp only [h.notPlain, hfloat, Bool.false_eq_true, false_and, if_false]

theorem readExponent_signed (s : Spelling) (k : Int) (hends : Ends r) :
    readExponent s (encode (if 0 ≤ k then '+' :: Text.signed k else Text.signed k) ++ r) =
      .ok ({ s with exponent := k, plain := false }, r) := by
  have hrun := digitRun_of_digits (Text.isDigit_of_mem_digits k.natAbs) hends.stops
  have hsome := (Text.length_digits_pos k.natAbs).ne'
  rw [Text.ofDigits_digits] at hrun
  unfold Text.signed
  by_cases hneg : k < 0
  · have hbytes : encode ('-' :: Text.digits k.natAbs) ++ r = 45 :: (encode (Text.digits k.natAbs) ++ r) := by
      simp [encodeChar]
    rw [if_neg (by omega), if_pos hneg, hbytes, readExponent]
    simp only [readSign, hrun, if_neg hsome, if_true, Except.ok.injEq, Prod.mk.injEq, and_true,
      Spelling.mk.injEq, true_and]
    omega
  · have hbytes : encode ('+' :: Text.digits k.natAbs) ++ r = 43 :: (encode (Text.digits k.natAbs) ++ r) := by
      simp [encodeChar]
    rw [if_pos (by omega), if_neg hneg, hbytes, readExponent]
    simp only [readSign, hrun, if_neg hsome, Bool.false_eq_true, if_false, Except.ok.injEq, Prod.mk.injEq, and_true,
      Spelling.mk.injEq, true_and]
    omega

/-! ### Texts -/

/-- A text in positional notation is read with all its digits, and with the zero behind the point of a whole number. -/
theorem readSpelling_positional (negative : Bool) {s : Scientific} (h : 0 < s.digits) (hends : Ends r) :
    ∃ spelling, spelling.Denotes negative
      (if 0 ≤ s.exponent then (s.digits * 10 ^ (s.exponent.toNat + 1), -1) else (s.digits, s.exponent)) ∧
      readSpelling negative (encode (Binary64.positional (Binary64.pointed s).1 (Binary64.pointed s).2 ['.', '0']) ++ r) =
        .ok (spelling, r) := by
  obtain ⟨whole, fraction, hshows, htext⟩ := Scientific.exists_shows h
  have hdigits := hshows.digits
  have hplaces := hshows.places
  rw [htext]
  by_cases hwhole : 0 ≤ s.exponent
  · obtain rfl : fraction = [] := List.length_eq_zero_iff.1 (by omega)
    have hzero : Text.ofDigits (whole ++ ['0']) = s.digits * 10 ^ (s.exponent.toNat + 1) := by
      rw [Nat.pow_succ, ← Nat.mul_assoc, ← hdigits, List.append_nil]
      exact Text.ofDigits_append_zeros whole 1
    rw [if_pos hwhole, if_pos hwhole, readSpelling_point negative hshows.isWhole (by simp) (by simp) hends.stops,
      readTail_of_ends _ hends, hzero]
    exact ⟨_, ⟨rfl, rfl, rfl, rfl⟩, rfl⟩
  · have hsome : fraction ≠ [] := by
      rintro rfl
      rw [List.length_nil] at hplaces
      omega
    rw [if_neg hwhole, if_neg hwhole, readSpelling_point negative hshows.isWhole hsome hshows.isFraction hends.stops,
      readTail_of_ends _ hends, hdigits, show s.exponent.toNat = 0 by omega, Nat.pow_zero, Nat.mul_one]
    refine ⟨_, ⟨rfl, rfl, rfl, ?_⟩, rfl⟩
    dsimp only
    omega

/-- A text in exponential notation is read with all its digits. -/
theorem readSpelling_exponential (negative : Bool) (s : Scientific) (hends : Ends r) :
    ∃ spelling, spelling.Denotes negative (s.digits, s.exponent) ∧ readSpelling negative
      (encode (Binary64.exponential (Binary64.pointed s).1 (Binary64.pointed s).2) ++ r) = .ok (spelling, r) := by
  have hdigits := Text.isDigit_of_mem_digits s.digits
  have hvalue := Text.ofDigits_digits s.digits
  have hsome := Text.digits_ne_nil s.digits
  unfold Binary64.pointed Binary64.exponential
  dsimp only
  cases hds : Text.digits s.digits with
  | nil => exact absurd hds hsome
  | cons c cs =>
      rw [hds] at hdigits hvalue
      generalize hk : s.exponent + ((c :: cs).length : Int) - 1 = k
      rw [List.length_cons] at hk
      have hwhole : Text.IsWhole [c] :=
        ⟨List.cons_ne_nil _ _, by simpa using hdigits c List.mem_cons_self, fun hzero => by
          rw [Option.some.inj hzero]⟩
      have hmark : ∀ front, encode (front ++ 'e' :: if 0 ≤ k then '+' :: Text.signed k else Text.signed k) ++ r =
          encode front ++ 101 :: (encode (if 0 ≤ k then '+' :: Text.signed k else Text.signed k) ++ r) := by
        intro front
        rw [Text.encode_append, Text.encode_cons, List.append_assoc]
        rfl
      have hstops : ∀ t, Stops (101 :: t) := by simp [Stops, isDigit]
      have hexponent : k - cs.length = s.exponent := by
        push_cast at hk
        omega
      rw [hmark]
      cases cs with
      | nil =>
          refine ⟨⟨negative, s.digits, 0, k, false⟩, ⟨rfl, rfl, rfl, hexponent⟩, ?_⟩
          change readSpelling negative (encode [c] ++ _) = _
          rw [readSpelling_whole negative hwhole (hstops _) (by simp), hvalue]
          exact readExponent_signed _ k hends
      | cons d ds =>
          refine ⟨⟨negative, s.digits, (d :: ds).length, k, false⟩, ⟨rfl, rfl, rfl, hexponent⟩, ?_⟩
          have hfraction : ∀ b ∈ d :: ds, b.isDigit = true := fun b hb => hdigits b (List.mem_cons_of_mem c hb)
          change readSpelling negative (encode ([c] ++ '.' :: (d :: ds)) ++ _) = _
          rw [readSpelling_point negative hwhole (List.cons_ne_nil _ _) hfraction (hstops _), List.singleton_append,
            hvalue]
          exact readExponent_signed _ k hends

/-- The text of a value is cut off as a number that holds what its digits are read as. -/
theorem tokens_toText {m' : Nat} {e' : Int} (h : Normal m e) (negative : Bool) (hends : Ends r)
    (hread : reading m e = .finite false m' e') :
    tokens (encode (Binary64.finite negative m e).toText ++ r) =
      .number (.ok (.float (.finite negative m' e'))) :: tokens r := by
  have hpos := Binary64.shortest_digits_pos h
  have hfew : (spelled (shortest m e)).1 < 2 ^ 64 :=
    (spelled_le (Binary64.shortest_digits_lt h)).trans_lt (by norm_num)
  rw [reading] at hread
  rw [Binary64.toText, if_neg h.ne_zero]
  dsimp only
  by_cases hplace : -4 ≤ (Binary64.pointed (shortest m e)).2 ∧ (Binary64.pointed (shortest m e)).2 ≤ 16
  · obtain ⟨spelling, hdenotes, hspelling⟩ := readSpelling_positional negative hpos hends
    have hspelled : spelled (shortest m e) = if 0 ≤ (shortest m e).exponent then
        ((shortest m e).digits * 10 ^ ((shortest m e).exponent.toNat + 1), -1) else
          ((shortest m e).digits, (shortest m e).exponent) := by
      rw [spelled]
      simp only [hplace.2, and_true]
    rw [← hspelled] at hdenotes
    rw [if_pos hplace, tokens_number hspelling, hdenotes.value_eq hfew hread]
  · obtain ⟨spelling, hdenotes, hspelling⟩ := readSpelling_exponential negative (shortest m e) hends
    have hspelled : spelled (shortest m e) = ((shortest m e).digits, (shortest m e).exponent) := by
      have hsome := Text.length_digits_pos (shortest m e).digits
      rw [spelled, if_neg]
      rw [Binary64.pointed] at hplace ⊢
      dsimp only at hplace ⊢
      omega
    rw [← hspelled] at hdenotes
    rw [if_neg hplace, tokens_number hspelling, hdenotes.value_eq hfew hread]

theorem tokens_zero (hends : Ends r) :
    tokens (encode (Binary64.finite false 0 (-1074)).toText ++ r) =
      .number (.ok (.float (.finite false 0 (-1074)))) :: tokens r := by
  have hwhole : Text.IsWhole ['0'] := ⟨by simp, by simp, fun _ => rfl⟩
  have hread : readSpelling false (encode ['0', '.', '0'] ++ r) = .ok (⟨false, 0, 1, 0, false⟩, r) :=
    (readSpelling_point false hwhole (List.cons_ne_nil '0' []) (by simp) hends.stops).trans (readTail_of_ends _ hends)
  have hvalue : Spelling.value ⟨false, 0, 1, 0, false⟩ = .ok (.float (.finite false 0 (-1074))) :=
    Spelling.Denotes.value_eq (p := (0, -1)) ⟨rfl, rfl, rfl, rfl⟩ (by norm_num) (by decide +kernel)
  rw [← hvalue]
  exact tokens_number hread

/-- A decimal that is written as a floating-point number is read as the decimal that it shows then. -/
theorem readsAs_double (d : Decimal) : ReadsAs .double d (ofContent d.shown?) := by
  by_cases hzero : d.coefficient = 0
  · refine ⟨.number (.ok (.float (reread d.toBinary64))), rfl, fun r hends => ?_⟩
    rw [Kind.print, Decimal.toBinary64_of_zero hzero]
    exact tokens_zero hends
  · obtain ⟨m, e, h, hclose, hwritten⟩ := Decimal.exists_toBinary64 hzero
    obtain ⟨m', e', -, -, hread⟩ := Decimal.near_reading_written hzero h hclose
    refine ⟨.number (.ok (.float (reread d.toBinary64))), rfl, fun r hends => ?_⟩
    rw [Kind.print, hwritten, reread_finite h, hread, Binary64.withSign_finite]
    exact tokens_toText h _ hends hread

end UsageLedger.Json
