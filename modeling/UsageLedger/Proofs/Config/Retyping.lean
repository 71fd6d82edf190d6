import Mathlib.Data.List.TakeWhile
import UsageLedger.Config.Environment
import UsageLedger.Proofs.Text.Digits

/-! What becomes of the value of a variable on its way into a text field. A value that reads as a truth value or
as a number is taken for that, and the field gets the text of what was read. So a value arrives as it is exactly
when it reads as nothing else or is written the way its reading is. -/

namespace UsageLedger.Environment

open UsageLedger.Text (digits digitChar ofDigits natural? integer64? signed spanDigits splitSign IsWhole)

variable {s : String} {cs r : List Char} {c : Char}

/-! ### The characters of numbers -/

/-- Whether a character can stand in a number that is written in digits. -/
def isNumberChar (c : Char) : Bool := c.isDigit || c ∈ ['+', '-', '.', 'e', 'E']

theorem isNumberChar_of_isDigit (h : c.isDigit = true) : isNumberChar c = true := by
  rw [isNumberChar, h, Bool.true_or]

theorem toLower_of_isDigit (h : c.isDigit = true) : c.toLower = c := by
  have hsmall : ∀ d : Fin 10, (digitChar d).toLower = digitChar d := by decide
  rw [← Text.digitChar_digitValue h]
  exact hsmall ⟨_, Text.digitValue_lt h⟩

theorem isNumberChar_toLower (h : isNumberChar c = true) : isNumberChar c.toLower = true := by
  by_cases hc : c.isDigit = true
  · rwa [toLower_of_isDigit hc]
  · have hothers : ['+', '-', '.', 'e', 'E'].all (fun d => isNumberChar d.toLower) = true := by decide
    rw [isNumberChar, Bool.eq_false_iff.2 hc, Bool.false_or] at h
    exact List.all_eq_true.1 hothers c (of_decide_eq_true h)

theorem isDigit_of_natural? {n : Nat} (h : natural? cs = some n) : ∀ c ∈ cs, c.isDigit = true := by
  unfold natural? at h
  split at h
  · rename_i hdigits
    exact List.all_eq_true.1 hdigits.2
  · cases h

theorem isNumberChar_or_mem_splitSign (h : c ∈ cs) : isNumberChar c = true ∨ c ∈ (splitSign cs).2 := by
  unfold splitSign
  split
  · exact (List.mem_cons.1 h).imp (by rintro rfl; rfl) id
  · exact (List.mem_cons.1 h).imp (by rintro rfl; rfl) id
  · exact .inr h

theorem isNumberChar_or_mem_spanDigits (h : c ∈ cs) : isNumberChar c = true ∨ c ∈ (spanDigits cs).2 := by
  rw [← cs.takeWhile_append_dropWhile (p := Char.isDigit)] at h
  exact (List.mem_append.1 h).imp_left fun hdigit => isNumberChar_of_isDigit (List.mem_takeWhile_imp hdigit)

/-- The places behind a point, if there is one, and what follows them. -/
def spanPlaces : List Char → List Char × List Char
  | '.' :: r => spanDigits r
  | r => ([], r)

/-- The exponent that ends a number; zero where there is none. -/
def readExponent? : List Char → Option Int
  | [] => some 0
  | c :: r =>
    if c = 'e' ∨ c = 'E' then
      (natural? (splitSign r).2).map fun n => if (splitSign r).1 then -(n : Int) else (n : Int)
    else none

/-- A number in digits: some in front of the point or behind it, and then nothing but an exponent. -/
theorem readScientific?_eq (cs : List Char) : readScientific? cs =
    let places := spanPlaces (spanDigits cs).2
    if (spanDigits cs).1 = [] ∧ places.1 = [] then none
    else (readExponent? places.2).map fun (exponent : Int) =>
      (ofDigits ((spanDigits cs).1 ++ places.1), exponent - places.1.length) := by
  unfold readScientific?
  generalize spanDigits cs = p
  obtain ⟨whole, _ | ⟨d, r⟩⟩ := p
  · simp [spanPlaces, readExponent?]
  · rcases eq_or_ne d '.' with rfl | hd
    · simp only [spanPlaces]
      generalize spanDigits r = q
      obtain ⟨places, _ | ⟨e, t⟩⟩ := q
      · simp [readExponent?]
      · by_cases he : e = 'e' ∨ e = 'E'
        · cases hbody : natural? (splitSign t).2 <;> simp [readExponent?, he, hbody]
        · simp [readExponent?, he]
    · by_cases he : d = 'e' ∨ d = 'E'
      · cases hbody : natural? (splitSign r).2 <;> simp [spanPlaces, hd, readExponent?, he, hbody]
      · simp [spanPlaces, hd, readExponent?, he]

theorem isNumberChar_or_mem_spanPlaces (h : c ∈ cs) : isNumberChar c = true ∨ c ∈ (spanPlaces cs).2 := by
  unfold spanPlaces
  split
  · exact (List.mem_cons.1 h).elim (by rintro rfl; exact .inl rfl) isNumberChar_or_mem_spanDigits
  · exact .inr h

theorem isNumberChar_of_readExponent? {n : Int} (h : readExponent? cs = some n) : ∀ c ∈ cs, isNumberChar c = true := by
  intro c hc
  cases cs with
  | nil => cases hc
  | cons mark body =>
      rw [readExponent?] at h
      split at h
      · rename_i hmark
        rcases List.mem_cons.1 hc with rfl | hc
        · rcases hmark with rfl | rfl <;> rfl
        · refine (isNumberChar_or_mem_splitSign hc).elim id fun hc => ?_
          cases hbody : natural? (splitSign body).2 with
          | none => simp [hbody] at h
          | some k => exact isNumberChar_of_isDigit (isDigit_of_natural? hbody c hc)
      · cases h

/-- A number in digits has only the characters of numbers. -/
theorem isNumberChar_of_readScientific? {p : Nat × Int} (h : readScientific? cs = some p) :
    ∀ c ∈ cs, isNumberChar c = true := by
  intro c hc
  rw [readScientific?_eq] at h
  dsimp only at h
  rw [ite_eq_iff, Option.map_eq_some_iff] at h
  obtain ⟨-, hnone⟩ | ⟨-, exponent, hexponent, -⟩ := h
  · cases hnone
  · rcases isNumberChar_or_mem_spanDigits hc with hc | hc
    · exact hc
    · rcases isNumberChar_or_mem_spanPlaces hc with hc | hc
      · exact hc
      · exact isNumberChar_of_readExponent? hexponent c hc

/-! ### What a value reads as -/

/-- Whether a value is a truth value in some spelling. -/
def IsTruth (s : String) (b : Bool) : Prop := s.toList.map Char.toLower = (toString b).toList

/-- Names of infinity and of what is not a number. -/
def specialWords : List (List Char) := ["inf".toList, "infinity".toList, "nan".toList]

theorem readFloat?_eq_none_iff : readFloat? cs = none ↔
    (splitSign cs).2.map Char.toLower ∉ specialWords ∧ readScientific? (splitSign cs).2 = none := by
  unfold readFloat?
  dsimp only
  split_ifs <;> simp only [specialWords, List.mem_cons, List.not_mem_nil, or_false, Option.map_eq_none_iff] <;>
    tauto

/-- A value with a character that no number and none of the words has is no number. -/
theorem readFloat?_eq_none_of_stranger (hc : c ∈ cs) (hstranger : isNumberChar c = false)
    (hword : (splitSign cs).2.map Char.toLower ∉ specialWords) : readFloat? cs = none := by
  refine readFloat?_eq_none_iff.2 ⟨hword, Option.eq_none_iff_forall_ne_some.2 fun p hread => ?_⟩
  rcases isNumberChar_or_mem_splitSign hc with hnumber | hmem
  · rw [hnumber] at hstranger
    cases hstranger
  · rw [isNumberChar_of_readScientific? hread c hmem] at hstranger
    cases hstranger

/-- A truth value is no number. -/
theorem IsTruth.readFloat?_eq_none {b : Bool} (h : IsTruth s b) : readFloat? s.toList = none := by
  have hunsigned : (splitSign s.toList).2 = s.toList := by
    unfold splitSign
    split <;> rename_i heq
    · rw [IsTruth, heq] at h
      cases b <;> exact absurd (List.head_eq_of_cons_eq h) (by decide)
    · rw [IsTruth, heq] at h
      cases b <;> exact absurd (List.head_eq_of_cons_eq h) (by decide)
    · rfl
  have hletter : (toString b).toList.all isNumberChar = false := by cases b <;> rfl
  refine readFloat?_eq_none_iff.2 ⟨?_, Option.eq_none_iff_forall_ne_some.2 fun p hread => ?_⟩
  · rw [hunsigned, h]
    cases b <;> decide
  · rw [hunsigned] at hread
    refine Bool.eq_false_iff.1 hletter (List.all_eq_true.2 fun c hc => ?_)
    rw [← h] at hc
    obtain ⟨d, hd, rfl⟩ := List.mem_map.1 hc
    exact isNumberChar_toLower (isNumberChar_of_readScientific? hread d hd)

theorem spanDigits_of_isDigit (h : ∀ c ∈ cs, c.isDigit = true) : spanDigits cs = (cs, []) := by
  rw [spanDigits, List.takeWhile_eq_self_iff.2 h, List.dropWhile_eq_nil_iff.2 h]

/-- What reads as a whole number reads as a number. -/
theorem integer64?_eq_none_of_readFloat? (h : readFloat? cs = none) : integer64? cs = none := by
  refine Option.eq_none_iff_forall_ne_some.2 fun n hread => ?_
  unfold integer64? at hread
  dsimp only at hread
  obtain ⟨m, hbody, -⟩ := Option.bind_eq_some_iff.1 hread
  have hdigits := isDigit_of_natural? hbody
  have hsome : (splitSign cs).2 ≠ [] := fun hnil => by simp [natural?, hnil] at hbody
  have hnone := (readFloat?_eq_none_iff.1 h).2
  rw [readScientific?_eq, spanDigits_of_isDigit hdigits] at hnone
  simp [spanPlaces, readExponent?, hsome] at hnone

theorem typed_of_truth {b : Bool} (h : IsTruth s b) : typed s = .boolean b := by
  unfold typed
  cases b
  · have hfalse : ¬IsTruth s true := fun htrue => absurd (htrue.symm.trans h) (by decide)
    exact (if_neg hfalse).trans (if_pos h)
  · exact if_pos h

theorem typed_of_not_truth (h : ∀ b, ¬IsTruth s b) : typed s = match integer64? s.toList with
    | some n => .integer n
    | none =>
      match readFloat? s.toList with
      | some x => .float x
      | none => .text s :=
  (if_neg (h true)).trans (if_neg (h false))

theorem typed_of_integer {n : Int} (h : integer64? s.toList = some n) : typed s = .integer n := by
  have hno : ∀ b, ¬IsTruth s b := fun b hb => by
    rw [integer64?_eq_none_of_readFloat? hb.readFloat?_eq_none] at h
    cases h
  rw [typed_of_not_truth hno, h]

theorem typed_of_float {x : Binary64} (hwhole : integer64? s.toList = none) (h : readFloat? s.toList = some x) :
    typed s = .float x := by
  have hno : ∀ b, ¬IsTruth s b := fun b hb => by
    rw [hb.readFloat?_eq_none] at h
    cases h
  rw [typed_of_not_truth hno, hwhole, h]

theorem typed_of_other (hno : ∀ b, ¬IsTruth s b) (h : readFloat? s.toList = none) : typed s = .text s := by
  rw [typed_of_not_truth hno, integer64?_eq_none_of_readFloat? h, h]

/-! ### What arrives -/

/-- The text that a text field holds when a variable gives it a value. -/
def arriving (value : String) : String := ((typed value).asText?).getD ""

/-- A value of a variable always has a text. -/
theorem asText?_typed (value : String) : (typed value).asText? = some (arriving value) := by
  have hsome : (typed value).asText?.isSome = true := by
    unfold typed
    dsimp only
    repeat' split
    all_goals rfl
  obtain ⟨text, htext⟩ := Option.isSome_iff_exists.1 hsome
  rw [arriving, htext, Option.getD_some]

/-- The values that are written the way their reading is: truth values in lower case, whole numbers of 64 bits
without a plus sign and leading zeros, other numbers in their plain text, and whatever reads as neither. -/
inductive Canonical (s : String) : Prop
  | truth (b : Bool) (h : s = toString b)
  | whole (n : Int) (hlow : -(2 ^ 63) ≤ n) (hhigh : n < 2 ^ 63) (h : s = String.ofList (signed n))
  | float (x : Binary64) (hwhole : integer64? s.toList = none) (hread : readFloat? s.toList = some x)
    (h : s = String.ofList x.toPlainText)
  | other (hno : ∀ b, ¬IsTruth s b) (hread : readFloat? s.toList = none)

theorem isTruth_toString (b : Bool) : IsTruth (toString b) b := by cases b <;> rfl

theorem integer64?_bounds {n : Int} (h : integer64? cs = some n) : -(2 ^ 63) ≤ n ∧ n < 2 ^ 63 := by
  unfold integer64? at h
  dsimp only at h
  obtain ⟨m, -, hm⟩ := Option.bind_eq_some_iff.1 h
  rw [Option.ite_none_right_eq_some] at hm
  obtain ⟨hbounds, hvalue⟩ := hm
  rwa [Option.some.inj hvalue] at hbounds

/-- A value arrives as it is exactly when it is written the way its reading is. -/
theorem arriving_eq_self_iff : arriving s = s ↔ Canonical s := by
  constructor
  · intro h
    by_cases htruth : ∃ b, IsTruth s b
    · obtain ⟨b, hb⟩ := htruth
      rw [arriving, typed_of_truth hb] at h
      exact .truth b h.symm
    · cases hwhole : integer64? s.toList with
      | some n =>
          rw [arriving, typed_of_integer hwhole] at h
          exact .whole n (integer64?_bounds hwhole).1 (integer64?_bounds hwhole).2 h.symm
      | none =>
          cases hread : readFloat? s.toList with
          | some x =>
              rw [arriving, typed_of_float hwhole hread] at h
              exact .float x hwhole hread h.symm
          | none => exact .other (not_exists.1 htruth) hread
  · rintro (⟨b, rfl⟩ | ⟨n, hlow, hhigh, rfl⟩ | ⟨x, hwhole, hread, h⟩ | ⟨hno, hread⟩)
    · rw [arriving, typed_of_truth (isTruth_toString b)]
      rfl
    · rw [arriving, typed_of_integer (n := n) (by rw [String.toList_ofList, Text.integer64?_signed hlow hhigh])]
      rfl
    · rw [arriving, typed_of_float hwhole hread]
      exact h.symm
    · rw [arriving, typed_of_other hno hread]
      rfl

/-- A value arrives as it is if a character of it stands in no number and the value is none of the words. -/
theorem canonical_of_stranger (hc : c ∈ s.toList) (hstranger : isNumberChar c = false) (htruth : ∀ b, ¬IsTruth s b)
    (hword : (splitSign s.toList).2.map Char.toLower ∉ specialWords) : Canonical s :=
  .other htruth (readFloat?_eq_none_of_stranger hc hstranger hword)

/-- Of the values in digits that 64 bits hold, those without a leading zero arrive as they are. -/
theorem canonical_digits_iff (hsome : cs ≠ []) (hdigits : ∀ c ∈ cs, c.isDigit = true) (hsmall : ofDigits cs < 2 ^ 63) :
    Canonical (String.ofList cs) ↔ IsWhole cs := by
  have hread : integer64? cs = some (ofDigits cs : Int) := by
    refine Text.integer64?_of_split (Text.splitSign_of_head fun c hc => hdigits c (List.mem_of_head? hc))
      (if_pos ⟨hsome, List.all_eq_true.2 hdigits⟩) ?_ ?_
    · rw [if_neg Bool.false_ne_true]
      omega
    · rw [if_neg Bool.false_ne_true]
      exact_mod_cast hsmall
  have harriving : arriving (String.ofList cs) = String.ofList (digits (ofDigits cs)) := by
    rw [arriving, typed_of_integer (n := (ofDigits cs : Int)) (by rwa [String.toList_ofList])]
    rfl
  rw [← arriving_eq_self_iff, harriving, String.ofList_inj]
  exact ⟨fun h => h ▸ Text.isWhole_digits _, fun h => h.digits_ofDigits⟩

end UsageLedger.Environment
