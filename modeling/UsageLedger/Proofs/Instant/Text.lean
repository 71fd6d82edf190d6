import Mathlib.Data.List.TakeWhile
import UsageLedger.Instant.Text
import UsageLedger.Proofs.Instant.Calendar
import UsageLedger.Proofs.Text.Digits

/-! The text of an instant is read back as that instant, to the nanosecond and in a leap second too. Each part
is read up to the mark behind it, and the parts make up the day, the second and the nanoseconds again. -/

namespace UsageLedger

open Text (padded)

/-! ### White space and digits -/

namespace Text

theorem isBlank_of_isDigit {c : Char} (h : c.isDigit = true) : isBlank c = false := by
  have hrange : 48 ≤ c.toNat ∧ c.toNat ≤ 57 := by simpa [Char.isDigit, UInt32.le_iff_toNat_le] using h
  simp only [isBlank, Bool.or_eq_false_iff, Bool.and_eq_false_iff, decide_eq_false_iff_not, beq_eq_false_iff_ne]
  omega

theorem trimStart_of_head {cs : List Char} (h : ∀ c ∈ cs.head?, isBlank c = false) : trimStart cs = cs := by
  cases cs with
  | nil => rfl
  | cons c cs => simp [trimStart, h c rfl]

theorem head?_padded_append (width n : Nat) (r : List Char) :
    ∀ c ∈ (padded width n ++ r).head?, c.isDigit = true := by
  intro c hc
  have hsome : (padded width n).head?.isSome = true := by simpa using padded_ne_nil width n
  rw [List.head?_append, Option.or_of_isSome hsome] at hc
  exact isDigit_of_mem_padded width n c (List.mem_of_head? hc)

theorem trimStart_padded (width n : Nat) (r : List Char) :
    trimStart (padded width n ++ r) = padded width n ++ r :=
  trimStart_of_head fun c hc => isBlank_of_isDigit (head?_padded_append width n r c hc)

/-- A run of digits ends at the first character that is none. -/
theorem spanDigits_padded (width n : Nat) {c : Char} (hc : c.isDigit = false) (r : List Char) :
    spanDigits (padded width n ++ c :: r) = (padded width n, c :: r) := by
  have hall := isDigit_of_mem_padded width n
  rw [spanDigits, List.takeWhile_append_of_pos hall, List.dropWhile_append_of_pos hall,
    List.takeWhile_cons_of_neg (by simp [hc]), List.dropWhile_cons_of_neg (by simp [hc]), List.append_nil]

end Text

namespace Instant

/-! ### Parts -/

theorem readNumber?_padded {width n : Nat} (hwidth : 0 < width) (h : n < 10 ^ width) (r : List Char) :
    readNumber? width (padded width n ++ r) = some (n, r) := by
  have hlength := Text.length_padded hwidth h
  have htake : ((padded width n ++ r).take width).takeWhile Char.isDigit = padded width n := by
    rw [List.take_left' hlength]
    exact List.takeWhile_eq_self_iff.2 (Text.isDigit_of_mem_padded width n)
  rw [readNumber?, Text.trimStart_padded, htake, if_neg (Text.padded_ne_nil width n), Text.ofDigits_padded,
    List.drop_left]

theorem readMark?_cons {mark : Char} (h : Text.isBlank mark = false) (r : List Char) :
    readMark? mark (mark :: r) = some r := by
  rw [readMark?, Text.trimStart_of_head (by simpa using h)]
  exact if_pos rfl

theorem readSigned?_padded (width n : Nat) (sign : Nat → Int) {c : Char} (hc : c.isDigit = false)
    (r : List Char) : readYear?.readSigned? (padded width n ++ c :: r) sign = some (sign n, c :: r) := by
  rw [readYear?.readSigned?, Text.spanDigits_padded width n hc]
  dsimp only
  rw [if_neg (Text.padded_ne_nil width n), Text.ofDigits_padded]

theorem readYear?_yearText (year : Int) (r : List Char) :
    readYear? (yearText year ++ '-' :: r) = some (year, '-' :: r) := by
  unfold yearText
  by_cases hplain : 0 ≤ year ∧ year ≤ 9999
  · have hhead := Text.head?_padded_append 4 year.natAbs ('-' :: r)
    have hread := readNumber?_padded (n := year.natAbs) (by decide : 0 < 4) (by omega) ('-' :: r)
    rw [if_pos hplain, readYear?, Text.trimStart_padded]
    split
    · rename_i heq
      exact absurd (hhead '-' (by rw [heq]; rfl)) (by decide)
    · rename_i heq
      exact absurd (hhead '+' (by rw [heq]; rfl)) (by decide)
    · rw [hread, Option.map_some]
      dsimp only
      rw [Int.natAbs_of_nonneg hplain.1]
  · rw [if_neg hplain]
    by_cases hneg : year < 0
    · rw [if_pos hneg, List.cons_append, readYear?, Text.trimStart_of_head (by simp [Text.isBlank])]
      change readYear?.readSigned? (padded 4 year.natAbs ++ '-' :: r) _ = _
      rw [readSigned?_padded 4 year.natAbs _ (by decide), Int.ofNat_natAbs_of_nonpos (Int.le_of_lt hneg),
        Int.neg_neg]
    · rw [if_neg hneg, List.cons_append, readYear?, Text.trimStart_of_head (by simp [Text.isBlank])]
      change readYear?.readSigned? (padded 4 year.natAbs ++ '-' :: r) _ = _
      rw [readSigned?_padded 4 year.natAbs _ (by decide), Int.natAbs_of_nonneg (Int.not_lt.1 hneg)]

theorem readFraction?_padded {width n : Nat} (hwidth : 0 < width) (hnine : width ≤ 9) (h : n < 10 ^ width) :
    readFraction? ('.' :: (padded width n ++ ['Z'])) = some (n * 10 ^ (9 - width), ['Z']) := by
  have hlength := Text.length_padded hwidth h
  have hnano : (padded width n ++ List.replicate 9 '0').take 9 =
      padded width n ++ List.replicate (9 - width) '0' := by
    rw [List.take_append, List.take_of_length_le (by omega), hlength, List.take_replicate,
      Nat.min_eq_left (by omega)]
  rw [readFraction?, Text.spanDigits_padded width n (by decide)]
  dsimp only
  rw [if_neg (Text.padded_ne_nil width n), hnano, Text.ofDigits_append_zeros, Text.ofDigits_padded]

theorem readFraction?_fractionText {nano : Nat} (h : nano < 1000000000) :
    readFraction? (fractionText nano ++ ['Z']) = some (nano, ['Z']) := by
  unfold fractionText
  split
  · rename_i hzero
    rw [hzero]
    rfl
  · split
    · rw [List.cons_append, readFraction?_padded (by decide) (by decide) (by omega)]
      congr 2
      omega
    · split
      · rw [List.cons_append, readFraction?_padded (by decide) (by decide) (by omega)]
        congr 2
        omega
      · rw [List.cons_append, readFraction?_padded (by decide) (by decide) (by omega)]
        simp

/-! ### Instants -/

/-- The days that instants have lie in the years from -262143 to 262142, counted from March to March. -/
theorem marchYear_range {year day days : Int} (hday : 0 ≤ day ∧ day ≤ 365)
    (hdays : days = Date.marchYearStart year + day - 719468) (hlow : -96465292 ≤ days)
    (hhigh : days ≤ 95026236) :
    (-262144 ≤ year ∧ (year = -262144 → 306 ≤ day)) ∧ year ≤ 262142 ∧ (year = 262142 → day ≤ 305) := by
  rw [Date.marchYearStart] at hdays
  refine ⟨⟨?_, ?_⟩, ?_, ?_⟩
  · omega
  · rintro rfl
    omega
  · omega
  · rintro rfl
    omega

theorem year_ofDays {days : Int} (hlow : -96465292 ≤ days) (hhigh : days ≤ 95026236) :
    -262143 ≤ (Date.ofDays days).year ∧ (Date.ofDays days).year ≤ 262142 := by
  obtain ⟨year, day, hdate, hday, -, hdays⟩ := Date.ofDays_eq days
  obtain ⟨shifted, -, hfirst, hlast, hmonth⟩ := Date.ofMarchDay_eq year hday
  obtain ⟨⟨hlow', hfirstYear⟩, hhigh', hlastYear⟩ := marchYear_range hday hdays hlow hhigh
  have hspring : shifted < 10 ↔ day < 306 := by omega
  rw [hdate, hmonth]
  dsimp only
  split <;> omega

/-- The parts of an instant make it up again. -/
theorem ofParts?_parts (a : Instant) :
    ofParts? (Date.ofDays a.day) (a.second / 3600) (a.second / 60 % 60)
      (a.second % 60 + a.nano / 1000000000) (a.nano % 1000000000) 0 = some a := by
  have hsecond := a.second_lt
  have hnano := a.nano_lt
  have hleap := a.leap
  have hsixty : a.second % 60 + a.nano / 1000000000 ≤ 60 := by
    by_cases hlong : 1000000000 ≤ a.nano
    · have := hleap hlong
      omega
    · omega
  have hvalid : ((Date.ofDays a.day).isValid && a.second / 3600 < 24 && a.second / 60 % 60 < 60 &&
      a.second % 60 + a.nano / 1000000000 ≤ 60) = true := by
    simp only [Date.isValid_ofDays, Bool.true_and, Bool.and_eq_true, decide_eq_true_eq]
    omega
  have hparts : (if a.second % 60 + a.nano / 1000000000 = 60 then (59, a.nano % 1000000000 + 1000000000)
      else (a.second % 60 + a.nano / 1000000000, a.nano % 1000000000)) = (a.second % 60, a.nano) := by
    split
    · have : 1000000000 ≤ a.nano := by omega
      have := hleap this
      exact Prod.ext (by dsimp only; omega) (by dsimp only; omega)
    · have : ¬1000000000 ≤ a.nano := fun hlong => by
        have := hleap hlong
        omega
      exact Prod.ext (by dsimp only; omega) (by dsimp only; omega)
  rw [ofParts?, if_pos hvalid, hparts]
  dsimp only
  rw [if_pos (year_ofDays a.day_ge a.day_le), Date.toDays_ofDays]
  have hday : (a.day * 86400 + (a.second / 3600 * 3600 + a.second / 60 % 60 * 60 + a.second % 60 : Nat) - 0) /
      86400 = a.day := by
    omega
  have hrest : ((a.day * 86400 + (a.second / 3600 * 3600 + a.second / 60 % 60 * 60 + a.second % 60 : Nat) - 0) %
      86400).toNat = a.second := by
    omega
  rw [hday, hrest, mk?, dif_pos ⟨⟨a.day_ge, a.day_le⟩, a.second_lt, a.nano_lt, a.leap⟩]

theorem readOffset?_utc : readOffset? ['Z'] = some (0, []) := by decide

/-- A text whose parts are read one after another is the instant of these parts. -/
theorem ofText?_of_parts {year : Int} {month day hour minute second nano : Nat}
    {cs₁ cs₂ cs₃ cs₄ cs₅ cs₆ cs₇ cs : List Char}
    (hyear : readYear? cs = some (year, '-' :: cs₁)) (hmonth : readNumber? 2 cs₁ = some (month, '-' :: cs₂))
    (hday : readNumber? 2 cs₂ = some (day, 'T' :: cs₃)) (hhour : readNumber? 2 cs₃ = some (hour, ':' :: cs₄))
    (hminute : readNumber? 2 cs₄ = some (minute, ':' :: cs₅)) (hsecond : readNumber? 2 cs₅ = some (second, cs₆))
    (hnano : readFraction? cs₆ = some (nano, cs₇)) (hoffset : readOffset? cs₇ = some (0, [])) :
    ofText? cs = ofParts? ⟨year, month, day⟩ hour minute second nano 0 := by
  have hdash := @readMark?_cons '-' (by decide)
  have hcolon := @readMark?_cons ':' (by decide)
  have hjoin : ∀ r, readJoin? ('T' :: r) = some r := fun _ => rfl
  have hbind : ∀ {α β : Type} (x : α) (f : α → Option β), (some x >>= f) = f x := fun _ _ => rfl
  rw [ofText?, hyear, hbind]
  dsimp only
  rw [hdash, hbind, hmonth, hbind]
  dsimp only
  rw [hdash, hbind, hday, hbind]
  dsimp only
  rw [hjoin, hbind, hhour, hbind]
  dsimp only
  rw [hcolon, hbind, hminute, hbind]
  dsimp only
  rw [hcolon, hbind, hsecond, hbind]
  dsimp only
  rw [hnano, hbind]
  dsimp only
  rw [hoffset, hbind]
  exact if_pos Text.trimStart_nil

/-- An instant is read back as it was written. -/
theorem ofText?_toText (a : Instant) : ofText? a.toText = some a := by
  have hsecond := a.second_lt
  have hnano := a.nano_lt
  have hmonth := Date.month_lt_of_isValid (Date.isValid_ofDays a.day)
  have hday := Date.day_lt_of_isValid (Date.isValid_ofDays a.day)
  have htwo : ∀ {n : Nat} (r : List Char), n < 100 → readNumber? 2 (padded 2 n ++ r) = some (n, r) :=
    fun r h => readNumber?_padded (by decide) (by omega) r
  rw [toText]
  simp only [List.append_assoc, List.cons_append]
  rw [ofText?_of_parts (readYear?_yearText _ _) (htwo _ hmonth) (htwo _ hday) (htwo _ (by omega))
    (htwo _ (by omega)) (htwo _ (by omega)) (readFraction?_fractionText (by omega)) readOffset?_utc]
  exact ofParts?_parts a

end Instant

end UsageLedger
