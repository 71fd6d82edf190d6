import Mathlib.Tactic.Linarith
import Mathlib.Tactic.Ring
import UsageLedger.Instant.Calendar

/-! Every day is one date of the calendar, and its count is found again from the date. The 146097 days of an
era of 400 years are centuries of 36524 days, spans of four years of 1461 days and years of 365, each with
a day more at the end of the last of them; that day is the leap day. -/

namespace UsageLedger.Date

/-- A day of an era by century, span of four years, year and day of the year. The 366th day of a year
comes only in the last year of a span, and in the last span of a century only in the last century. -/
theorem era_cases {e : Int} (hlow : 0 ≤ e) (hhigh : e < 146097) :
    ∃ century span year day : Int, (0 ≤ century ∧ century ≤ 3) ∧ (0 ≤ span ∧ span ≤ 24) ∧
      (0 ≤ year ∧ year ≤ 3) ∧ (0 ≤ day ∧ day ≤ 365) ∧
      (day = 365 → year = 3 ∧ (span = 24 → century = 3)) ∧
      e = 36524 * century + 1461 * span + 365 * year + day := by
  obtain ⟨century, hcentury⟩ : ∃ century, century = min (e / 36524) 3 := ⟨_, rfl⟩
  obtain ⟨rest, hrest⟩ : ∃ rest, rest = e - 36524 * century := ⟨_, rfl⟩
  obtain ⟨year, hyear⟩ : ∃ year, year = min (rest % 1461 / 365) 3 := ⟨_, rfl⟩
  refine ⟨century, rest / 1461, year, rest % 1461 - 365 * year, ?_, ?_, ?_, ?_, ?_, ?_⟩ <;> omega

/-- The year of the era and the day of the year. -/
theorem yearOfEra_eq {century span year day e : Int} (hcentury : 0 ≤ century ∧ century ≤ 3)
    (hspan : 0 ≤ span ∧ span ≤ 24) (hyear : 0 ≤ year ∧ year ≤ 3) (hday : 0 ≤ day ∧ day ≤ 365)
    (hleap : day = 365 → year = 3 ∧ (span = 24 → century = 3))
    (he : e = 36524 * century + 1461 * span + 365 * year + day) :
    (e - e / 1460 + e / 36524 - e / 146096) / 365 = 100 * century + 4 * span + year := by
  have hspans : e / 1460 = 25 * century + span ∨
      e / 1460 = 25 * century + span + 1 ∧ 1460 ≤ 24 * century + span + 365 * year + day := by
    omega
  have hcenturies : e / 36524 = century ∧ e / 146096 = 0 ∨
      e / 36524 = century + 1 ∧ e / 146096 = 1 ∧ year = 3 ∧ day = 365 := by
    omega
  have hwithin : ∃ rest, e - e / 1460 + e / 36524 - e / 146096 = 365 * (100 * century + 4 * span + year) + rest ∧
      0 ≤ rest ∧ rest < 365 := by
    refine ⟨e - e / 1460 + e / 36524 - e / 146096 - 365 * (100 * century + 4 * span + year), by omega, ?_, ?_⟩
    · rcases hspans with hspans | ⟨hspans, hlate⟩
      · rcases hcenturies with ⟨h₁, h₂⟩ | ⟨h₁, h₂, h₃, h₄⟩ <;> omega
      · rcases hcenturies with ⟨h₁, h₂⟩ | ⟨h₁, h₂, h₃, h₄⟩ <;> omega
    · rcases hspans with hspans | ⟨hspans, hlate⟩
      · rcases hcenturies with ⟨h₁, h₂⟩ | ⟨h₁, h₂, h₃, h₄⟩ <;> omega
      · rcases hcenturies with ⟨h₁, h₂⟩ | ⟨h₁, h₂, h₃, h₄⟩ <;> omega
  obtain ⟨rest, hrest, hlow, hhigh⟩ := hwithin
  rw [hrest]
  omega

theorem yearOfEra_div {century span year : Int} (hspan : 0 ≤ span ∧ span ≤ 24)
    (hyear : 0 ≤ year ∧ year ≤ 3) :
    (100 * century + 4 * span + year) / 4 = 25 * century + span ∧
      (100 * century + 4 * span + year) / 100 = century := by
  omega

/-- The date on a day of a year that begins in March. -/
def ofMarchDay (year day : Int) : Date :=
  let shifted := (5 * day + 2) / 153
  let month := if shifted < 10 then shifted + 3 else shifted - 9
  ⟨if month ≤ 2 then year + 1 else year, month.toNat, (day - (153 * shifted + 2) / 5 + 1).toNat⟩

/-- The days before a year that begins in March. -/
def marchYearStart (year : Int) : Int :=
  year / 400 * 146097 + (year % 400 * 365 + year % 400 / 4 - year % 400 / 100)

theorem marchYearStart_of_era {era y : Int} (hlow : 0 ≤ y) (hhigh : y < 400) :
    marchYearStart (y + era * 400) = era * 146097 + (y * 365 + y / 4 - y / 100) := by
  have hera : (y + era * 400) / 400 = era := by omega
  have hyear : (y + era * 400) % 400 = y := by omega
  rw [marchYearStart, hera, hyear]

/-- The last day of a year of 366 days is the leap day of the year after. -/
theorem leap_of_last {era century span year : Int} (hyear : year = 3) (hspan : 0 ≤ span ∧ span ≤ 24)
    (hlast : span = 24 → century = 3) :
    (100 * century + 4 * span + year + era * 400 + 1) % 4 = 0 ∧
      ((100 * century + 4 * span + year + era * 400 + 1) % 100 ≠ 0 ∨
        (100 * century + 4 * span + year + era * 400 + 1) % 400 = 0) := by
  omega

theorem ofDays_eq (days : Int) : ∃ year day : Int, ofDays days = ofMarchDay year day ∧
    (0 ≤ day ∧ day ≤ 365) ∧
    (day = 365 → (year + 1) % 4 = 0 ∧ ((year + 1) % 100 ≠ 0 ∨ (year + 1) % 400 = 0)) ∧
    days = marchYearStart year + day - 719468 := by
  obtain ⟨century, span, year, day, hcentury, hspan, hyear, hday, hleap, he⟩ :=
    era_cases (e := (days + 719468) % 146097) (Int.emod_nonneg _ (by decide)) (Int.emod_lt_of_pos _ (by decide))
  have hyearOfEra := yearOfEra_eq hcentury hspan hyear hday hleap he
  obtain ⟨hspans, hcenturies⟩ := yearOfEra_div hspan hyear
  refine ⟨100 * century + 4 * span + year + (days + 719468) / 146097 * 400, day, ?_, hday, ?_, ?_⟩
  · have hdayOfYear : (days + 719468) % 146097 - (365 * (100 * century + 4 * span + year) +
        (25 * century + span) - century) = day := by
      rw [he]
      ring
    rw [ofDays, hyearOfEra, hspans, hcenturies, hdayOfYear, ofMarchDay]
  · intro hlast
    exact leap_of_last (hleap hlast).1 hspan (hleap hlast).2
  · have hdays := Int.mul_ediv_add_emod (days + 719468) 146097
    rw [he] at hdays
    rw [marchYearStart_of_era (by linarith) (by linarith), hspans, hcenturies]
    linarith

/-- A month by its place in a year that begins in March: it begins on day `(153 * shifted + 2) / 5`. -/
theorem ofMarchDay_eq (year : Int) {day : Int} (hday : 0 ≤ day ∧ day ≤ 365) :
    ∃ shifted : Int, (0 ≤ shifted ∧ shifted ≤ 11) ∧
      (153 * shifted + 2) / 5 ≤ day ∧ day < (153 * (shifted + 1) + 2) / 5 ∧
      ofMarchDay year day = ⟨if shifted < 10 then year else year + 1,
        (if shifted < 10 then shifted + 3 else shifted - 9).toNat,
        (day - (153 * shifted + 2) / 5 + 1).toNat⟩ := by
  obtain ⟨shifted, hshifted⟩ : ∃ shifted, shifted = (5 * day + 2) / 153 := ⟨_, rfl⟩
  refine ⟨shifted, by omega, by omega, by omega, ?_⟩
  rw [ofMarchDay, ← hshifted]
  by_cases hspring : shifted < 10
  · rw [if_pos hspring, if_pos hspring, if_neg (by omega)]
  · rw [if_neg hspring, if_neg hspring, if_pos (by omega)]

/-- The count of days is found again from the date. -/
theorem toDays_ofDays (days : Int) : toDays (ofDays days) = days := by
  obtain ⟨year, day, hdate, hday, -, hdays⟩ := ofDays_eq days
  obtain ⟨shifted, hrange, hfirst, -, hmonth⟩ := ofMarchDay_eq year hday
  have hyear : (if (if shifted < 10 then shifted + 3 else shifted - 9).toNat ≤ 2
      then (if shifted < 10 then year else year + 1) - 1 else if shifted < 10 then year else year + 1) = year := by
    by_cases hspring : shifted < 10
    · rw [if_pos hspring, if_pos hspring, if_neg (by omega)]
    · rw [if_neg hspring, if_neg hspring, if_pos (by omega)]
      omega
  have hback : (((if shifted < 10 then shifted + 3 else shifted - 9).toNat : Int) + 9) % 12 = shifted := by
    by_cases hspring : shifted < 10
    · rw [if_pos hspring]
      omega
    · rw [if_neg hspring]
      omega
  have hdayOfYear : (153 * shifted + 2) / 5 + ((day - (153 * shifted + 2) / 5 + 1).toNat : Int) - 1 = day := by
    omega
  rw [hdate, hmonth, toDays, hyear, hback, hdayOfYear, hdays, marchYearStart]
  ring

/-- Every day is a date. -/
theorem isValid_ofDays (days : Int) : (ofDays days).isValid = true := by
  obtain ⟨year, day, hdate, hday, hleap, -⟩ := ofDays_eq days
  obtain ⟨shifted, hrange, hfirst, hlast, hmonth⟩ := ofMarchDay_eq year hday
  have hmonths : shifted = 0 ∨ shifted = 1 ∨ shifted = 2 ∨ shifted = 3 ∨ shifted = 4 ∨ shifted = 5 ∨
      shifted = 6 ∨ shifted = 7 ∨ shifted = 8 ∨ shifted = 9 ∨ shifted = 10 ∨ shifted = 11 := by
    omega
  have hfebruary : shifted = 11 → day - 336 ≤ if isLeap (year + 1) then 29 else 28 := by
    intro _
    by_cases hlong : day = 365
    · have hisLeap : isLeap (year + 1) = true := by
        obtain ⟨hfour, hcentury⟩ := hleap hlong
        simpa [isLeap, hfour] using hcentury
      rw [if_pos hisLeap]
      omega
    · split <;> omega
  rw [hdate, hmonth, isValid]
  simp only [Bool.and_eq_true, decide_eq_true_eq]
  rcases hmonths with rfl | rfl | rfl | rfl | rfl | rfl | rfl | rfl | rfl | rfl | rfl | rfl
  all_goals simp [monthLength] at hfebruary ⊢
  all_goals omega

theorem month_lt_of_isValid {d : Date} (h : d.isValid = true) : d.month < 100 := by
  simp only [isValid, Bool.and_eq_true, decide_eq_true_eq] at h
  omega

theorem day_lt_of_isValid {d : Date} (h : d.isValid = true) : d.day < 100 := by
  have hlength : monthLength d.year d.month ≤ 31 := by
    unfold monthLength
    split
    · split <;> decide
    · split <;> decide
  simp only [isValid, Bool.and_eq_true, decide_eq_true_eq] at h
  omega

end UsageLedger.Date
