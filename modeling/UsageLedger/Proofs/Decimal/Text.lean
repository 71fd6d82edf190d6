import UsageLedger.Decimal.Text
import UsageLedger.Proofs.Text.Digits

/-! The text of a decimal is read back as that decimal, scale included. Its digits never outgrow the
coefficient nor the places, so nothing is rounded on the way. A text with more places than a decimal has is read as
the nearest decimal. -/

namespace UsageLedger.Decimal

/-! ### Runs of digits -/

/-- The number that digits make after a number read so far. -/
def onto (start : Nat) (cs : List Char) : Nat := cs.foldl (fun n c => 10 * n + Text.digitValue c) start

theorem le_onto (start : Nat) (cs : List Char) : start ≤ onto start cs := by
  induction cs generalizing start with
  | nil => exact Nat.le_refl _
  | cons c cs ih =>
      have := ih (10 * start + Text.digitValue c)
      change start ≤ onto (10 * start + Text.digitValue c) cs
      omega

/-- Digits are taken one by one as long as the number fits and there are places left. -/
theorem foldlM_digits {cs : List Char} (hdigits : ∀ c ∈ cs, c.isDigit = true) {magnitude scale : Nat}
    {anyDigit point : Bool} (hfits : onto magnitude cs < 2 ^ 96)
    (hplaces : point = true → scale + cs.length ≤ 28) :
    cs.foldlM Progress.step? ⟨magnitude, scale, anyDigit, point, false⟩ = some
      ⟨onto magnitude cs, if point then scale + cs.length else scale, anyDigit || !cs.isEmpty, point,
        false⟩ := by
  induction cs generalizing magnitude scale anyDigit with
  | nil => simp [onto]
  | cons c cs ih =>
      have hgrows := le_onto (10 * magnitude + Text.digitValue c) cs
      have hfits' : onto (10 * magnitude + Text.digitValue c) cs < 2 ^ 96 := hfits
      have hroom : (point && 28 ≤ scale) = false := by
        cases point with
        | false => rfl
        | true =>
            have := hplaces rfl
            simp only [List.length_cons] at this
            simp only [Bool.true_and, decide_eq_false_iff_not]
            omega
      have hstep : Progress.step? ⟨magnitude, scale, anyDigit, point, false⟩ c =
          some ⟨10 * magnitude + Text.digitValue c, if point then scale + 1 else scale, true, point, false⟩ := by
        rw [Progress.step?, if_pos (hdigits c List.mem_cons_self), Progress.digit?, if_neg Bool.false_ne_true,
          hroom, if_neg Bool.false_ne_true, if_pos (by dsimp only; omega)]
      rw [List.foldlM_cons, hstep, Option.bind_eq_bind, Option.bind_some,
        ih (fun c' hc' => hdigits c' (List.mem_cons_of_mem c hc')) hfits']
      · cases point <;> simp [onto, Nat.add_assoc, Nat.add_comm 1]
      · intro hpoint
        have := hplaces hpoint
        rw [List.length_cons] at this
        rw [if_pos hpoint]
        omega

/-- Digits in front of the point are read as a number. -/
theorem foldlM_whole {whole : List Char} (hsome : whole ≠ []) (hwhole : ∀ c ∈ whole, c.isDigit = true)
    (hfits : onto 0 whole < 2 ^ 96) :
    whole.foldlM Progress.step? Progress.start = some ⟨onto 0 whole, 0, true, false, false⟩ := by
  rw [Progress.start, foldlM_digits hwhole hfits (fun h => by cases h)]
  simp [hsome]

/-- Digits on both sides of the point are read as one number with the places behind it. -/
theorem foldlM_fraction {whole fraction : List Char} (hsome : whole ≠ []) (hwhole : ∀ c ∈ whole, c.isDigit = true)
    (hfraction : ∀ c ∈ fraction, c.isDigit = true) (hfits : onto (onto 0 whole) fraction < 2 ^ 96)
    (hplaces : fraction.length ≤ 28) : (whole ++ '.' :: fraction).foldlM Progress.step? Progress.start =
      some ⟨onto (onto 0 whole) fraction, fraction.length, true, true, false⟩ := by
  have hgrows := le_onto (onto 0 whole) fraction
  rw [List.foldlM_append, foldlM_whole hsome hwhole (by omega), Option.bind_eq_bind, Option.bind_some,
    List.foldlM_cons]
  change fraction.foldlM Progress.step? ⟨onto 0 whole, 0, true, true, false⟩ = _
  rw [foldlM_digits hfraction hfits (fun _ => by omega)]
  simp

/-- Once the value is settled, digits are read past. -/
theorem foldlM_settled {cs : List Char} (hdigits : ∀ c ∈ cs, c.isDigit = true) {p : Progress}
    (h : p.settled = true) : cs.foldlM Progress.step? p = some p := by
  induction cs with
  | nil => rfl
  | cons c cs ih =>
      have hstep : p.step? c = some p := by
        rw [Progress.step?, if_pos (hdigits c List.mem_cons_self), Progress.digit?, if_pos h]
      rw [List.foldlM_cons, hstep, Option.bind_eq_bind, Option.bind_some,
        ih fun c' hc' => hdigits c' (List.mem_cons_of_mem c hc')]

/-- Behind the last place a digit rounds the value, and no further ones count. -/
theorem foldlM_rounded {whole kept rest : List Char} {c : Char} (hsome : whole ≠ [])
    (hwhole : ∀ c ∈ whole, c.isDigit = true) (hfraction : ∀ d ∈ kept ++ c :: rest, d.isDigit = true)
    (hlength : kept.length = 28) (hfits : onto (onto 0 whole) kept + 1 < 2 ^ 96) :
    (whole ++ '.' :: (kept ++ c :: rest)).foldlM Progress.step? Progress.start =
      some ⟨if Text.digitValue c < 5 then onto (onto 0 whole) kept else onto (onto 0 whole) kept + 1, 28, true, true,
        true⟩ := by
  have hkept : ∀ d ∈ kept, d.isDigit = true := fun d hd => hfraction d (List.mem_append_left _ hd)
  have hc : c.isDigit = true := hfraction c (by simp)
  have hrest : ∀ d ∈ rest, d.isDigit = true := fun d hd => hfraction d (by simp [hd])
  have hstep : Progress.step? ⟨onto (onto 0 whole) kept, 28, true, true, false⟩ c =
      some ⟨if Text.digitValue c < 5 then onto (onto 0 whole) kept else onto (onto 0 whole) kept + 1, 28, true, true,
        true⟩ := by
    rw [Progress.step?, if_pos hc, Progress.digit?, if_neg Bool.false_ne_true, if_pos (by rfl), Progress.settle?]
    by_cases hdown : Text.digitValue c < 5
    · rw [if_pos hdown, if_pos hdown]
    · rw [if_neg hdown, if_neg hdown, if_pos hfits]
  rw [show whole ++ '.' :: (kept ++ c :: rest) = (whole ++ '.' :: kept) ++ c :: rest by simp, List.foldlM_append,
    foldlM_fraction hsome hwhole hkept (by omega) (by omega), hlength, Option.bind_eq_bind, Option.bind_some,
    List.foldlM_cons, hstep, Option.bind_eq_bind, Option.bind_some]
  exact foldlM_settled hrest rfl

/-! ### Texts -/

/-- The text of a magnitude: digits in front of the point and as many behind it as there are places. -/
theorem pointed_cases (magnitude scale : Nat) : ∃ whole fraction : List Char,
    (pointed magnitude scale = whole ∧ fraction = [] ∨ pointed magnitude scale = whole ++ '.' :: fraction) ∧
      whole ≠ [] ∧ fraction.length = scale ∧ (∀ c ∈ whole, c.isDigit = true) ∧
      (∀ c ∈ fraction, c.isDigit = true) ∧ onto (onto 0 whole) fraction = magnitude := by
  unfold pointed
  split
  · rename_i hzero
    exact ⟨Text.digits magnitude, [], .inl ⟨rfl, rfl⟩, Text.digits_ne_nil _, hzero.symm,
      Text.isDigit_of_mem_digits _, by simp, Text.ofDigits_digits _⟩
  · have hlength := Text.le_length_padded (scale + 1) magnitude
    have hdigit := Text.isDigit_of_mem_padded (scale + 1) magnitude
    have hvalue : onto 0 (Text.padded (scale + 1) magnitude) = magnitude := Text.ofDigits_padded _ _
    generalize Text.padded (scale + 1) magnitude = ds at hlength hdigit hvalue
    refine ⟨ds.take (ds.length - scale), ds.drop (ds.length - scale), .inr rfl, ?_, ?_,
      fun c hc => hdigit c (List.mem_of_mem_take hc), fun c hc => hdigit c (List.mem_of_mem_drop hc), ?_⟩
    · intro hnil
      have := congrArg List.length hnil
      rw [List.length_take, List.length_nil] at this
      omega
    · rw [List.length_drop]
      omega
    · rw [← hvalue, onto, onto, onto, ← List.foldl_append, List.take_append_drop]

theorem splitSign_pointed (magnitude scale : Nat) :
    Text.splitSign (pointed magnitude scale) = (false, pointed magnitude scale) := by
  obtain ⟨whole, fraction, hshape, hsome, -, hdigit, -⟩ := pointed_cases magnitude scale
  have hhead : (pointed magnitude scale).head? = whole.head? := by
    rcases hshape with ⟨hshape, -⟩ | hshape
    · rw [hshape]
    · rw [hshape, List.head?_append, Option.or_of_isSome (by simpa using hsome)]
  refine Text.splitSign_of_head fun c hc => ?_
  rw [hhead] at hc
  exact hdigit c (List.mem_of_head? hc)

/-- The digits with the point among them are read as the coefficient and its scale. -/
theorem foldlM_pointed {magnitude scale : Nat} (hfits : magnitude < 2 ^ 96) (hscale : scale ≤ 28) :
    ∃ point, (pointed magnitude scale).foldlM Progress.step? Progress.start =
      some ⟨magnitude, scale, true, point, false⟩ := by
  obtain ⟨whole, fraction, hshape, hsome, hlength, hwhole, hfraction, hvalue⟩ := pointed_cases magnitude scale
  rw [← hvalue] at hfits
  rcases hshape with ⟨hshape, rfl⟩ | hshape
  · exact ⟨false, by rw [hshape, foldlM_whole hsome hwhole hfits, ← hvalue, ← hlength]; rfl⟩
  · refine ⟨true, ?_⟩
    rw [hshape, foldlM_fraction hsome hwhole hfraction hfits (by omega), hvalue, hlength]

/-- What has been read up to the end of a text is the decimal, once its sign is put back. -/
theorem ofText?_of_foldlM {body : List Char} {magnitude scale : Nat} {point settled : Bool} (negative : Bool)
    {d : Decimal} (hsign : Text.splitSign body = (false, body))
    (hread : body.foldlM Progress.step? Progress.start = some ⟨magnitude, scale, true, point, settled⟩)
    (hcoefficient : d.coefficient = if negative then -(magnitude : Int) else magnitude) (hscale : d.scale = scale) :
    ofText? (if negative then '-' :: body else body) = some d := by
  have hplain : ofPlain? (if negative then '-' :: body else body) = some d := by
    cases negative with
    | true =>
        rw [ofPlain?, if_pos rfl]
        simp only [Text.splitSign, hread, Option.bind_eq_bind, Option.bind_some, Progress.finish?, if_true]
        exact mk?_eq_some.2 ⟨hcoefficient, hscale⟩
    | false =>
        rw [ofPlain?, if_neg Bool.false_ne_true, hsign]
        simp only [hread, Option.bind_eq_bind, Option.bind_some, Progress.finish?, if_true, Bool.false_eq_true,
          if_false]
        exact mk?_eq_some.2 ⟨hcoefficient, hscale⟩
  rw [ofText?, hplain]

/-- A decimal is read back as it was written. -/
theorem ofText?_toText (d : Decimal) : ofText? d.toText = some d := by
  obtain ⟨point, hread⟩ := foldlM_pointed d.coefficient_lt d.scale_le
  have hsign := splitSign_pointed d.coefficient.natAbs d.scale
  unfold toText
  by_cases hneg : d.coefficient < 0
  · rw [if_pos hneg]
    exact ofText?_of_foldlM true hsign hread (by rw [if_pos rfl]; omega) rfl
  · rw [if_neg hneg]
    exact ofText?_of_foldlM false hsign hread (by rw [if_neg Bool.false_ne_true]; omega) rfl

end UsageLedger.Decimal
