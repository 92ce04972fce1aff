import CodeIndex.Timestamp

/-!
# Reading back a point in time

A point in time is written in one form and read in many.  The written form pads every field with
zeros to a fixed width, and such a field is read by its width alone, whatever stands behind it.
Only a year that four digits do not hold has no fixed width; it is read up to the dash.

* `number?_padded` : a padded number is read back.
* `parse?_text` : a point in time is read back from its text.
-/

namespace CodeIndex.Timestamp

open Text

/-- A day of the calendar and a time on it; any minute may have a sixty-first second. -/
structure IsValid (t : Timestamp) : Prop where
  day : t.day.isValid = true
  minute : t.minute < minutesPerDay
  second : t.second ≤ 60
  nano : t.nano < 1000000000

/-! ## Padded numbers -/

/-- A padded number is its digits behind as many zeros as are missing. -/
theorem toList_padded (width n : Nat) : (padded width n).toList
    = List.replicate (width - (Nat.toDigits 10 n).length) '0' ++ Nat.toDigits 10 n := by
  rw [padded, String.toList_ofList]

/-- A padded number consists of digits. -/
theorem isDigit_of_mem_padded {width n : Nat} {c : Char} (h : c ∈ (padded width n).toList) :
    c.isDigit = true := by
  rw [toList_padded, List.mem_append] at h
  rcases h with hzero | hdigit
  · rw [(List.mem_replicate.mp hzero).2]
    rfl
  · exact Nat.isDigit_of_mem_toDigits (by decide) (by decide) hdigit

/-- The zeros in front do not change the number. -/
theorem numberValue_padded (width n : Nat) : numberValue (padded width n).toList = n := by
  have hzeros : ∀ k, (List.replicate k '0').foldl
      (fun m d => m * 10 + (d.toNat - '0'.toNat)) 0 = 0 := by
    intro k
    induction k with
    | zero => rfl
    | succ k ih => exact ih
  have hdigits : (Nat.toDigits 10 n).foldl (fun m d => m * 10 + (d.toNat - '0'.toNat)) 0 = n := by
    have h := @Nat.ofDigitChars_ten_toDigits n
    unfold Nat.ofDigitChars at h
    simpa only [Nat.mul_comm] using h
  rw [toList_padded, numberValue, List.foldl_append, hzeros, hdigits]

/-- The digits fill the width when they fit into it. -/
theorem length_padded {width n : Nat} (h : (Nat.toDigits 10 n).length ≤ width) :
    (padded width n).toList.length = width := by
  rw [toList_padded, List.length_append, List.length_replicate]
  omega

/-- A padded number is never empty. -/
theorem padded_ne_nil (width n : Nat) : (padded width n).toList ≠ [] := by
  rw [toList_padded]
  simp [Nat.toDigits_ne_nil]

/-- The digits that are read reach to the end of a padded number. -/
theorem takeWhile_padded (width n : Nat) (rest : List Char) :
    ((padded width n).toList ++ rest).takeWhile Char.isDigit
      = (padded width n).toList ++ rest.takeWhile Char.isDigit :=
  List.takeWhile_append_of_pos fun _ hc => isDigit_of_mem_padded hc

/-- A padded number is read back, whatever stands behind it. -/
theorem number?_padded {width n : Nat} (h : (Nat.toDigits 10 n).length ≤ width)
    (rest : List Char) : number? width ((padded width n).toList ++ rest) = some (n, rest) := by
  have hlength := length_padded h
  have hdigits : (padded width n).toList.takeWhile Char.isDigit = (padded width n).toList := by
    simpa using takeWhile_padded width n []
  have hempty : (padded width n).toList.isEmpty = false := by
    simpa using padded_ne_nil width n
  simp only [number?, List.take_left' hlength, hdigits, hempty, numberValue_padded,
    List.drop_left, Bool.false_eq_true, if_false]

/-- Without a width it is read up to the first character that is no digit. -/
theorem number?_padded_stop (width n : Nat) {stop : Char} (hstop : stop.isDigit = false)
    (rest : List Char) :
    number? ((padded width n).toList ++ stop :: rest).length
        ((padded width n).toList ++ stop :: rest) = some (n, stop :: rest) := by
  have hdigits : ((padded width n).toList ++ stop :: rest).takeWhile Char.isDigit
      = (padded width n).toList := by
    rw [takeWhile_padded, List.takeWhile_cons_of_neg (by simp [hstop]), List.append_nil]
  have hempty : (padded width n).toList.isEmpty = false := by
    simpa using padded_ne_nil width n
  simp only [number?, List.take_length, hdigits, hempty, numberValue_padded,
    List.drop_left, Bool.false_eq_true, if_false]

/-- A padded number starts with a digit. -/
theorem exists_digit_cons_padded (width n : Nat) (rest : List Char) :
    ∃ d tail, d.isDigit = true ∧ (padded width n).toList ++ rest = d :: tail := by
  cases hdigits : (padded width n).toList with
  | nil => exact absurd hdigits (padded_ne_nil width n)
  | cons d tail =>
      have hmem : d ∈ (padded width n).toList := by
        rw [hdigits]
        exact .head _
      exact ⟨d, tail ++ rest, isDigit_of_mem_padded hmem, rfl⟩

/-! ## Fields -/

/-- No blank is skipped in front of a digit. -/
theorem trimStart_of_isDigit {d : Char} (h : d.isDigit = true) (rest : List Char) :
    trimStart (d :: rest) = d :: rest := by
  refine List.dropWhile_cons_of_neg ?_
  simp only [Char.isDigit, ge_iff_le, Bool.and_eq_true, decide_eq_true_eq, UInt32.le_iff_toNat_le]
    at h
  have hlow : 48 ≤ d.toNat := h.1
  have hhigh : d.toNat ≤ 57 := h.2
  simp only [isBlank, Bool.not_eq_true, Bool.or_eq_false_iff, Bool.and_eq_false_iff,
    decide_eq_false_iff_not, beq_eq_false_iff_ne]
  omega

/-- No blank is skipped in front of a padded number. -/
theorem trimStart_padded (width n : Nat) (rest : List Char) :
    trimStart ((padded width n).toList ++ rest) = (padded width n).toList ++ rest := by
  obtain ⟨d, tail, hd, heq⟩ := exists_digit_cons_padded width n rest
  rw [heq, trimStart_of_isDigit hd]

/-- A field of a fixed width is read back. -/
theorem field?_padded {width n : Nat} (h : (Nat.toDigits 10 n).length ≤ width)
    (rest : List Char) : field? width ((padded width n).toList ++ rest) = some (n, rest) := by
  rw [field?, trimStart_padded, number?_padded h]

/-- A number below a power of ten has at most that many digits. -/
theorem length_toDigits_le {n width : Nat} (hwidth : 0 < width) (h : n < Nat.pow 10 width) :
    (Nat.toDigits 10 n).length ≤ width :=
  (Nat.length_toDigits_le_iff (by decide) hwidth).mpr h

/-- A year is read back up to the dash behind it. -/
theorem year?_yearText (year : Int) (rest : List Char) :
    year? ((yearText year).toList ++ '-' :: rest) = some (year, '-' :: rest) := by
  by_cases hshort : 0 ≤ year ∧ year ≤ 9999
  · obtain ⟨d, tail, hd, heq⟩ := exists_digit_cons_padded 4 year.toNat ('-' :: rest)
    have hdigits : (Nat.toDigits 10 year.toNat).length ≤ 4 :=
      length_toDigits_le (by decide) (show year.toNat < 10000 by omega)
    have hnumber := number?_padded hdigits ('-' :: rest)
    have hminus : d ≠ '-' := by
      rintro rfl
      cases hd
    have hplus : d ≠ '+' := by
      rintro rfl
      cases hd
    rw [heq] at hnumber
    rw [yearText, if_pos hshort, heq, year?, trimStart_of_isDigit hd]
    split
    · rename_i hcons
      cases hcons
      exact absurd rfl hminus
    · rename_i hcons
      cases hcons
      exact absurd rfl hplus
    · rw [hnumber, Option.map_some]
      exact congrArg (fun y => some (y, '-' :: rest)) (Int.toNat_of_nonneg hshort.1)
  · have hnumber := number?_padded_stop 4 year.natAbs (show '-'.isDigit = false from rfl) rest
    rw [yearText, if_neg hshort, String.toList_append, List.append_assoc]
    by_cases hneg : year < 0
    · have hbehind : ∀ cs, year? ('-' :: cs)
          = (number? cs.length cs).map fun e => (-(e.1 : Int), e.2) := fun _ => rfl
      rw [if_pos hneg, show "-".toList = ['-'] from rfl, List.singleton_append, hbehind, hnumber,
        Option.map_some]
      exact congrArg (fun y => some (y, '-' :: rest)) (show -(year.natAbs : Int) = year by omega)
    · have hahead : ∀ cs, year? ('+' :: cs)
          = (number? cs.length cs).map fun e => ((e.1 : Int), e.2) := fun _ => rfl
      rw [if_neg hneg, show "+".toList = ['+'] from rfl, List.singleton_append, hahead, hnumber,
        Option.map_some]
      exact congrArg (fun y => some (y, '-' :: rest)) (show (year.natAbs : Int) = year by omega)

/-- The date of a timestamp is read back. -/
theorem day?_dateText {t : Timestamp} (h : t.day.isValid = true) (rest : List Char) :
    day? (t.dateText.toList ++ rest) = some (t.day, rest) := by
  have hvalid := h
  simp only [Day.isValid, Bool.and_eq_true, decide_eq_true_eq] at hvalid
  obtain ⟨⟨⟨-, hmonth⟩, -⟩, hday⟩ := hvalid
  have hdays : Day.daysInMonth t.day.year t.day.month ≤ 31 := by
    unfold Day.daysInMonth
    split <;> split <;> omega
  have htext : t.dateText.toList ++ rest = (yearText t.day.year).toList ++ '-' ::
      ((padded 2 t.day.month).toList ++ '-' :: ((padded 2 t.day.day).toList ++ rest)) := by
    simp [dateText]
  have hseparator : ∀ cs, separator? '-' ('-' :: cs) = some cs := fun cs => rfl
  rw [htext, day?, year?_yearText]
  simp only [Option.bind_eq_bind, Option.bind_some, hseparator]
  rw [field?_padded (length_toDigits_le (by decide) (show t.day.month < 100 by omega)),
    Option.bind_some, hseparator, Option.bind_some,
    field?_padded (length_toDigits_le (by decide) (show t.day.day < 100 by omega)),
    Option.bind_some, if_pos h]

/-- The digits behind the point are read back in nanoseconds. -/
theorem fraction?_padded {width n : Nat} (hwidth : width ≤ 9)
    (h : (Nat.toDigits 10 n).length ≤ width) :
    fraction? ('.' :: ((padded width n).toList ++ ['Z']))
      = some (n * Nat.pow 10 (9 - width), ['Z']) := by
  have hlength := length_padded h
  have hdigits : (((padded width n).toList ++ ['Z']).take 9).takeWhile Char.isDigit
      = (padded width n).toList := by
    rw [List.take_append, List.take_of_length_le (by omega), takeWhile_padded]
    cases 9 - (padded width n).toList.length with
    | zero => simp
    | succ k => simp
  have hempty : (padded width n).toList.isEmpty = false := by
    simpa using padded_ne_nil width n
  simp only [fraction?, hdigits, hempty, numberValue_padded, hlength, Bool.false_eq_true, if_false,
    List.drop_left' hlength]
  rfl

/-- The fraction of a second is read back. -/
theorem fraction?_fractionText {nano : Nat} (h : nano < 1000000000) :
    fraction? ((fractionText nano).toList ++ ['Z']) = some (nano, ['Z']) := by
  have hpoint : ∀ width n, ("." ++ padded width n).toList ++ ['Z']
      = '.' :: ((padded width n).toList ++ ['Z']) := by
    intro width n
    simp
  unfold fractionText
  split
  · subst nano
    rfl
  · split
    · rw [hpoint, fraction?_padded (by decide)
        (length_toDigits_le (by decide) (show nano / 1000000 < 1000 by omega))]
      show some (nano / 1000000 * 1000000, _) = _
      rw [Nat.div_mul_cancel (by omega)]
    · split
      · rw [hpoint, fraction?_padded (by decide)
          (length_toDigits_le (by decide) (show nano / 1000 < 1000000 by omega))]
        show some (nano / 1000 * 1000, _) = _
        rw [Nat.div_mul_cancel (by omega)]
      · rw [hpoint, fraction?_padded (by decide)
          (length_toDigits_le (by decide) (show nano < 1000000000 by omega))]
        show some (nano * 1, _) = _
        rw [Nat.mul_one]

/-- The clock time is read back, with its fraction. -/
theorem clock?_clockText {t : Timestamp} (h : t.IsValid) :
    clock? (t.clockText.toList ++ ((fractionText t.nano).toList ++ ['Z']))
      = some ((t.minute, t.second, t.nano), ['Z']) := by
  have hminute : t.minute < 1440 := h.minute
  have hsecond := h.second
  have htext : ∀ rest, t.clockText.toList ++ rest = (padded 2 (t.minute / 60)).toList ++ ':' ::
      ((padded 2 (t.minute % 60)).toList ++ ':' :: ((padded 2 t.second).toList ++ rest)) := by
    intro rest
    simp [clockText]
  have hseparator : ∀ cs, separator? ':' (':' :: cs) = some cs := fun cs => rfl
  have hclock : t.minute / 60 * 60 + t.minute % 60 = t.minute := by omega
  rw [htext, clock?, field?_padded (length_toDigits_le (by decide)
    (show t.minute / 60 < 100 by omega))]
  simp only [Option.bind_eq_bind, Option.bind_some, hseparator]
  rw [field?_padded (length_toDigits_le (by decide) (show t.minute % 60 < 100 by omega)),
    Option.bind_some, hseparator, Option.bind_some,
    field?_padded (length_toDigits_le (by decide) (show t.second < 100 by omega)),
    Option.bind_some, fraction?_fractionText h.nano, Option.bind_some, if_pos, hclock]
  simp only [Bool.and_eq_true, decide_eq_true_eq]
  omega

/-- A timestamp in universal time needs no shift. -/
theorem toUniversal_zero {t : Timestamp} (h : t.minute < minutesPerDay) :
    t.toUniversal 0 = t := by
  have hlow : ¬(t.minute : Int) - 0 < 0 := by omega
  have hhigh : ¬(minutesPerDay : Int) ≤ (t.minute : Int) - 0 := by omega
  simp only [toUniversal, if_neg hlow, if_neg hhigh]
  simp

/-- **A point in time is read back from its text.** -/
theorem parse?_text {t : Timestamp} (h : t.IsValid) : parse? t.text = some t := by
  have htext : t.text.toList = t.dateText.toList ++ 'T' ::
      (t.clockText.toList ++ ((fractionText t.nano).toList ++ ['Z'])) := by
    simp [text]
  have hoffset : offset? (trimStart ['Z']) = some (0, []) := rfl
  rw [parse?, htext, day?_dateText h.day]
  simp only [Option.bind_eq_bind, Option.bind_some]
  rw [clock?_clockText h, Option.bind_some]
  simp only [hoffset, Option.bind_some]
  rw [toUniversal_zero h.minute, if_pos h.day]
  rfl

end CodeIndex.Timestamp
