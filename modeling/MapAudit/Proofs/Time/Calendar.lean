import MapAudit.Time.Calendar

namespace MapAudit.Time

theorem daysBeforeYear_le {a b : Int} (h : a ≤ b) : daysBeforeYear a ≤ daysBeforeYear b := by
  unfold daysBeforeYear
  dsimp only
  omega

/-- A day is no earlier than the first day of its year, and earlier than that of the next. -/
theorem yearOfDay_spec (n : Int) :
    daysBeforeYear (yearOfDay n) ≤ n ∧ n < daysBeforeYear (yearOfDay n + 1) := by
  unfold yearOfDay
  dsimp only
  -- The guess is off by one year at most, either way.
  split
  · unfold daysBeforeYear at *
    dsimp only at *
    omega
  · split
    · unfold daysBeforeYear at *
      dsimp only at *
      omega
    · omega

/-- Only the years around a day can be its year. -/
theorem yearOfDay_between {n first last : Int} (hfirst : daysBeforeYear first ≤ n)
    (hlast : n < daysBeforeYear (last + 1)) : first ≤ yearOfDay n ∧ yearOfDay n ≤ last := by
  obtain ⟨hle, hlt⟩ := yearOfDay_spec n
  refine ⟨Int.not_lt.1 fun hbefore => ?_, Int.not_lt.1 fun hafter => ?_⟩
  · have hyear := daysBeforeYear_le (show yearOfDay n + 1 ≤ first by omega)
    omega
  · have hyear := daysBeforeYear_le (show last + 1 ≤ yearOfDay n by omega)
    omega

def daysIn (lengths : List Nat) : Nat := lengths.foldl (· + ·) 0

theorem daysIn_cons (length : Nat) (rest : List Nat) :
    daysIn (length :: rest) = length + daysIn rest := by
  unfold daysIn
  rw [List.foldl_cons, Nat.zero_add, ← Nat.add_zero length, List.foldl_assoc, Nat.add_zero]

/-- The months of a year make up the year. -/
theorem daysIn_monthLengths (year : Int) :
    (daysIn (monthLengths year) : Int) = daysBeforeYear (year + 1) - daysBeforeYear year := by
  have hleap : isLeapYear year = true ↔ year % 4 = 0 ∧ (¬year % 100 = 0 ∨ year % 400 = 0) := by
    simp [isLeapYear]
  unfold monthLengths daysBeforeYear daysIn
  dsimp only [List.foldl_cons, List.foldl_nil]
  split
  · next h =>
    rw [hleap] at h
    omega
  · next h =>
    rw [hleap] at h
    omega

/-- A day of a year is found in a month, with the months before it complete. -/
theorem monthOfDay_spec (lengths : List Nat) (n : Nat) (h : n < daysIn lengths) :
    (monthOfDay lengths n).1 < lengths.length ∧
      (monthOfDay lengths n).2 < lengths.getD (monthOfDay lengths n).1 0 ∧
      daysIn (lengths.take (monthOfDay lengths n).1) + (monthOfDay lengths n).2 = n := by
  induction lengths generalizing n with
  | nil => cases h
  | cons length rest ih =>
    unfold monthOfDay
    by_cases hn : n < length
    · rw [if_pos hn]
      exact ⟨Nat.zero_lt_succ _, hn, Nat.zero_add n⟩
    · rw [if_neg hn]
      rw [daysIn_cons] at h
      obtain ⟨hmonth, hday, hsum⟩ := ih (n - length) (by omega)
      refine ⟨Nat.succ_lt_succ hmonth, hday, ?_⟩
      dsimp only
      rw [List.take_succ_cons, daysIn_cons]
      omega

theorem monthLengths_getD_le (year : Int) (month : Nat) :
    (monthLengths year).getD month 0 ≤ 31 := by
  have hall : ∀ length ∈ monthLengths year, length ≤ 31 := by
    unfold monthLengths
    split <;> decide
  rw [List.getD_eq_getElem?_getD]
  cases h : (monthLengths year)[month]? with
  | none => exact Nat.zero_le 31
  | some length => exact hall length (List.mem_of_getElem? h)

namespace Date

theorem bounds_of_isValid {d : Date} (h : d.isValid = true) :
    (1 ≤ d.month ∧ d.month ≤ 12) ∧ 1 ≤ d.day ∧ d.day ≤ 31 := by
  unfold isValid at h
  simp only [Bool.and_eq_true, decide_eq_true_eq] at h
  obtain ⟨⟨hmonth, hday⟩, hlast⟩ := h
  exact ⟨hmonth, hday, Nat.le_trans hlast (monthLengths_getD_le d.year (d.month - 1))⟩

theorem year_ofDays (n : Int) : (ofDays n).year = yearOfDay (n + epochOffset) := rfl

/-- Where the date of a day number lies in its year. -/
theorem ofDays_spec (n : Int) :
    1 ≤ (ofDays n).month ∧ (ofDays n).month ≤ 12 ∧ 1 ≤ (ofDays n).day ∧
      (ofDays n).day ≤ (monthLengths (ofDays n).year).getD ((ofDays n).month - 1) 0 ∧
      daysBeforeYear (ofDays n).year + daysBeforeMonth (ofDays n).year (ofDays n).month +
        ((ofDays n).day - 1 : Int) = n + epochOffset := by
  obtain ⟨hle, hlt⟩ := yearOfDay_spec (n + epochOffset)
  have hlength := daysIn_monthLengths (yearOfDay (n + epochOffset))
  obtain ⟨hmonth, hday, hsum⟩ := monthOfDay_spec (monthLengths (yearOfDay (n + epochOffset)))
    (n + epochOffset - daysBeforeYear (yearOfDay (n + epochOffset))).toNat (by omega)
  have htwelve : (monthLengths (yearOfDay (n + epochOffset))).length = 12 := rfl
  have hbefore (month : Nat) : daysBeforeMonth (yearOfDay (n + epochOffset)) month =
      daysIn ((monthLengths (yearOfDay (n + epochOffset))).take (month - 1)) := rfl
  unfold ofDays
  dsimp only
  rw [hbefore, Nat.add_sub_cancel]
  -- Months and days count from one in a date and from zero in `monthOfDay`.
  refine ⟨by omega, by omega, by omega, hday, ?_⟩
  omega

/-- The date of a day number exists. -/
theorem isValid_ofDays (n : Int) : (ofDays n).isValid = true := by
  obtain ⟨hm, hm', hd, hd', -⟩ := ofDays_spec n
  unfold isValid
  simp only [Bool.and_eq_true, decide_eq_true_eq]
  exact ⟨⟨⟨hm, hm'⟩, hd⟩, hd'⟩

/-- The date of a day number has this day number. -/
theorem toDays_ofDays (n : Int) : (ofDays n).toDays = n := by
  obtain ⟨-, -, -, -, hn⟩ := ofDays_spec n
  unfold toDays
  omega

end Date

end MapAudit.Time
