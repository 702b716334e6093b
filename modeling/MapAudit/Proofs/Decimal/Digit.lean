import MapAudit.Decimal.Digit

namespace MapAudit.Decimal

@[simp] theorem Digit.ofChar?_toChar (d : Digit) : ofChar? d.toChar = some d := by
  revert d
  decide

/-- A digit is no sign. -/
theorem Digit.toChar_ne_sign (d : Digit) : d.toChar ≠ '-' ∧ d.toChar ≠ '+' := by
  revert d
  decide

theorem digitChar_eq_toChar {n : Nat} (h : n < 10) :
    Nat.digitChar n = Digit.toChar ⟨n, h⟩ := rfl

theorem digits_of_lt {n : Nat} (h : n < 10) : digits n = [⟨n, h⟩] := by
  unfold digits
  rw [Nat.toDigits_of_lt_base h, digitChar_eq_toChar h]
  simp

theorem digits_of_ge {n : Nat} (h : 10 ≤ n) :
    digits n = digits (n / 10) ++ [⟨n % 10, Nat.mod_lt n (by decide)⟩] := by
  unfold digits
  rw [Nat.toDigits_of_base_le (by decide) h, List.filterMap_append,
    digitChar_eq_toChar (Nat.mod_lt n (by decide))]
  simp

theorem value_append_singleton (ds : List Digit) (d : Digit) :
    value (ds ++ [d]) = 10 * value ds + d.val := by
  simp [value]

/-- The digits of a number spell it. -/
theorem value_digits (n : Nat) : value (digits n) = n := by
  induction n using Nat.strongRecOn with
  | ind n ih =>
    by_cases h : n < 10
    · rw [digits_of_lt h]
      simp [value]
    · have hge : 10 ≤ n := by omega
      -- The last digit spells the remainder, those before it the quotient.
      rw [digits_of_ge hge, value_append_singleton, ih (n / 10) (by omega)]
      dsimp only
      omega

/-- Only zero begins with a zero. -/
theorem digits_eq_cons {n : Nat} (h : n ≠ 0) :
    ∃ (d : Digit) (ds : List Digit), digits n = d :: ds ∧ d ≠ 0 := by
  induction n using Nat.strongRecOn with
  | ind n ih =>
    by_cases hn : n < 10
    · refine ⟨⟨n, hn⟩, [], digits_of_lt hn, fun e => h ?_⟩
      exact congrArg Fin.val e
    · have hge : 10 ≤ n := by omega
      -- The first digit is that of the quotient, which is not zero either.
      obtain ⟨d, ds, hds, hd⟩ := ih (n / 10) (by omega) (by omega)
      exact ⟨d, ds ++ [_], by rw [digits_of_ge hge, hds, List.cons_append], hd⟩

theorem digits_ne_nil (n : Nat) : digits n ≠ [] := by
  by_cases h : n = 0
  · subst h
    decide
  · obtain ⟨d, ds, hds, -⟩ := digits_eq_cons h
    rw [hds]
    exact List.cons_ne_nil d ds

def NoDigit (cs : List Char) : Prop := ∀ c ∈ cs.head?, Digit.ofChar? c = none

theorem takeDigits_of_noDigit {cs : List Char} (h : NoDigit cs) : takeDigits cs = ([], cs) := by
  cases cs with
  | nil => rfl
  | cons c cs =>
    unfold takeDigits
    rw [h c rfl]

/-- What follows the digits stays. -/
theorem takeDigits_text (ds : List Digit) {rest : List Char} (h : NoDigit rest) :
    takeDigits (text ds ++ rest) = (ds, rest) := by
  induction ds with
  | nil => exact takeDigits_of_noDigit h
  | cons d ds ih =>
    change takeDigits (d.toChar :: (text ds ++ rest)) = (d :: ds, rest)
    unfold takeDigits
    rw [Digit.ofChar?_toChar, ih]

end MapAudit.Decimal
