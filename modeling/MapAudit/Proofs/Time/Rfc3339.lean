import MapAudit.Proofs.Decimal.Digit
import MapAudit.Proofs.Time.Calendar
import MapAudit.Time.Rfc3339

namespace MapAudit.Decimal

theorem value_replicate_zero (k : Nat) (ds : List Digit) :
    value (List.replicate k Digit.zero ++ ds) = value ds := by
  induction k with
  | zero => rfl
  | succ k ih =>
    rw [← ih]
    rfl

/-- A number below a power of ten has no more digits than the power has zeros. -/
theorem length_digits_le {width n : Nat} (hwidth : 0 < width) (h : n < Nat.pow 10 width) :
    (digits n).length ≤ width := by
  induction width generalizing n with
  | zero => cases hwidth
  | succ width ih =>
    have hpow : Nat.pow 10 (width + 1) = Nat.pow 10 width * 10 := rfl
    rw [hpow] at h
    by_cases hn : n < 10
    · rw [digits_of_lt hn, List.length_singleton]
      omega
    · have hge : 10 ≤ n := by omega
      have hpos : 0 < width := by
        rcases Nat.eq_zero_or_pos width with rfl | hpos
        · have hten : n < 10 := h
          omega
        · exact hpos
      have hquotient := ih (n := n / 10) hpos (by omega)
      rw [digits_of_ge hge, List.length_append, List.length_singleton]
      omega

end MapAudit.Decimal

namespace MapAudit.Time.Rfc3339
open Decimal Text

section scan
variable {α β : Type} {x : Scan α} {cs cs' : List Char} {a : α}

theorem scan_bind (f : α → Scan β) (h : x cs = some (a, cs')) : (x >>= f) cs = f a cs' := by
  change (x cs).bind (fun p => f p.1 p.2) = f a cs'
  rw [h]
  rfl

def NoBlank (cs : List Char) : Prop := ∀ c ∈ cs.head?, isBlank c = false

theorem scan_blanks (h : NoBlank cs) : blanks cs = some ((), cs) := by
  have hdrop : dropBlanks cs = cs := by
    cases cs with
    | nil => rfl
    | cons c cs => exact List.dropWhile_cons_of_neg (by simp [h c rfl])
  change some ((), dropBlanks cs) = some ((), cs)
  rw [hdrop]

theorem scan_separator {c : Char} (hc : isBlank c = false) (cs : List Char) :
    separator c (c :: cs) = some ((), cs) := by
  have hblank : NoBlank (c :: cs) := by
    intro d hd
    obtain rfl : c = d := Option.some.inj hd
    exact hc
  unfold separator
  rw [scan_bind _ (scan_blanks hblank)]
  exact if_pos rfl

end scan

section digits
variable {ds : List Digit} {rest : List Char}

theorem isBlank_toChar (d : Digit) : isBlank d.toChar = false := by
  revert d
  decide

theorem noBlank_text (h : ds ≠ []) : NoBlank (Decimal.text ds ++ rest) := by
  obtain ⟨d, ds, rfl⟩ := List.exists_cons_of_ne_nil h
  intro c hc
  obtain rfl : d.toChar = c := Option.some.inj hc
  exact isBlank_toChar d

theorem scan_natural {width : Nat} (hds : ds ≠ []) (hwidth : ds.length ≤ width)
    (h : NoDigit rest) : natural width (Decimal.text ds ++ rest) = some (value ds, rest) := by
  have hlength : (Decimal.text ds).length = ds.length := List.length_map _
  have hempty : ds.isEmpty = false := List.isEmpty_eq_false_iff.2 hds
  unfold natural
  simp only [takeDigits_text ds h, List.take_of_length_le hwidth, hempty, Bool.false_eq_true,
    if_false]
  rw [← hlength, List.drop_left]

theorem scan_wholeNatural (hds : ds ≠ []) (h : NoDigit rest) :
    wholeNatural (Decimal.text ds ++ rest) = some (value ds, rest) := by
  refine scan_natural hds ?_ h
  rw [List.length_append, Decimal.text, List.length_map]
  exact Nat.le_add_right _ _

/-- A padded numeral is a row of digits that spells the number. -/
theorem exists_padded (width n : Nat) :
    ∃ ds, padded width n = Decimal.text ds ∧ value ds = n ∧ ds ≠ [] ∧
      ds.length = max width (digits n).length := by
  refine ⟨List.replicate (width - (digits n).length) Digit.zero ++ digits n, ?_, ?_, ?_, ?_⟩
  · unfold padded Decimal.text
    dsimp only
    rw [List.map_append, List.map_replicate, List.length_map]
    rfl
  · rw [value_replicate_zero, value_digits]
  · exact List.append_ne_nil_of_right_ne_nil _ (digits_ne_nil n)
  · rw [List.length_append, List.length_replicate]
    omega

theorem exists_padded_of_lt {width n : Nat} (hwidth : 0 < width) (h : n < Nat.pow 10 width) :
    ∃ ds, padded width n = Decimal.text ds ∧ value ds = n ∧ ds ≠ [] ∧ ds.length = width := by
  obtain ⟨ds, hpadded, hvalue, hds, hlength⟩ := exists_padded width n
  have := length_digits_le hwidth h
  exact ⟨ds, hpadded, hvalue, hds, by omega⟩

end digits

variable {rest : List Char}

/-- A field is read from two digits. -/
theorem scan_field {least greatest n : Nat} (hleast : least ≤ n) (hgreatest : n ≤ greatest)
    (hn : n < 100) (h : NoDigit rest) :
    field least greatest (padded 2 n ++ rest) = some (n, rest) := by
  obtain ⟨ds, hpadded, hvalue, hds, hlength⟩ := exists_padded_of_lt (by omega : 0 < 2) hn
  have hnatural := scan_natural hds (Nat.le_of_eq hlength) h
  unfold field
  rw [hpadded, scan_bind _ (scan_blanks (noBlank_text hds)), scan_bind _ hnatural, hvalue]
  exact congrFun (if_pos ⟨hleast, hgreatest⟩) rest

/-- A year without a sign. -/
theorem scan_year_of_natural {cs : List Char} {n : Nat} (hblank : NoBlank cs)
    (hsign : ∀ c ∈ cs.head?, c ≠ '-' ∧ c ≠ '+') (h : natural 4 cs = some (n, rest)) :
    year cs = some ((n : Int), rest) := by
  have hget : (get : Scan _) cs = some (cs, cs) := rfl
  unfold year
  rw [scan_bind _ (scan_blanks hblank), scan_bind _ hget]
  split
  · exact absurd rfl (hsign '-' rfl).1
  · exact absurd rfl (hsign '+' rfl).2
  · rw [scan_bind _ h]
    rfl

/-- A year behind a sign is read to the end of its digits. -/
theorem scan_year_of_sign (negative : Bool) {cs : List Char} {n : Nat}
    (h : wholeNatural cs = some (n, rest)) :
    year ((if negative then '-' else '+') :: cs) =
      some (if negative then -(n : Int) else (n : Int), rest) := by
  have hsign : NoBlank ((if negative then '-' else '+') :: cs) := by
    intro c hc
    obtain rfl : (if negative then '-' else '+') = c := Option.some.inj hc
    cases negative <;> rfl
  unfold year
  rw [scan_bind _ (scan_blanks hsign)]
  cases negative with
  | false => exact scan_bind (fun n : Nat => (pure (n : Int) : Scan Int)) h
  | true => exact scan_bind (fun n : Nat => (pure (-(n : Int)) : Scan Int)) h

theorem scan_year (y : Int) (h : NoDigit rest) : year (yearText y ++ rest) = some (y, rest) := by
  obtain ⟨ds, hpadded, hvalue, hds, hlength⟩ := exists_padded 4 y.natAbs
  unfold yearText
  rw [hpadded]
  split
  · next hy =>
    have hfour := length_digits_le (by omega : 0 < 4) (show y.natAbs < 10000 by omega)
    have hnatural : natural 4 (Decimal.text ds ++ rest) = some (value ds, rest) :=
      scan_natural hds (by omega) h
    have hplain : ∀ c ∈ (Decimal.text ds ++ rest).head?, c ≠ '-' ∧ c ≠ '+' := by
      obtain ⟨d, ds, rfl⟩ := List.exists_cons_of_ne_nil hds
      intro c hc
      obtain rfl : d.toChar = c := Option.some.inj hc
      exact d.toChar_ne_sign
    rw [scan_year_of_natural (noBlank_text hds) hplain hnatural, hvalue]
    congr 2
    omega
  · next hy =>
    have hsigned := scan_year_of_sign (decide (y < 0)) (scan_wholeNatural hds h)
    simp only [decide_eq_true_eq] at hsigned
    rw [List.cons_append, hsigned, hvalue]
    congr 2
    split <;> omega

theorem noDigit_cons {c : Char} (hc : Digit.ofChar? c = none) (cs : List Char) :
    NoDigit (c :: cs) := by
  intro d hd
  obtain rfl : c = d := Option.some.inj hd
  exact hc

def dateText (d : Date) : List Char :=
  yearText d.year ++ '-' :: (padded 2 d.month ++ '-' :: padded 2 d.day)

theorem scan_date {d : Date} (hm : 1 ≤ d.month ∧ d.month ≤ 12) (hd : 1 ≤ d.day ∧ d.day ≤ 31)
    (h : NoDigit rest) : date (dateText d ++ rest) = some (d, rest) := by
  have hdash (cs : List Char) : NoDigit ('-' :: cs) := noDigit_cons rfl cs
  unfold date dateText
  simp only [List.append_assoc, List.cons_append]
  rw [scan_bind _ (scan_year d.year (hdash _)), scan_bind _ (scan_separator rfl _),
    scan_bind _ (scan_field hm.1 hm.2 (by omega) (hdash _)), scan_bind _ (scan_separator rfl _),
    scan_bind _ (scan_field hd.1 hd.2 (by omega) h)]
  rfl

/-- The point, digits of the fraction, and what is no digit. -/
theorem scan_fraction_of_digits {ds : List Digit} (hds : ds ≠ []) (hlength : ds.length ≤ 9)
    (h : NoDigit rest) :
    fraction ('.' :: (Decimal.text ds ++ rest)) =
      some (value ds * Nat.pow 10 (9 - ds.length), rest) := by
  have hget : (get : Scan _) ('.' :: (Decimal.text ds ++ rest)) =
      some ('.' :: (Decimal.text ds ++ rest), '.' :: (Decimal.text ds ++ rest)) := rfl
  have hempty : ds.isEmpty = false := List.isEmpty_eq_false_iff.2 hds
  unfold fraction
  rw [scan_bind _ hget]
  simp only [takeDigits_text ds h, hempty, Bool.false_eq_true, if_false,
    List.take_of_length_le hlength]
  rfl

theorem scan_fraction_of_padded {width n : Nat} (hwidth : 0 < width) (hnine : width ≤ 9)
    (hn : n < Nat.pow 10 width) (h : NoDigit rest) :
    fraction ('.' :: padded width n ++ rest) = some (n * Nat.pow 10 (9 - width), rest) := by
  obtain ⟨ds, hpadded, hvalue, hds, hlength⟩ := exists_padded_of_lt hwidth hn
  rw [hpadded, List.cons_append, scan_fraction_of_digits hds (by omega) h, hvalue, hlength]

theorem scan_fraction {nanos : Nat} (hn : nanos < 1000000000)
    (h : NoDigit rest) (hpoint : ∀ c ∈ rest.head?, c ≠ '.') :
    fraction (fractionText nanos ++ rest) = some (nanos, rest) := by
  unfold fractionText
  split
  · next hzero =>
    -- Without a fraction nothing is written, so the rest must not begin with a point.
    have hget : (get : Scan _) rest = some (rest, rest) := rfl
    change fraction rest = _
    unfold fraction
    rw [scan_bind _ hget, hzero]
    split
    · next cs => exact absurd rfl (hpoint '.' rfl)
    · rfl
  · split
    · next hmillis =>
      have hthree : nanos / 1000000 < Nat.pow 10 3 := show nanos / 1000000 < 1000 by omega
      rw [scan_fraction_of_padded (by omega) (by omega) hthree h]
      change some (nanos / 1000000 * 1000000, rest) = _
      rw [Nat.div_mul_cancel (Nat.dvd_of_mod_eq_zero hmillis)]
    · split
      · next hmicros =>
        have hsix : nanos / 1000 < Nat.pow 10 6 := show nanos / 1000 < 1000000 by omega
        rw [scan_fraction_of_padded (by omega) (by omega) hsix h]
        change some (nanos / 1000 * 1000, rest) = _
        rw [Nat.div_mul_cancel (Nat.dvd_of_mod_eq_zero hmicros)]
      · rw [scan_fraction_of_padded (by omega) (by omega) hn h]
        exact congrArg (fun n => some (n, rest)) (Nat.mul_one nanos)

def clockText (h m s nanos : Nat) : List Char :=
  padded 2 h ++ ':' :: (padded 2 m ++ ':' :: (padded 2 s ++ fractionText nanos))

theorem noDigit_fractionText (nanos : Nat) (h : NoDigit rest) :
    NoDigit (fractionText nanos ++ rest) := by
  unfold fractionText
  split
  · exact h
  · split
    · exact noDigit_cons rfl _
    · split <;> exact noDigit_cons rfl _

/-- A time of day is read; the second 60 is the last one of the minute, and a leap second. -/
theorem scan_clock {h m s nanos : Nat} (hh : h ≤ 23) (hm : m ≤ 59) (hs : s ≤ 60)
    (hn : nanos < 1000000000) (hrest : NoDigit rest) (hpoint : ∀ c ∈ rest.head?, c ≠ '.') :
    clock (clockText h m s nanos ++ rest) =
      some ((h * 3600 + m * 60 + min s 59, if s = 60 then 1000000000 + nanos else nanos),
        rest) := by
  have hcolon (cs : List Char) : NoDigit (':' :: cs) := noDigit_cons rfl cs
  unfold clock clockText
  simp only [List.append_assoc, List.cons_append]
  rw [scan_bind _ (scan_field (Nat.zero_le h) hh (by omega) (hcolon _)),
    scan_bind _ (scan_separator rfl _),
    scan_bind _ (scan_field (Nat.zero_le m) hm (by omega) (hcolon _)),
    scan_bind _ (scan_separator rfl _),
    scan_bind _ (scan_field (Nat.zero_le s) hs (by omega) (noDigit_fractionText nanos hrest)),
    scan_bind _ (scan_fraction hn hrest hpoint)]
  split
  · next hleap =>
    rw [hleap]
    rfl
  · next hleap =>
    rw [Nat.min_eq_left (by omega)]
    rfl

theorem scan_offset : offset ['Z'] = some (0, []) := rfl

theorem scan_middle (cs : List Char) : middle ('T' :: cs) = some ((), cs) := rfl

/-- The stamp of a date that exists and of a time of day, read as the instant they make. -/
theorem scan_stamp {d : Date} (hvalid : d.isValid = true) (hfirst : firstYear ≤ d.year)
    (hlast : d.year ≤ lastYear) {h m s n : Nat} (hh : h ≤ 23) (hm : m ≤ 59) (hs : s ≤ 60)
    (hn : n < 1000000000) {t : Instant}
    (hseconds : d.toDays * secondsPerDay + (h * 3600 + m * 60 + min s 59 : Nat) = t.seconds)
    (hnanos : (if s = 60 then 1000000000 + n else n) = t.nanos) :
    stamp (dateText d ++ 'T' :: (clockText h m s n ++ ['Z'])) = some (t, []) := by
  obtain ⟨hmonth, hday⟩ := Date.bounds_of_isValid hvalid
  have hzone : ∀ c ∈ ['Z'].head?, c ≠ '.' := by
    rintro _ ⟨⟩
    decide
  have hblanks : blanks [] = some ((), []) := rfl
  have hcondition : d.isValid ∧ firstYear ≤ d.year ∧ d.year ≤ lastYear ∧
      (0 : Int).natAbs < 86400 := ⟨hvalid, hfirst, hlast, by decide⟩
  have hparts : Instant.ofParts? t.seconds t.nanos = some t :=
    dif_pos ⟨t.first_le, t.le_last, t.nanos_lt, t.minute_ends⟩
  unfold stamp
  rw [scan_bind _ (scan_date hmonth hday (noDigit_cons rfl _)), scan_bind _ (scan_middle _),
    scan_bind _ (scan_clock hh hm hs hn (noDigit_cons rfl _) hzone)]
  dsimp only
  rw [scan_bind _ scan_offset, scan_bind _ hblanks, if_pos hcondition, hseconds, hnanos,
    Int.sub_zero]
  change (Instant.ofParts? t.seconds t.nanos).bind (fun a => some (a, [])) = _
  rw [hparts]
  rfl

/-- What is written of an instant, part by part. -/
theorem write_eq (t : Instant) :
    write ['Z'] t =
      dateText (Date.ofDays (t.seconds / secondsPerDay)) ++ 'T' ::
        (clockText ((t.seconds % secondsPerDay).toNat / 3600)
          ((t.seconds % secondsPerDay).toNat / 60 % 60)
          ((t.seconds % secondsPerDay).toNat % 60 + if t.isLeap then 1 else 0)
          (if t.isLeap then t.nanos - 1000000000 else t.nanos) ++ ['Z']) := by
  unfold write dateText clockText
  simp only [List.append_assoc, List.cons_append]

/-- The date of an instant lies in the years that may be read. -/
theorem year_bounds (t : Instant) :
    firstYear ≤ (Date.ofDays (t.seconds / secondsPerDay)).year ∧
      (Date.ofDays (t.seconds / secondsPerDay)).year ≤ lastYear := by
  have hfirst : firstSecond = (daysBeforeYear firstYear - epochOffset) * 86400 := by decide
  have hlast : lastSecond = (daysBeforeYear (lastYear + 1) - epochOffset) * 86400 - 1 := by decide
  have hle := t.first_le
  have hge := t.le_last
  rw [Date.year_ofDays]
  apply yearOfDay_between
  · unfold secondsPerDay
    omega
  · unfold secondsPerDay
    omega

/-- The seconds of the day of an instant. A leap second follows the last one of a minute. -/
theorem secondOfDay_spec (t : Instant) :
    (t.seconds % secondsPerDay).toNat < 86400 ∧
      t.seconds / secondsPerDay * secondsPerDay + (t.seconds % secondsPerDay).toNat = t.seconds ∧
      (1000000000 ≤ t.nanos → (t.seconds % secondsPerDay).toNat % 60 = 59) := by
  have hminute := t.minute_ends
  unfold secondsPerDay
  omega

/-- An instant is read back from its text. -/
theorem read?_text (t : Instant) : read? (text t) = some t := by
  obtain ⟨hfirst, hlast⟩ := year_bounds t
  obtain ⟨hday, hsplit, hminute⟩ := secondOfDay_spec t
  have hnanos := t.nanos_lt
  have hleap : t.isLeap = true ↔ 1000000000 ≤ t.nanos := decide_eq_true_iff
  have hrun : stamp.run (write ['Z'] t) = some (t, []) := by
    rw [write_eq]
    simp only [hleap]
    refine scan_stamp (Date.isValid_ofDays _) hfirst hlast (by omega) (by omega) ?_ ?_ ?_ ?_
    · split <;> omega
    · split <;> omega
    · rw [Date.toDays_ofDays]
      split <;> omega
    · -- The second 60 is written of a leap second, and only then.
      split <;> split <;> omega
  unfold read? text
  rw [String.toList_ofList, hrun]

/-- The middle of the leap second that ends the year 10000. -/
def lateLeap : Instant :=
  ⟨253433923199, 1500000000, by decide, by decide, by decide, by decide⟩

example : text lateLeap = "+10000-12-31T23:59:60.500Z" := by decide +kernel

end MapAudit.Time.Rfc3339
