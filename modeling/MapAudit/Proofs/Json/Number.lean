import MapAudit.Json.Number
import MapAudit.Proofs.Decimal.Digit

namespace MapAudit.Json.Number
open Decimal

def Stops (cs : List Char) : Prop :=
  ∀ c ∈ cs.head?, Digit.ofChar? c = none ∧ c ≠ '.' ∧ c ≠ 'e' ∧ c ≠ 'E'

theorem Stops.noDigit {cs : List Char} (h : Stops cs) : NoDigit cs := fun c hc => (h c hc).1

inductive Sign : Bool → List Char → Prop where
  | none : Sign false []
  | plus : Sign false ['+']
  | minus : Sign true ['-']

/-- The exponent, if there is one: a letter, a sign and any run of digits. -/
inductive Scale : Option Int → List Char → Prop where
  | none : Scale .none []
  | some {letter : Char} {negative : Bool} {sign : List Char} {ds : List Digit}
      (hletter : letter = 'e' ∨ letter = 'E') (hsign : Sign negative sign) (hds : ds ≠ []) :
    Scale (.some (if negative then -(value ds : Int) else (value ds : Int)))
      (letter :: (sign ++ Decimal.text ds))

def fractionText (ds : List Digit) : List Char := if ds.isEmpty then [] else '.' :: Decimal.text ds

/-- The digits before the point: a single zero, or a run that does not begin with zero. -/
inductive Whole : List Digit → Prop where
  | zero : Whole [0]
  | run {d : Digit} {ds : List Digit} (hd : d ≠ 0) : Whole (d :: ds)

/-- The ways to write a number. Only the exponent leaves a choice. -/
inductive Written : Number → List Char → Prop where
  | mk (negative : Bool) {whole : List Digit} (fraction : List Digit) {exponent : Option Int}
      {scale : List Char} (hwhole : Whole whole) (hscale : Scale exponent scale) :
    Written ⟨negative, value whole, fraction, exponent⟩
      ((if negative then ['-'] else []) ++ (Decimal.text whole ++ (fractionText fraction ++ scale)))

variable {rest : List Char}

theorem readExponent?_written {negative : Bool} {sign : List Char} {ds : List Digit}
    (hsign : Sign negative sign) (hds : ds ≠ []) (h : NoDigit rest) :
    readExponent? (sign ++ (Decimal.text ds ++ rest)) =
      some (if negative then -(value ds : Int) else (value ds : Int), rest) := by
  have htake := takeDigits_text ds h
  obtain ⟨d, ds, rfl⟩ := List.exists_cons_of_ne_nil hds
  cases hsign with
  | none =>
    -- A digit is no sign.
    obtain ⟨hminus, hplus⟩ := d.toChar_ne_sign
    change readExponent? (d.toChar :: (Decimal.text ds ++ rest)) = _
    change takeDigits (d.toChar :: (Decimal.text ds ++ rest)) = _ at htake
    simp [readExponent?, hminus, hplus, htake]
  | plus => simp only [readExponent?, List.singleton_append, htake]
  | minus => simp only [readExponent?, List.singleton_append, htake]

theorem readScale?_written (negative : Bool) (whole : Nat) (fraction : List Digit)
    {exponent : Option Int} {scale : List Char} (hscale : Scale exponent scale) (h : Stops rest) :
    readScale? negative whole fraction (scale ++ rest) =
      some (⟨negative, whole, fraction, exponent⟩, rest) := by
  cases hscale with
  | none =>
    change readScale? negative whole fraction rest = _
    unfold readScale?
    split
    · exact absurd rfl (h 'e' rfl).2.2.1
    · exact absurd rfl (h 'E' rfl).2.2.2
    · rfl
  | some hletter hsign hds =>
    have hread := readExponent?_written hsign hds h.noDigit
    rcases hletter with rfl | rfl
    all_goals
      rw [List.cons_append, List.append_assoc]
      simp only [readScale?, hread, Option.map_some]

theorem noDigit_scale {exponent : Option Int} {scale : List Char} (hscale : Scale exponent scale)
    (h : Stops rest) : NoDigit (scale ++ rest) := by
  cases hscale with
  | none => exact h.noDigit
  | some hletter =>
    intro c hc
    cases hc
    rcases hletter with rfl | rfl <;> decide

theorem readFraction?_written (negative : Bool) (whole : Nat) (fraction : List Digit)
    {exponent : Option Int} {scale : List Char} (hscale : Scale exponent scale) (h : Stops rest) :
    readFraction? negative whole (fractionText fraction ++ (scale ++ rest)) =
      some (⟨negative, whole, fraction, exponent⟩, rest) := by
  cases fraction with
  | cons d ds =>
    have htake := takeDigits_text (d :: ds) (noDigit_scale hscale h)
    change readFraction? negative whole ('.' :: (Decimal.text (d :: ds) ++ (scale ++ rest))) = _
    unfold readFraction?
    simp only [htake]
    exact readScale?_written negative whole (d :: ds) hscale h
  | nil =>
    change readFraction? negative whole (scale ++ rest) = _
    rw [← readScale?_written negative whole [] hscale h]
    unfold readFraction?
    split
    · next cs hcs =>
      cases hscale with
      | none => exact absurd rfl (h '.' (by rw [show rest = '.' :: cs from hcs]; rfl)).2.1
      | some hletter =>
        obtain rfl := (List.cons.inj hcs).1
        exact absurd hletter (by decide)
    · rfl

theorem noDigit_fractionText (fraction : List Digit) {exponent : Option Int} {scale : List Char}
    (hscale : Scale exponent scale) (h : Stops rest) :
    NoDigit (fractionText fraction ++ (scale ++ rest)) := by
  cases fraction with
  | nil =>
    change NoDigit (scale ++ rest)
    exact noDigit_scale hscale h
  | cons d ds =>
    intro c hc
    obtain rfl : '.' = c := Option.some.inj hc
    decide

theorem readWhole?_written (negative : Bool) {whole : List Digit} (fraction : List Digit)
    {exponent : Option Int} {scale : List Char} (hwhole : Whole whole)
    (hscale : Scale exponent scale) (h : Stops rest) :
    readWhole? negative (Decimal.text whole ++ (fractionText fraction ++ (scale ++ rest))) =
      some (⟨negative, value whole, fraction, exponent⟩, rest) := by
  have hread (n : Nat) := readFraction?_written negative n fraction hscale h
  cases hwhole with
  | zero => exact hread 0
  | @run d ds hd =>
    have htake := takeDigits_text (d :: ds) (noDigit_fractionText fraction hscale h)
    unfold readWhole?
    split
    -- A zero could only stand alone.
    · next cs hcs =>
      have hchar : d.toChar = '0' := (List.cons.inj hcs).1
      exact absurd (Option.some.inj ((Digit.ofChar?_toChar d).symm.trans
        (congrArg Digit.ofChar? hchar))) hd
    · rw [htake]
      exact hread _

/-- However a number is written it is read, and what follows it stays. -/
theorem read?_written {n : Number} {cs : List Char} (hn : Written n cs) (h : Stops rest) :
    read? (cs ++ rest) = some (n, rest) := by
  cases hn with
  | @mk negative whole fraction exponent scale hwhole hscale =>
    have hread := readWhole?_written negative fraction hwhole hscale h
    simp only [List.append_assoc]
    cases negative with
    | true => exact hread
    | false =>
      change read? (Decimal.text whole ++ (fractionText fraction ++ (scale ++ rest))) = _
      rw [← hread]
      unfold read?
      split
      · next cs hcs =>
        -- A digit is no sign.
        cases hwhole with
        | zero => exact absurd (List.cons.inj hcs).1 (Digit.toChar_ne_sign 0).1
        | @run d => exact absurd (List.cons.inj hcs).1 d.toChar_ne_sign.1
      · rfl

/-- A number begins with a minus sign or a digit. -/
theorem Written.eq_cons {n : Number} {cs : List Char} (hn : Written n cs) :
    ∃ c ds, cs = c :: ds ∧ (c = '-' ∨ ∃ d : Digit, c = d.toChar) := by
  cases hn with
  | mk negative fraction hwhole hscale =>
    cases negative with
    | true => exact ⟨'-', _, rfl, .inl rfl⟩
    | false =>
      cases hwhole with
      | zero => exact ⟨'0', _, rfl, .inr ⟨0, rfl⟩⟩
      | @run d => exact ⟨d.toChar, _, rfl, .inr ⟨d, rfl⟩⟩

theorem whole_digits (n : Nat) : Whole (digits n) := by
  by_cases hzero : n = 0
  · rw [hzero, digits_of_lt (by decide)]
    exact .zero
  · obtain ⟨d, ds, hds, hd⟩ := digits_eq_cons hzero
    rw [hds]
    exact .run hd

theorem scale_exponentText (e : Int) : Scale (some e) ('e' :: exponentText e) := by
  have hscale {negative : Bool} {sign : List Char} (hsign : Sign negative sign) :=
    Scale.some (.inl rfl : 'e' = 'e' ∨ 'e' = 'E') hsign (digits_ne_nil e.natAbs)
  rw [value_digits] at hscale
  unfold exponentText
  by_cases he : e < 0
  · have hminus := hscale .minus
    rw [if_pos rfl, show -(e.natAbs : Int) = e by omega] at hminus
    rw [if_pos he]
    exact hminus
  · have hplus := hscale .plus
    rw [if_neg Bool.false_ne_true, show (e.natAbs : Int) = e by omega] at hplus
    rw [if_neg he]
    exact hplus

/-- How a number is printed is one way to write it. -/
theorem written_text (n : Number) : Written n n.text := by
  obtain ⟨negative, whole, fraction, exponent⟩ := n
  have hwritten {scale : List Char} (hscale : Scale exponent scale) :=
    Written.mk negative fraction (whole_digits whole) hscale
  rw [value_digits] at hwritten
  unfold text
  simp only [List.append_assoc]
  cases exponent with
  | none => exact hwritten .none
  | some e => exact hwritten (scale_exponentText e)

end MapAudit.Json.Number
