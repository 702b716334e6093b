namespace MapAudit.Decimal

abbrev Digit := Fin 10

namespace Digit

def zero : Digit := ⟨0, by decide⟩

def toChar (d : Digit) : Char := Nat.digitChar d

def ofChar? (c : Char) : Option Digit :=
  if h : '0'.toNat ≤ c.toNat ∧ c.toNat ≤ '9'.toNat then
    some ⟨c.toNat - '0'.toNat, by have := h.1; have := h.2; simp at *; omega⟩
  else
    none

end Digit

/-- The longest run of digits that begins the text, and what follows it. -/
def takeDigits : List Char → List Digit × List Char
  | [] => ([], [])
  | c :: cs =>
    match Digit.ofChar? c with
    | some d => let (ds, rest) := takeDigits cs; (d :: ds, rest)
    | none => ([], c :: cs)

/-- The number that the digits spell, the first digit being the highest. -/
def value (ds : List Digit) : Nat := ds.foldl (fun n d => 10 * n + d.val) 0

/-- The numeral of `n`, without leading zeros. -/
def digits (n : Nat) : List Digit :=
  (Nat.toDigits 10 n).filterMap Digit.ofChar?

def text (ds : List Digit) : List Char := ds.map Digit.toChar

end MapAudit.Decimal
