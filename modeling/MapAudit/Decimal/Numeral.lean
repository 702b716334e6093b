import MapAudit.Decimal.Extended
import MapAudit.Json.Number

namespace MapAudit.Decimal

structure Numeral where
  negative : Bool
  whole : List Digit
  fraction : Option (List Digit)
  exponent : Option Int
  deriving DecidableEq, Repr

namespace Numeral

def isSpace (c : Char) : Bool := c == ' ' || ('\t' ≤ c && c ≤ '\r')

def readSign : List Char → Bool × List Char
  | '-' :: cs => (true, cs)
  | '+' :: cs => (false, cs)
  | cs => (false, cs)

def readFraction : List Char → Option (List Digit) × List Char
  | '.' :: cs => let (ds, rest) := takeDigits cs; (some ds, rest)
  | cs => (none, cs)

/-- An exponent that may be missing, but needs digits where its letter stands. -/
def readExponent? : List Char → Option (Option Int × List Char)
  | 'e' :: cs | 'E' :: cs => (Json.Number.readExponent? cs).map fun (e, rest) => (some e, rest)
  | cs => some (none, cs)

def ofText? (s : String) : Option Numeral := do
  let (negative, cs) := readSign (s.toList.dropWhile isSpace)
  let (whole, cs) := takeDigits cs
  let (fraction, cs) := readFraction cs
  let (exponent, cs) ← readExponent? cs
  if whole.isEmpty && (fraction.getD []).isEmpty then none
  else if cs.all isSpace then some { negative, whole, fraction, exponent }
  else none

def toInt? (n : Numeral) : Option Int :=
  if n.fraction.isSome || n.exponent.isSome then none
  else some (if n.negative then -(value n.whole : Int) else value n.whole)

/-- The number from which on a significand takes no more digits. -/
def significandLimit : Nat := (Int64.maxValue.toInt.toNat - 9) / 10

def gather (acc : Nat) : List Digit → Nat × Nat
  | [] => (acc, 0)
  | d :: ds =>
    if acc < significandLimit then gather (10 * acc + d.val) ds else (acc, ds.length + 1)

def significand (n : Numeral) : Nat × Int :=
  let fraction := n.fraction.getD []
  let (whole, lost) := gather 0 n.whole
  let (all, dropped) := gather whole fraction
  (all, n.exponent.getD 0 + lost - (fraction.length - dropped : Nat))

/-- Moves tens from a power of ten into the significand while it keeps 63 bits. -/
def absorb (s : Nat) : Nat → Nat → Nat × Nat
  | 0, e => (s, e)
  | fuel + 1, e =>
    if 0 < e ∧ s < Int64.maxValue.toInt.toNat / 10 then absorb (10 * s) fuel (e - 1) else (s, e)

/-- Cancels tens of the significand against a power of ten that divides it. -/
def cancel (s : Nat) : Nat → Nat → Nat × Nat
  | 0, e => (s, e)
  | fuel + 1, e => if 0 < e ∧ s % 10 = 0 then cancel (s / 10) fuel (e - 1) else (s, e)

def powerLimit : Nat := 308

/-- From this exponent on a scaled significand is infinite or zero. -/
def scaleLimit : Nat := 342

/-- Scales a significand, with 64 bits on the way; beyond the greatest power in two steps. -/
def scale (through : Extended → Extended → Extended) (step : Float → Float → Float) (s e : Nat)
    (limit : Float) : Float :=
  let scaled (e : Nat) : Float := (through (.ofNat s) (.powerOfTen e)).toFloat
  if e = 0 then Float.ofNat s
  else if scaleLimit ≤ e then limit
  else if powerLimit ≤ e then step (scaled (e - powerLimit)) (Float.ofScientific 1 false powerLimit)
  else scaled e

/-- The float that a numeral stands for. Its digits count as long as they fit in a significand of 63
bits, and what comes of them is rounded to 64 bits first, so it may miss the nearest float by one
unit. -/
def toFloat (n : Numeral) : Float :=
  let (s, e) := n.significand
  let x :=
    if s = 0 then 0
    else if 0 ≤ e then
      let (s, e) := absorb s 20 e.natAbs
      scale .mul (· * ·) s e (1 / 0)
    else
      let (s, e) := cancel s 20 e.natAbs
      scale .div (· / ·) s e 0
  if n.negative then -x else x

end Numeral

end MapAudit.Decimal
