import MapAudit.Decimal.Numeral
import MapAudit.Decimal.Shortest
import MapAudit.Failure

namespace MapAudit
open Decimal

inductive Cell where
  | integer (i : Int)
  | real (x : Float)
  | text (s : String)
  deriving Repr

namespace Cell

def int64 (i : Int64) : Cell := .integer i.toInt

def bool (b : Bool) : Cell := .integer (if b then 1 else 0)

/-- The absolute value of a float as a fraction; infinity counts as the first power of two that is
no float. -/
def absolute (x : Float) : Ratio :=
  let b := Binary.ofFloat x.abs
  Ratio.scaled b.m b.q

def fraction (x : Float) : Int × Nat :=
  let r := absolute x
  (if x < 0 then -(r.num : Int) else r.num, r.den)

/-- The integer that a float is, if it is one and neither the least nor the greatest of 64 bits nor
beyond them. -/
def whole? (x : Float) : Option Int :=
  let (num, den) := fraction x
  let i := num / den
  if num % den = 0 ∧ Int64.minValue.toInt < i ∧ i < Int64.maxValue.toInt then some i else none

/-- The number that a numeral stands for. Numerals without point and exponent are exact as long as
they fit in 64 bits. -/
def ofNumeral (n : Numeral) : Cell :=
  match n.toInt?.filter fun i => Int64.minValue.toInt ≤ i && i ≤ Int64.maxValue.toInt with
  | some i => .integer i
  | none =>
    match whole? n.toFloat with
    | some i => .integer i
    | none => .real n.toFloat

/-- A text put into a column of numbers. -/
def ofText (s : String) : Cell := (Numeral.ofText? s).elim (.text s) ofNumeral

/-- Numbers are ordered by their value, texts by their characters; texts come after numbers. -/
def le : Cell → Cell → Bool
  | .integer i, .integer j => i ≤ j
  | .integer i, .real y => let (num, den) := fraction y; i * den ≤ num
  | .real x, .integer j => let (num, den) := fraction x; num ≤ j * den
  | .real x, .real y => x ≤ y
  | .text s, .text t => s ≤ t
  | .text _, _ => false
  | _, .text _ => true

def same (a b : Cell) : Bool := a.le b && b.le a

def max (a b : Cell) : Cell := if b.le a then a else b

/-- The integer in a cell that has to hold one. -/
def toInt : Cell → Except Failure Int
  | .integer i => .ok i
  | _ => .error (.statement "the column holds no integer")

def toInt64 (c : Cell) : Except Failure Int64 := c.toInt.map Int64.ofInt

def toBool (c : Cell) : Except Failure Bool := c.toInt.map (· ≠ 0)

end Cell

end MapAudit
