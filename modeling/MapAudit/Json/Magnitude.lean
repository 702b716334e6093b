import MapAudit.Json.Number

namespace MapAudit.Json.Number
open Decimal

def gather (acc : Nat) : List Digit → Nat × List Digit
  | [] => (acc, [])
  | d :: ds =>
    if 10 * acc + d.val < UInt64.size then gather (10 * acc + d.val) ds else (acc, d :: ds)

/-- The significand of a literal and the power of ten it is scaled by. -/
def significand (n : Number) : Nat × Int :=
  let (whole, lost) := gather 0 (digits n.whole)
  let (all, dropped) := gather whole n.fraction
  (all, lost.length - (n.fraction.length - dropped.length : Nat) + n.exponent.getD 0)

def powerOfTen (e : Nat) : Float := Float.ofScientific 1 false e

/-- Divides by a power of ten, in steps where the power itself is no float. -/
def scaleDown (x : Float) (e : Nat) : Float :=
  if e ≤ 308 then x / powerOfTen e
  else if x == 0 then x
  else scaleDown (x / powerOfTen 308) (e - 308)
termination_by e

/-- Multiplies by a power of ten; `none` when the product is no finite float. -/
def scaleUp? (x : Float) (e : Nat) : Option Float :=
  if e ≤ 308 then
    let y := x * powerOfTen e
    if y.isInf then none else some y
  else if x == 0 then some x
  else none

def scale? (x : Float) (e : Int) : Option Float :=
  if 0 ≤ e then scaleUp? x e.natAbs else some (scaleDown x e.natAbs)

/-- The float a literal stands for; `none` when it overflows. -/
def toFloat? (n : Number) : Option Float := do
  let (s, e) := n.significand
  let x ← scale? (Float.ofNat s) e
  pure (if n.negative then -x else x)

end MapAudit.Json.Number
