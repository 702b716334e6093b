import MapAudit.Decimal.Shortest

namespace MapAudit.Decimal

/-- The nonnegative number `m · 2 ^ q`, where `m` has at most 64 bits. -/
structure Extended where
  m : Nat
  q : Int
  deriving DecidableEq, Repr

namespace Extended

/-- A quotient rounded to the nearest integer, a tie to the even one. -/
def roundDiv (num den : Nat) : Nat :=
  let below := num / den
  let gap := 2 * (num % den)
  if gap < den ∨ (gap = den ∧ below % 2 = 0) then below else below + 1

/-- A fraction measured in steps of `2 ^ q`, rounded. -/
def inSteps (r : Ratio) (q : Int) : Nat :=
  if 0 ≤ q then roundDiv r.num (r.den * Nat.pow 2 q.toNat)
  else roundDiv (r.num * Nat.pow 2 (-q).toNat) r.den

def ofRatio (r : Ratio) : Extended :=
  let q : Int := (Nat.log2 r.num : Int) - Nat.log2 r.den - 64
  let whole : Ratio := if 0 ≤ q then ⟨r.num, r.den * Nat.pow 2 q.toNat⟩
    else ⟨r.num * Nat.pow 2 (-q).toNat, r.den⟩
  if whole.num / whole.den < Nat.pow 2 64 then ⟨inSteps r q, q⟩ else ⟨inSteps r (q + 1), q + 1⟩

def mul (a b : Extended) : Extended := ofRatio (.scaled (a.m * b.m) (a.q + b.q))

def div (a b : Extended) : Extended :=
  let r := Ratio.scaled 1 (a.q - b.q)
  ofRatio ⟨a.m * r.num, b.m * r.den⟩

def ofNat (n : Nat) : Extended := ⟨n, 0⟩

/-- Multiplies `r` by the power of `x` with exponent `e`, squaring `x` for each bit of `e`. -/
def powerFrom (x r : Extended) : Nat → Nat → Extended
  | 0, _ => r
  | fuel + 1, e =>
    let r := if e % 2 = 1 then r.mul x else r
    if e < 2 then r else powerFrom (x.mul x) r fuel (e / 2)

def powerOfTen (e : Nat) : Extended := powerFrom (ofNat 10) (ofNat 1) (Nat.log2 e + 1) e

def toFloat (x : Extended) : Float := (Float.ofNat x.m).scaleB x.q

end Extended

end MapAudit.Decimal
