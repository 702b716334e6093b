import MapAudit.Json.Number
import MapAudit.Decimal.Shortest

namespace MapAudit.Json.Number
open Decimal

/-- Exponents of the first digit that are written in positional notation. -/
def positionalFrom : Int := -5
def positionalTo : Int := 15

/-- The literal for the decimal `0.d₁d₂… · 10 ^ point`. -/
def ofDecimal (negative : Bool) (d : Expansion) : Number :=
  let e := d.point - 1
  if e < positionalFrom ∨ positionalTo < e then
    { negative, whole := value (d.digits.take 1), fraction := d.digits.drop 1, exponent := some e }
  else if e < 0 then
    { negative, whole := 0, fraction := List.replicate (-d.point).toNat Digit.zero ++ d.digits }
  else
    let places := d.point.toNat
    let rest := d.digits.drop places
    { negative
      whole := value (d.digits.take places) * Nat.pow 10 (places - d.digits.length)
      fraction := if rest.isEmpty then [Digit.zero] else rest }

def ofFloat? (x : Float) : Option Number :=
  let negative : Bool := x.toBits.toNat / Nat.pow 2 63 == 1
  if x.isNaN || x.isInf then none
  else if x == 0 then some { negative, whole := 0, fraction := [Digit.zero] }
  else some (ofDecimal negative (Binary.ofFloat x).shortest)

end MapAudit.Json.Number
