import MapAudit.Decimal.Digit

namespace MapAudit.Json
open Decimal

/-- A number literal. An empty `fraction` means that there is no decimal point. -/
structure Number where
  negative : Bool := false
  whole : Nat
  fraction : List Digit := []
  exponent : Option Int := none
  deriving DecidableEq, Repr

namespace Number

def readExponent? (cs : List Char) : Option (Int × List Char) :=
  let (negative, cs) :=
    match cs with
    | '-' :: r => (true, r)
    | '+' :: r => (false, r)
    | r => (false, r)
  match takeDigits cs with
  | ([], _) => none
  | (ds, rest) => some (if negative then -(value ds : Int) else (value ds : Int), rest)

def readScale? (negative : Bool) (whole : Nat) (fraction : List Digit) :
    List Char → Option (Number × List Char)
  | 'e' :: cs => (readExponent? cs).map fun (e, rest) => (⟨negative, whole, fraction, some e⟩, rest)
  | 'E' :: cs => (readExponent? cs).map fun (e, rest) => (⟨negative, whole, fraction, some e⟩, rest)
  | cs => some (⟨negative, whole, fraction, none⟩, cs)

def readFraction? (negative : Bool) (whole : Nat) : List Char → Option (Number × List Char)
  | '.' :: cs =>
    match takeDigits cs with
    | ([], _) => none
    | (ds, rest) => readScale? negative whole ds rest
  | cs => readScale? negative whole [] cs

/-- The digits before the point: a single zero, or a run that does not begin with zero. -/
def readWhole? (negative : Bool) : List Char → Option (Number × List Char)
  | '0' :: cs => readFraction? negative 0 cs
  | cs =>
    match takeDigits cs with
    | ([], _) => none
    | (ds, rest) => readFraction? negative (value ds) rest

def read? : List Char → Option (Number × List Char)
  | '-' :: cs => readWhole? true cs
  | cs => readWhole? false cs

def exponentText (e : Int) : List Char :=
  (if e < 0 then '-' else '+') :: text (digits e.natAbs)

/-- The literal as it is written: the exponent always with its sign. -/
def text (n : Number) : List Char :=
  (if n.negative then ['-'] else []) ++ Decimal.text (digits n.whole) ++
    (if n.fraction.isEmpty then [] else '.' :: Decimal.text n.fraction) ++
    (match n.exponent with
      | none => []
      | some e => 'e' :: exponentText e)

/-- Neither point nor exponent, and not a negative zero. -/
def isInteger (n : Number) : Bool :=
  n.fraction.isEmpty && n.exponent.isNone && !(n.negative && n.whole == 0)

def toInt? (n : Number) : Option Int :=
  if n.isInteger then some (if n.negative then -(n.whole : Int) else (n.whole : Int)) else none

def toInt64? (n : Number) : Option Int64 := do
  let i ← n.toInt?
  if Int64.minValue.toInt ≤ i ∧ i ≤ Int64.maxValue.toInt then some (Int64.ofInt i) else none

def toNat64? (n : Number) : Option Nat := do
  let i ← n.toInt?
  if 0 ≤ i ∧ i < UInt64.size then some i.toNat else none

def ofInt (i : Int) : Number := { negative := i < 0, whole := i.natAbs }

def ofNat (n : Nat) : Number := { whole := n }

end Number

end MapAudit.Json
