import MapAudit.Decimal.Digit

namespace MapAudit.Decimal

/-- A positive binary number `m · 2 ^ q` among its neighbours. `tight` says that the neighbour below
is half as far as the one above. -/
structure Binary where
  m : Nat
  q : Int
  tight : Bool
  deriving DecidableEq, Repr

structure Ratio where
  num : Nat
  den : Nat
  deriving DecidableEq, Repr

def Ratio.scaled (n : Nat) (q : Int) : Ratio :=
  if 0 ≤ q then ⟨n * Nat.pow 2 q.toNat, 1⟩ else ⟨n, Nat.pow 2 (-q).toNat⟩

namespace Binary

/-- The number and the two ends of its interval, each multiplied by four. -/
def centre (b : Binary) : Nat := 4 * b.m
def lower (b : Binary) : Nat := if b.tight then 4 * b.m - 1 else 4 * b.m - 2
def upper (b : Binary) : Nat := 4 * b.m + 2

/-- The ends of the interval round to the number only when its last bit is zero. -/
def closed (b : Binary) : Bool := b.m % 2 == 0

end Binary

def Ratio.inSteps (r : Ratio) (k : Int) : Ratio :=
  if 0 ≤ k then ⟨r.num, r.den * Nat.pow 10 k.toNat⟩ else ⟨r.num * Nat.pow 10 (-k).toNat, r.den⟩

def Binary.accepts (b : Binary) (k : Int) (c : Nat) : Bool :=
  let lo := (Ratio.scaled b.lower (b.q - 2)).inSteps k
  let hi := (Ratio.scaled b.upper (b.q - 2)).inSteps k
  if b.closed then lo.num ≤ c * lo.den && c * hi.den ≤ hi.num
  else lo.num < c * lo.den && c * hi.den < hi.num

/-- The point of the grid of `10 ^ k` nearest to `b` among those that round to it; a tie goes to
the even one. -/
def Binary.onGrid? (b : Binary) (k : Int) : Option Nat :=
  let x := (Ratio.scaled b.centre (b.q - 2)).inSteps k
  let below := x.num / x.den
  let above := below + 1
  match b.accepts k below, b.accepts k above with
  | false, false => none
  | true, false => some below
  | false, true => some above
  | true, true =>
    -- Both neighbours round to the number, so the nearer one is taken, at a tie the even one.
    let gap := 2 * (x.num - below * x.den)
    if gap < x.den then some below
    else if x.den < gap then some above
    else some (if below % 2 = 0 then below else above)

/-- The number of places by which a fraction below one must move left to reach one. -/
def Ratio.leadingZeros (r : Ratio) : Nat → Nat → Nat
  | 0, places => places
  | fuel + 1, places =>
    if r.den ≤ r.num * Nat.pow 10 places then places else leadingZeros r fuel (places + 1)

def Ratio.magnitude (r : Ratio) : Int :=
  if r.den ≤ r.num then ((digits (r.num / r.den)).length : Int) - 1
  else -(r.leadingZeros 400 1 : Int)

/-- Tries grids from coarse to fine. -/
def Binary.search (b : Binary) : Nat → Int → Nat × Int
  | 0, k => (0, k)
  | fuel + 1, k =>
    match b.onGrid? k with
    | some c => (c, k)
    | none => search b fuel (k - 1)

/-- Digits and a power of ten: the decimal `0.d₁d₂… · 10 ^ point`. -/
structure Expansion where
  digits : List Digit
  point : Int
  deriving DecidableEq, Repr

def dropTrailingZeros (ds : List Digit) : List Digit :=
  (ds.reverse.dropWhile (· == Digit.zero)).reverse

/-- The decimal of fewest digits that rounds to `b`, and among those the nearest. -/
def Binary.shortest (b : Binary) : Expansion :=
  let e := (Ratio.scaled b.centre (b.q - 2)).magnitude
  let (c, k) := b.search 18 (e + 1)
  let ds := digits c
  ⟨dropTrailingZeros ds, ds.length + k⟩

def Binary.ofFloat (x : Float) : Binary :=
  let bits : Nat := x.toBits.toNat
  let fraction : Nat := bits % Nat.pow 2 52
  let exponent : Nat := bits / Nat.pow 2 52 % Nat.pow 2 11
  if exponent = 0 then ⟨fraction, -1074, false⟩
  else ⟨Nat.pow 2 52 + fraction, (exponent : Int) - 1075, fraction == 0 && exponent != 1⟩

end MapAudit.Decimal
