import MapAudit.Time.Calendar

namespace MapAudit.Time

def secondsPerDay : Int := 86400

/-- The first and the last second of the years that instants may lie in. -/
def firstSecond : Int := -96465292 * 86400
def lastSecond : Int := 95026236 * 86400 + 86399

structure Instant where
  seconds : Int
  nanos : Nat
  first_le : firstSecond ≤ seconds
  le_last : seconds ≤ lastSecond
  nanos_lt : nanos < 2000000000
  minute_ends : 1000000000 ≤ nanos → seconds % 60 = 59
  deriving DecidableEq, Repr

namespace Instant

def ofParts? (seconds : Int) (nanos : Nat) : Option Instant :=
  if h : firstSecond ≤ seconds ∧ seconds ≤ lastSecond ∧ nanos < 2000000000 ∧
      (1000000000 ≤ nanos → seconds % 60 = 59) then
    some ⟨seconds, nanos, h.1, h.2.1, h.2.2.1, h.2.2.2⟩
  else
    none

def isLeap (t : Instant) : Bool := 1000000000 ≤ t.nanos

/-- Earlier seconds come first, then earlier parts of the second. -/
instance : Ord Instant where
  compare a b := (compare a.seconds b.seconds).then (compare a.nanos b.nanos)

def later (a b : Instant) : Instant := if (compare a b).isLT then b else a

def laterOf : Option Instant → Option Instant → Option Instant
  | none, b => b
  | a, none => a
  | some a, some b => some (later a b)

/-- Whole milliseconds since 1970, rounded down. A leap second counts on into the next minute. -/
def toMillis (t : Instant) : Int := t.seconds * 1000 + (t.nanos / 1000000 : Nat)

/-- The instant of a number of milliseconds; `none` beyond the years that instants may lie in. -/
def ofMillis? (ms : Int) : Option Instant :=
  ofParts? (ms / 1000) ((ms % 1000).toNat * 1000000)

end Instant

end MapAudit.Time
