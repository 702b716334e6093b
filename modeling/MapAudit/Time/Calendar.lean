namespace MapAudit.Time

structure Date where
  year : Int
  month : Nat
  day : Nat
  deriving DecidableEq, Repr

def isLeapYear (year : Int) : Bool :=
  year % 4 == 0 && (year % 100 != 0 || year % 400 == 0)

def monthLengths (year : Int) : List Nat :=
  [31, if isLeapYear year then 29 else 28, 31, 30, 31, 30, 31, 31, 30, 31, 30, 31]

def daysBeforeYear (year : Int) : Int :=
  let y := year - 1
  365 * y + y / 4 - y / 100 + y / 400

/-- Day numbers count from 1970-01-01. -/
def epochOffset : Int := daysBeforeYear 1970

namespace Date

/-- The date exists. -/
def isValid (d : Date) : Bool :=
  1 ≤ d.month && d.month ≤ 12 && 1 ≤ d.day && d.day ≤ (monthLengths d.year).getD (d.month - 1) 0

def daysBeforeMonth (year : Int) (month : Nat) : Nat :=
  ((monthLengths year).take (month - 1)).foldl (· + ·) 0

def toDays (d : Date) : Int :=
  daysBeforeYear d.year + daysBeforeMonth d.year d.month + (d.day - 1 : Int) - epochOffset

end Date

/-- The year in which day `n` falls, counted from the first day of year 1. The quotient by the mean
length of a year is the year itself or one of its neighbours. -/
def yearOfDay (n : Int) : Int :=
  let guess := n * 400 / 146097 + 1
  if n < daysBeforeYear guess then guess - 1
  else if daysBeforeYear (guess + 1) ≤ n then guess + 1
  else guess

/-- Month and day of the day `n` of a year with the given months, both counted from zero. -/
def monthOfDay : List Nat → Nat → Nat × Nat
  | [], n => (0, n)
  | len :: rest, n =>
    if n < len then (0, n)
    else
      let (m, d) := monthOfDay rest (n - len)
      (m + 1, d)

def Date.ofDays (n : Int) : Date :=
  let days := n + epochOffset
  let year := yearOfDay days
  let (m, d) := monthOfDay (monthLengths year) (days - daysBeforeYear year).toNat
  ⟨year, m + 1, d + 1⟩

end MapAudit.Time
