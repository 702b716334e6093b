import MapAudit.Time.Instant
import MapAudit.Decimal.Digit
import MapAudit.Text.Basic

namespace MapAudit.Time.Rfc3339
open Decimal Text

/-- A scanner consumes a beginning of the text or fails. -/
abbrev Scan := StateT (List Char) Option

def blanks : Scan Unit := modify dropBlanks

def literal (c : Char) : Scan Unit := fun cs =>
  match cs with
  | d :: rest => if c = d then some ((), rest) else none
  | [] => none

/-- At least one digit and at most `width` of them. -/
def natural (width : Nat) : Scan Nat := fun cs =>
  let (ds, _) := takeDigits cs
  let taken := ds.take width
  if taken.isEmpty then none else some (value taken, cs.drop taken.length)

def wholeNatural : Scan Nat := fun cs => natural cs.length cs

/-- One or two digits after blanks, with a value in the given range. -/
def field (least greatest : Nat) : Scan Nat := do
  blanks
  let n ← natural 2
  if least ≤ n ∧ n ≤ greatest then pure n else failure

def separator (c : Char) : Scan Unit := do
  blanks
  literal c

/-- A year without sign has at most four digits. -/
def year : Scan Int := do
  blanks
  match ← get with
  | '-' :: rest => set rest; return -((← wholeNatural) : Int)
  | '+' :: rest => set rest; return ((← wholeNatural) : Int)
  | _ => return ((← natural 4) : Int)

def date : Scan Date := do
  let y ← year
  separator '-'
  let m ← field 1 12
  separator '-'
  let d ← field 1 31
  return ⟨y, m, d⟩

def middle : Scan Unit := fun cs =>
  match cs with
  | c :: rest => if c = 'T' ∨ c = 't' ∨ c = ' ' then some ((), rest) else none
  | [] => none

/-- Nanoseconds after a point; digits after the ninth are dropped. -/
def fraction : Scan Nat := do
  match ← get with
  | '.' :: rest =>
    let (ds, rest) := takeDigits rest
    if ds.isEmpty then failure
    set rest
    return value (ds.take 9) * Nat.pow 10 (9 - ds.length)
  | _ => return 0

/-- Seconds of the day and nanoseconds; second 60 is a leap second. -/
def clock : Scan (Nat × Nat) := do
  let h ← field 0 23
  separator ':'
  let m ← field 0 59
  separator ':'
  let s ← field 0 60
  let n ← fraction
  if s = 60 then return (h * 3600 + m * 60 + 59, 1000000000 + n)
  return (h * 3600 + m * 60 + s, n)

def twoDigits : Scan Nat := fun cs =>
  match (takeDigits (cs.take 2)).1 with
  | [a, b] => some (value [a, b], cs.drop 2)
  | _ => none

/-- The seconds by which an offset with hours and minutes is ahead of UTC. -/
def numericOffset (negative : Bool) : Scan Int := do
  let h ← twoDigits
  modify (·.dropWhile fun c => c = ':' || isBlank c)
  let m ← twoDigits
  if m < 60 then
    let s : Int := h * 3600 + m * 60
    return if negative then -s else s
  failure

def isUtc (cs : List Char) : Bool := (cs.take 3).map Char.toUpper == ['U', 'T', 'C']

def offset : Scan Int := do
  blanks
  match ← get with
  | 'Z' :: rest => set rest; return 0
  | 'z' :: rest => set rest; return 0
  | '+' :: rest => set rest; numericOffset false
  | '-' :: rest => set rest; numericOffset true
  | '\u2212' :: rest => set rest; numericOffset true
  | cs => if isUtc cs then set (cs.drop 3); return 0 else failure

/-- The years of dates that may be read. -/
def firstYear : Int := -262143
def lastYear : Int := 262142

def stamp : Scan Instant := do
  let d ← date
  middle
  let (s, n) ← clock
  let o ← offset
  blanks
  if d.isValid ∧ firstYear ≤ d.year ∧ d.year ≤ lastYear ∧ o.natAbs < 86400 then
    StateT.lift (Instant.ofParts? (d.toDays * secondsPerDay + s - o) n)
  else
    failure

def read? (text : String) : Option Instant :=
  match stamp.run text.toList with
  | some (t, []) => some t
  | _ => none

def padded (width n : Nat) : List Char :=
  let ds := Decimal.text (digits n)
  List.replicate (width - ds.length) '0' ++ ds

/-- Four digits, or a sign and at least four beyond the years 0 to 9999. -/
def yearText (y : Int) : List Char :=
  if 0 ≤ y ∧ y ≤ 9999 then padded 4 y.natAbs
  else (if y < 0 then '-' else '+') :: padded 4 y.natAbs

/-- The fraction of a second in three, six or nine digits, the fewest that are exact. -/
def fractionText (nanos : Nat) : List Char :=
  if nanos = 0 then []
  else if nanos % 1000000 = 0 then '.' :: padded 3 (nanos / 1000000)
  else if nanos % 1000 = 0 then '.' :: padded 6 (nanos / 1000)
  else '.' :: padded 9 nanos

/-- Date and time in UTC, followed by the given name of the zone. -/
def write (zone : List Char) (t : Instant) : List Char :=
  let d := Date.ofDays (t.seconds / secondsPerDay)
  let s := (t.seconds % secondsPerDay).toNat
  let second := s % 60 + if t.isLeap then 1 else 0
  let nanos := if t.isLeap then t.nanos - 1000000000 else t.nanos
  yearText d.year ++ '-' :: padded 2 d.month ++ '-' :: padded 2 d.day ++
    'T' :: padded 2 (s / 3600) ++ ':' :: padded 2 (s / 60 % 60) ++ ':' :: padded 2 second ++
    fractionText nanos ++ zone

def text (t : Instant) : String := String.ofList (write ['Z'] t)

def textWithOffset (t : Instant) : String := String.ofList (write "+00:00".toList t)

end MapAudit.Time.Rfc3339
