import Std.Data.ExtTreeMap
import MapAudit.Database.History
import MapAudit.Database.Row

namespace MapAudit

/-- The number of a row that brings none: the one after the greatest in use or, if there is none
after it, the greatest that is free. -/
def freshNumber (greatest : Option Int) (inUse : List Int) : Int :=
  let next := greatest.getD 0 + 1
  let last := Int64.maxValue.toInt
  if next ≤ last then next
  else
    (((List.range (inUse.length + 1)).map fun (n : Nat) => last - n).find? (!inUse.contains ·)).getD
      next

/-- A row of the table that counts, for tables with numbers of their own, the rows that were ever
there. -/
structure Counter where
  number : Int
  /-- Whether the row counts for the audit log; all other rows are for nothing. -/
  ofLog : Bool
  last : Int
  deriving DecidableEq, Repr

/-- The audit log. Rows are numbered in the order of writing, and a number is never used twice. -/
structure ChangeLog where
  newestFirst : List ChangeRow := []
  /-- The counters by number, of which the first one of the log counts. -/
  counters : List Counter := []
  /-- Whether a number was brought along. Only then may the greatest number be taken, after which
  no other is given: numbers that are given one after another are taken never to come that far. -/
  numbered : Bool := false
  deriving Repr

namespace ChangeLog

def rows (l : ChangeLog) : List ChangeRow := l.newestFirst.reverse

def lastId (l : ChangeLog) : Int := (l.counters.find? (·.ofLog)).elim 0 (·.last)

/-- The number of the next row, unless the greatest one is taken. -/
def nextId? (l : ChangeLog) : Option Int :=
  let last := max l.lastId (l.newestFirst.head?.elim 0 (·.id))
  if l.numbered && Int64.maxValue.toInt ≤ last then none else some (last + 1)

def addCounter (l : ChangeLog) (c : Counter) : ChangeLog :=
  { l with
    counters := l.counters.takeWhile (·.number < c.number) ++
      c :: l.counters.dropWhile (·.number < c.number) }

def freshCounter (l : ChangeLog) : Int :=
  let inUse := l.counters.map (·.number)
  freshNumber inUse.getLast? inUse

def count (last : Int) : List Counter → List Counter
  | [] => []
  | c :: cs => if c.ofLog then { c with last } :: cs else c :: count last cs

def counted (l : ChangeLog) (id : Int) : ChangeLog :=
  if l.counters.any (·.ofLog) then { l with counters := count (max l.lastId id) l.counters }
  else l.addCounter ⟨l.freshCounter, true, max 0 id⟩

/-- Appends a row, whose number comes after that of the last one. -/
def append (l : ChangeLog) (row : ChangeRow) : ChangeLog :=
  { l.counted row.id with newestFirst := row :: l.newestFirst }

/-- Places a row that brings its number along. -/
def place (l : ChangeLog) (row : ChangeRow) : ChangeLog :=
  { l.counted row.id with
    newestFirst :=
      l.newestFirst.takeWhile (row.id < ·.id) ++ row :: l.newestFirst.dropWhile (row.id < ·.id)
    numbered := true }

end ChangeLog

/-- Entities are ordered by letter, then by id. -/
abbrev keyOrder (a b : EntityKey) : Ordering :=
  compareLex (compareOn fun k : EntityKey => k.kind.code) (compareOn EntityKey.id) a b

instance : Std.TransCmp keyOrder :=
  inferInstanceAs (Std.TransCmp
    (compareLex (compareOn fun k : EntityKey => k.kind.code) (compareOn EntityKey.id)))

structure KeyedRow where
  letter : String
  id : Cell
  row : EntityRow
  deriving Repr

namespace KeyedRow

/-- The entity that the key names. -/
def key? (r : KeyedRow) : Option EntityKey := do
  let kind ← EntityKind.ofCode? r.letter
  match r.id with
  | .integer i => return ⟨kind, Int64.ofInt i⟩
  | _ => none

def ofKey (key : EntityKey) (row : EntityRow) : KeyedRow := ⟨key.kind.code, .int64 key.id, row⟩

def le (a b : KeyedRow) : Bool := a.letter < b.letter || (a.letter == b.letter && a.id.le b.id)

def sameKey (a b : KeyedRow) : Bool := a.letter == b.letter && a.id.same b.id

/-- Whether the key is equal to that of an entity, though it may be no integer. -/
def isOf (r : KeyedRow) (key : EntityKey) : Bool :=
  r.letter == key.kind.code && r.id.same (.int64 key.id)

end KeyedRow

structure EntityTable where
  rows : Std.ExtTreeMap EntityKey EntityRow keyOrder := ∅
  /-- Rows whose key is not that of an entity, though it may be equal to one. -/
  strays : List KeyedRow := []
  /-- The numbers of all rows, the greatest first. -/
  numbers : List Int := []

namespace EntityTable

def all (t : EntityTable) : List KeyedRow :=
  t.rows.toList.map (fun (key, row) => .ofKey key row) ++ t.strays

def contains (t : EntityTable) (r : KeyedRow) : Bool := t.all.any r.sameKey

def find? (t : EntityTable) (key : EntityKey) : Option KeyedRow :=
  match t.rows[key]? with
  | some row => some (.ofKey key row)
  | none => t.strays.find? (·.isOf key)

/-- The number of the next row that brings none. -/
def freshNumber (t : EntityTable) : Int := MapAudit.freshNumber t.numbers.head? t.numbers

def withNumber (t : EntityTable) (n : Int) : EntityTable :=
  { t with numbers := t.numbers.takeWhile (n < ·) ++ n :: t.numbers.dropWhile (n < ·) }

/-- Adds a row under a key that is not there yet, with the number that it brings. -/
def place (t : EntityTable) (r : KeyedRow) (number : Option Int := none) : EntityTable :=
  let t := t.withNumber (number.getD t.freshNumber)
  match r.key? with
  | some key => { t with rows := t.rows.insert key r.row }
  | none => { t with strays := r :: t.strays }

/-- Puts a row in the place of that of an entity, whose columns for the key stay. -/
def save (t : EntityTable) (key : EntityKey) (row : EntityRow) : EntityTable :=
  if t.rows.contains key then { t with rows := t.rows.insert key row }
  else if t.strays.any (·.isOf key) then
    { t with strays := t.strays.map fun r => if r.isOf key then { r with row } else r }
  else t.place (.ofKey key row)

def toList (t : EntityTable) : List KeyedRow := t.all.mergeSort KeyedRow.le

end EntityTable

inductive Index where
  | changesOfChangeset
  | changesOfEntity
  | changesetsOfUser
  deriving DecidableEq, Repr

structure Database where
  users : Option (Std.ExtTreeMap Int64 String) := none
  changesets : Option (Std.ExtTreeMap Int64 ChangesetRow) := none
  entities : Option EntityTable := none
  changes : Option ChangeLog := none
  indexes : List Index := []
  migrations : Option History := none

namespace Database

def empty : Database := {}

def table (name : String) : Option α → Except Failure α
  | some t => .ok t
  | none => .error (.statement s!"no such table: {name}")

end Database

end MapAudit
