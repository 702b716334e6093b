import MapAudit.Changeset.Queue

namespace MapAudit

structure Window where
  capacity : Nat
  capacity_pos : 0 < capacity
  ids : IdQueue

namespace Window

def defaultCapacity : Nat := 32768

/-- An empty window for the given number of ids, but at least for one. -/
def ofCapacity (n : Nat) : Window where
  capacity := max n 1
  capacity_pos := by omega
  ids := .empty

/-- The remembered ids, oldest first. -/
def toList (w : Window) : List Int64 := w.ids.toList

def contains (w : Window) (id : Int64) : Bool := w.ids.contains id

def size (w : Window) : Nat := w.ids.size

/-- Remembers an id. Yields the id that had to leave, if any; a present id keeps its place. -/
def insert (w : Window) (id : Int64) : Option Int64 × Window :=
  if w.contains id then (none, w)
  else if w.size < w.capacity then (none, { w with ids := w.ids.insert id })
  else
    match w.ids.pop? with
    | some (oldest, ids) => (some oldest, { w with ids := ids.insert id })
    | none => (none, { w with ids := w.ids.insert id })

def clear (w : Window) : Window := { w with ids := .empty }

end Window

end MapAudit
