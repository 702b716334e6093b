import MapAudit.Changeset.Window
import MapAudit.Store.Basic

namespace MapAudit
open Time

structure Ledger where
  window : Window
  /-- In the order in which they were first touched. -/
  touched : IdQueue

inductive Ensured where
  | cached
  | confirmed
  | created
  deriving DecidableEq, Repr

def Ensured.name : Ensured → String
  | cached => "Cached"
  | confirmed => "Confirmed"
  | created => "Created"

namespace Ledger

def ofCapacity (n : Nat) : Ledger := ⟨.ofCapacity n, .empty⟩

def touch (l : Ledger) (id : Int64) : Ledger := { l with touched := l.touched.insert id }

/-- Makes sure that a changeset exists. The store is asked only for an id outside the window, which
is in it afterwards; the id that had to leave the window comes with the answer. -/
def ensure [Store σ] (l : Ledger) (id userId : Int64) (createdAt : Instant) :
    Step σ (Ensured × Option Int64 × Ledger) := do
  if l.window.contains id then return (.cached, none, l)
  let ensured ←
    if ← Store.changesetExists id then pure Ensured.confirmed
    else
      Store.createChangeset { id, userId, createdAt }
      pure .created
  -- Only now, so that a failure above leaves the window as it was.
  let (evicted, window) := l.window.insert id
  return (ensured, evicted, { l with window })

def naming (id : Int64) (step : Step σ α) : Step σ α := fun s =>
  match step s with
  | .ok a s => .ok a s
  | .error f s => .error (f.withChangeset id) s

/-- Recounts every touched changeset once, in order. Stops at the first failure, and nothing is
forgotten then. -/
def finalize [Store σ] (l : Ledger) : Step σ (List Int64 × Ledger) := do
  l.touched.toList.forM fun id => naming id (Store.recompute id)
  return (l.touched.toList, { l with touched := .empty })

end Ledger

end MapAudit
