namespace MapAudit

/-- A migration that was applied. Its checksum may be unknown. The time of its application is left out:
it is written and never read. -/
structure AppliedMigration where
  number : Int
  id : String
  checksum : Option String
  deriving DecidableEq, Repr

structure History where
  /-- The records by number. -/
  rows : List AppliedMigration
  nodup : (rows.map (·.id)).Nodup
  deriving DecidableEq

namespace History

def empty : History := ⟨[], .nil⟩

def ids (h : History) : List String := h.rows.map (·.id)

def find? (h : History) (id : String) : Option AppliedMigration := h.rows.find? (·.id = id)

def nextNumber (h : History) : Int := (h.rows.getLast?.elim 0 (·.number)) + 1

/-- Records a migration at its number, unless it is recorded already. -/
def add (h : History) (m : AppliedMigration) : History :=
  if new : m.id ∈ h.rows.map (·.id) then h
  else
    { rows := h.rows.takeWhile (·.number ≤ m.number) ++ m :: h.rows.dropWhile (·.number ≤ m.number)
      nodup := by
        refine (List.perm_middle.map _).nodup_iff.mpr ?_
        rw [List.takeWhile_append_dropWhile, List.map_cons, List.nodup_cons]
        exact ⟨new, h.nodup⟩ }

def setChecksum (h : History) (id : String) (checksum : Option String) : History where
  rows := h.rows.map fun m => if m.id = id then { m with checksum } else m
  nodup := by
    have same : (AppliedMigration.id ∘ fun m => if m.id = id then { m with checksum } else m) =
        AppliedMigration.id := by
      funext m
      by_cases e : m.id = id <;> simp [e]
    rw [List.map_map, same]
    exact h.nodup

def erase (h : History) (id : String) : History where
  rows := h.rows.filter (·.id ≠ id)
  nodup := h.nodup.sublist (List.filter_sublist.map _)

def count (h : History) (id : String) : Nat := h.rows.countP (·.id = id)

end History

end MapAudit
