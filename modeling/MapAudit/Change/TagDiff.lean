import MapAudit.Entity.Snapshot

namespace MapAudit

structure ValueChange where
  old : String
  new : String
  deriving DecidableEq, Repr

structure TagDiff where
  added : Tags := ∅
  removed : Tags := ∅
  changed : Std.ExtTreeMap String ValueChange := ∅
  deriving DecidableEq

namespace TagDiff

/-- Absent tags count as no tags. -/
def between (previous next : Option Tags) : TagDiff :=
  let old := previous.getD ∅
  let new := next.getD ∅
  { added := new.filter fun k _ => !old.contains k
    removed := old.filter fun k _ => !new.contains k
    changed := new.filterMap fun k value =>
      match old[k]? with
      | some before => if before = value then none else some ⟨before, value⟩
      | none => none }

def isEqual (d : TagDiff) : Bool := d.added.isEmpty && d.removed.isEmpty && d.changed.isEmpty

def changedKeys (d : TagDiff) : List String :=
  (d.added.keys ++ d.removed.keys ++ d.changed.keys).mergeSort (compare · · |>.isLE)

end TagDiff

end MapAudit
