import Std.Data.ExtTreeSet
import MapAudit.Store.Basic

namespace MapAudit

structure Authors where
  seen : Std.ExtTreeSet Int64 := ∅

inductive UserWrite where
  /-- There is no author, or it was seen before. -/
  | skipped
  | unchanged
  | added
  | updated
  deriving DecidableEq, Repr

def UserWrite.name : UserWrite → String
  | skipped => "Skipped"
  | unchanged => "Unchanged"
  | added => "Added"
  | updated => "Updated"

namespace Authors

/-- Brings the stored user in line with the author. -/
def bringUpToDate [Store σ] (user : User) : Step σ UserWrite := do
  match ← Store.getUser user.id with
  | some stored =>
    if stored = user then return .unchanged
    Store.updateUser user
    return .updated
  | none =>
    Store.addUser user
    return .added

def ensure [Store σ] (a : Authors) : Option User → Step σ (UserWrite × Authors)
  | none => return (.skipped, a)
  | some user => do
    if a.seen.contains user.id then return (.skipped, a)
    let write ← bringUpToDate user
    return (write, { seen := a.seen.insert user.id })

def count (a : Authors) : Nat := a.seen.size

end Authors

end MapAudit
