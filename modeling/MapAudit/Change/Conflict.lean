import MapAudit.Change.Action
import MapAudit.Entity.Snapshot

namespace MapAudit

inductive Conflict where
  | alreadyExists
  | doesNotExist
  /-- The new version does not directly follow the stored one. -/
  | wrongVersion (stored new : Int64)
  deriving DecidableEq, Repr

/-- The conflict of an action with the stored version, if any. The successor of the greatest
version is no version. -/
def conflict? : Action → Option Int64 → Int64 → Option Conflict
  | .create, some _, _ => some .alreadyExists
  | .create, none, _ => none
  | .modify, none, _ => some .doesNotExist
  | .delete, none, _ => some .doesNotExist
  | .modify, some stored, new =>
    if stored.toInt + 1 = new.toInt then none else some (.wrongVersion stored new)
  | .delete, some _, _ => none

structure InvalidAction where
  action : Action
  key : EntityKey
  conflict : Conflict
  deriving DecidableEq, Repr

namespace InvalidAction

def text (i : InvalidAction) : String :=
  let what :=
    match i.action, i.conflict with
    | _, .alreadyExists => "create entity that already exists!"
    | .delete, .doesNotExist => "delete entity that does not exist!"
    | _, .doesNotExist => "modify entity that does not exist!"
    | _, .wrongVersion stored new =>
      s!"modify entity with wrong version (existing = {stored}, new = {new})"
  s!"{i.key.kind.name} {i.key.id} - Trying to {what}"

end InvalidAction

/-- Checks an action against the stored snapshot of its entity; `none` when it fits. -/
def invalid? (action : Action) (previous : Option Snapshot) (next : Snapshot) :
    Option InvalidAction :=
  (conflict? action (previous.map (·.version)) next.version).map (⟨action, next.key, ·⟩)

end MapAudit
