import MapAudit.Database.Statement

namespace MapAudit

structure FrozenDatabase where
  database : Database

namespace FrozenDatabase

def refusal : Failure := .statement "attempt to write a readonly database"

def asking (step : Step Database α) : Step FrozenDatabase α := fun f =>
  match step f.database with
  | .ok a _ => .ok a f
  | .error e _ => .error e f

instance : Store FrozenDatabase where
  lookup k := asking (Store.lookup k)
  save s := throw (refusal.withEntity s.key)
  changesetExists id := asking (Store.changesetExists id)
  createChangeset c := throw (refusal.withChangeset c.id)
  recompute id := throw (refusal.withChangeset id)
  persist r :=
    -- The time is looked for before it shows that nothing can be written.
    match Database.timeOf r with
    | .ok _ => throw ((refusal.withEntity r.key).withChangeset r.changesetId)
    | .error e => throw e
  getUser id := asking (Store.getUser id)
  addUser _ := throw refusal
  updateUser _ := throw refusal

end FrozenDatabase

end MapAudit
