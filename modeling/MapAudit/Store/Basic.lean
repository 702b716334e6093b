import MapAudit.Failure
import MapAudit.Change.Record

namespace MapAudit

/-- An operation on a store. A failing one may have changed it. -/
abbrev Step (σ α : Type) := EStateM Failure σ α

class Store (σ : Type) where
  /-- The stored version of an entity; one that is not there is no failure. -/
  lookup : EntityKey → Step σ (Option Snapshot)
  save : Snapshot → Step σ Unit
  changesetExists : Int64 → Step σ Bool
  createChangeset : Changeset → Step σ Unit
  /-- Recounts the changes of a changeset and sets the time of the latest one. -/
  recompute : Int64 → Step σ Unit
  persist : ChangeRecord → Step σ Unit
  getUser : Int64 → Step σ (Option User)
  addUser : User → Step σ Unit
  updateUser : User → Step σ Unit

def Failure.changesetNotFound (id : Int64) : Failure :=
  { kind := .notFound
    operation := "recompute_changeset_summary"
    message := "changeset not found"
    changesetId := id }

end MapAudit
