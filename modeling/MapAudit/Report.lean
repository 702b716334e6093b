import MapAudit.Database.Query

namespace MapAudit
open Time

structure ChangesetReport where
  changeset : Changeset
  /-- In the order of writing. -/
  changes : List ChangeRecord

namespace ChangesetReport

def changeLines (r : ChangesetReport) : List String := r.changes.map ChangeRecord.summary

def toJson (r : ChangesetReport) : Json :=
  .object [("changeset", Codec.toJson r.changeset), ("changes", Codec.toJson r.changes)]

def lines (r : ChangesetReport) : List String :=
  let c := r.changeset
  let closed := c.closedAt.elim [] fun t => [s!"  closed_at:  {Rfc3339.textWithOffset t}"]
  [s!"Changeset {c.id}", s!"  user:       {c.userId}",
    s!"  created_at: {Rfc3339.textWithOffset c.createdAt}"] ++ closed ++
    [s!"  changes:    {c.numChanges}"] ++ r.changeLines.map ("  " ++ ·)

end ChangesetReport

/-- The report of a changeset; `none` if there is no such changeset. -/
def Database.report? (db : Database) (id : Int64) : Except Failure (Option ChangesetReport) := do
  match ← db.changeset? id with
  | none => return none
  | some changeset => return some { changeset, changes := ← db.changesOf id }

end MapAudit
