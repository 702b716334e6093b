import MapAudit.Database.Basic

namespace MapAudit.Database

def authorName (users : Std.ExtTreeMap Int64 String) (row : EntityRow) : Option String :=
  match row.userId with
  | some (.integer id) => users[Int64.ofInt id]?
  | _ => none

/-- The stored version of an entity, with the present name of its author. -/
def entity? (db : Database) (key : EntityKey) : Except Failure (Option Snapshot) := do
  let entities ← table "entities" db.entities
  let users ← table "users" db.users
  Row.optional
    (fun r : KeyedRow => do
      let id ← r.id.toInt64
      r.row.toSnapshot ⟨key.kind, id⟩ (authorName users r.row))
    (entities.find? key)

def changeset? (db : Database) (id : Int64) : Except Failure (Option Changeset) := do
  let changesets ← table "changesets" db.changesets
  Row.optional ChangesetRow.toChangeset changesets[id]?

def changesOf (db : Database) (id : Int64) : Except Failure (List ChangeRecord) := do
  let changes ← table "changes" db.changes
  ChangeRow.toRecords (changes.rows.filter (·.changesetId = id))

/-- The audit records of an entity by version; those of one version in the order of writing. -/
def historyOf (db : Database) (key : EntityKey) : Except Failure (List ChangeRecord) := do
  let changes ← table "changes" db.changes
  let rows := changes.rows.filter fun r =>
    r.kind == key.kind.code && r.entityId.same (.int64 key.id)
  ChangeRow.toRecords (rows.mergeSort fun a b => a.version.le b.version)

def countChanges (db : Database) : Except Failure Nat := do
  let changes ← table "changes" db.changes
  return changes.newestFirst.length

def user? (db : Database) (id : Int64) : Except Failure (Option User) := do
  let users ← table "users" db.users
  return users[id]?.map fun name => ⟨id, name⟩

def hasChangeset (db : Database) (id : Int64) : Except Failure Bool := do
  let changesets ← table "changesets" db.changesets
  return changesets.contains id

def appliedMigrations (db : Database) : Except Failure (List String) := do
  let migrations ← table "schema_version" db.migrations
  return migrations.ids

end MapAudit.Database
