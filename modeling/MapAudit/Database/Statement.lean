import MapAudit.Database.Query
import MapAudit.Store.Basic

namespace MapAudit.Database
open Time

/-- A constraint of the tables: the column has to hold one of the texts. -/
structure Choice where
  column : String
  texts : List String

namespace Choice

def kinds : Choice := ⟨"el_type", ["P", "L", "R"]⟩

def actions : Choice := ⟨"action", ["CREATE", "MODIFY", "DELETE"]⟩

/-- The constraint as it stands in the script of the tables. -/
def condition (l : Choice) : String :=
  l.column ++ " IN (" ++ ", ".intercalate (l.texts.map fun text => "'" ++ text ++ "'") ++ ")"

def check (l : Choice) (text : String) : Except Failure Unit :=
  if text ∈ l.texts then .ok () else .error (.constraint s!"CHECK constraint failed: {l.condition}")

end Choice

def saveEntity (db : Database) (s : Snapshot) : Except Failure Database := do
  let entities ← table "entities" db.entities
  Choice.kinds.check s.kind.code
  if s.version < 1 then throw (.constraint "CHECK constraint failed: version >= 1")
  return { db with entities := some (entities.save s.key (.ofSnapshot s)) }

def addChangeset (db : Database) (c : Changeset) : Except Failure Database := do
  let changesets ← table "changesets" db.changesets
  if changesets.contains c.id then throw (.constraint "UNIQUE constraint failed: changesets.id")
  return { db with changesets := some (changesets.insert c.id (.ofChangeset c)) }

def latest (rows : List ChangeRow) : Option Cell :=
  rows.foldl (fun t r => some (t.elim r.millis (Cell.max · r.millis))) none

/-- A changeset with its number of changes and its end taken from the log. -/
def recountRow (changes : ChangeLog) (row : ChangesetRow) : ChangesetRow :=
  let rows := changes.rows.filter (·.changesetId = row.id)
  { row with numChanges := .integer rows.length, closedAt := latest rows }

def recount (db : Database) (id : Int64) : Except Failure Database := do
  let changesets ← table "changesets" db.changesets
  let changes ← table "changes" db.changes
  match changesets[id]? with
  | some row =>
    return { db with changesets := some (changesets.insert id (recountRow changes row)) }
  | none => throw (.changesetNotFound id)

/-- Fails unless a changeset exists, which the rows of the audit log have to refer to. -/
def checkReference (db : Database) (changesetId : Int64) : Except Failure Unit := do
  let changesets ← table "main.changesets" db.changesets
  unless changesets.contains changesetId do throw .brokenReference

def nextChangeId (changes : ChangeLog) : Except Failure Int :=
  match changes.nextId? with
  | some id => .ok id
  | none => .error (.statement "database or disk is full")

def addChange (db : Database) (r : ChangeRecord) (time : Instant) : Except Failure Database := do
  let changes ← table "changes" db.changes
  let row := ChangeRow.ofRecord (← nextChangeId changes) r time
  Choice.kinds.check row.kind
  Choice.actions.check row.action
  checkReference db row.changesetId
  return { db with changes := some (changes.append row) }

def addUser (db : Database) (u : User) : Except Failure Database := do
  let users ← table "users" db.users
  if users.contains u.id then throw (.constraint "UNIQUE constraint failed: users.id")
  return { db with users := some (users.insert u.id u.name) }

/-- Renames a user; nothing happens if there is none of that id. -/
def renameUser (db : Database) (u : User) : Except Failure Database := do
  let users ← table "users" db.users
  return { db with users := some (users.modify u.id fun _ => u.name) }

def timeOf (r : ChangeRecord) : Except Failure Instant :=
  match r.timestamp with
  | some t => .ok t
  | none =>
    .error
      { kind := .missingField
        operation := "persist_change"
        message := "change record has no timestamp"
        entity := r.key }

def asking (f : Database → Except Failure α) : Step Database α := fun db =>
  match f db with
  | .ok a => .ok a db
  | .error e => .error e db

def writing (f : Database → Except Failure Database) : Step Database Unit := fun db =>
  match f db with
  | .ok db => .ok () db
  | .error e => .error e db

instance : Store Database where
  lookup k := asking fun db => (db.entity? k).mapError (·.withEntity k)
  save s := writing fun db => (db.saveEntity s).mapError (·.withEntity s.key)
  changesetExists id := asking fun db => (db.hasChangeset id).mapError (·.withChangeset id)
  createChangeset c := writing fun db => (db.addChangeset c).mapError (·.withChangeset c.id)
  recompute id := writing fun db => (db.recount id).mapError (·.withChangeset id)
  persist r := writing fun db => do
    let time ← timeOf r
    (db.addChange r time).mapError fun f => (f.withEntity r.key).withChangeset r.changesetId
  getUser id := asking (·.user? id)
  addUser u := writing (·.addUser u)
  updateUser u := writing (·.renameUser u)

end MapAudit.Database
