import MapAudit.Command.OpenFile

namespace MapAudit

structure OpenDatabase where
  stored : DatabaseFile := {}
  /-- Its file; a database without one lives only as long as it is open. -/
  file : Option OpenFile := none
  frozen : Bool := false

namespace OpenDatabase

def database (o : OpenDatabase) : Database := o.stored.database

def ofFile (f : OpenFile) (stored : DatabaseFile) (w : Workspace) : OpenDatabase where
  stored := stored
  file := f
  frozen :=
    f.location.isFrozen || stored.header.isFrozen || f.log == some .frozen ||
      f.log.isNone && !f.hasRoomForJournal w

def hasLog (o : OpenDatabase) : Bool := (o.file.bind (·.log)).isSome

def save (o : OpenDatabase) (stored : DatabaseFile) : Filing OpenDatabase := do
  if let some f := o.file then f.write stored.toBytes
  return { o with stored }

/-- Why a database that lacks something cannot be brought up to date: it may not be changed. -/
def refusal (db : Database) : Failure :=
  match db.migrations, Script.all.find? fun s => (db.history.find? s.id).isNone with
  | some _, some s => .migration s.id FrozenDatabase.refusal.message
  | _, _ => FrozenDatabase.refusal

/-- Brings a database up to date. One that may not be changed has to be so already. -/
def migrate (o : OpenDatabase) : Filing OpenDatabase := do
  let u := o.database.migrate
  let o ←
    if u.applied.isEmpty then pure o
    else if o.frozen then throw (refusal o.database)
    else
      let writings := if o.hasLog then 1 else u.applied.length + 1
      o.save { header := (o.stored.header.written writings).defined, database := u.database }
  match u.failure with
  | none => return o
  | some f => throw f

/-- Stores what has become of the database. Without a log, every writing counts. -/
def update (o : OpenDatabase) (db : Database) : Filing Unit := do
  if db.encode ≠ o.database.encode then
    let header := if o.hasLog then o.stored.header else o.stored.header.written 1
    discard (o.save { header, database := db })

end OpenDatabase

end MapAudit
