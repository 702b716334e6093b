import MapAudit.Database.Migration
import MapAudit.Database.Statement

namespace MapAudit

inductive Literal where
  | null
  | integer (i : Int)
  | text (s : String)
  deriving DecidableEq, Repr

namespace Literal

/-- What a column of numbers makes of it. -/
def toCell? : Literal → Option Cell
  | null => none
  | integer i => some (.integer i)
  | text s => some (.ofText s)

/-- What a column of texts makes of it: a number is spelled out. -/
def toText? : Literal → Option String
  | null => none
  | integer i => some (toString i)
  | text s => some s

/-- The integer that it begins with, or the nearest one of 64 bits. -/
def leading : Literal → Int
  | null => 0
  | integer i => i
  | text s =>
    let (negative, cs) := Decimal.Numeral.readSign (s.toList.dropWhile Decimal.Numeral.isSpace)
    let n : Int := Decimal.value (Decimal.takeDigits cs).1
    max Int64.minValue.toInt (min (if negative then -n else n) Int64.maxValue.toInt)

end Literal

structure RawRow where
  table : String
  columns : List (String × Literal)

namespace RawRow

/-- A row as it is given; names are told apart regardless of ASCII case. -/
def ofColumns (table : String) (columns : List (String × Literal)) : RawRow where
  table := table.toLower
  columns := columns.map fun (name, l) => (name.toLower, l)

/-- What a column is given, or `fallback` if the row does not name it. -/
def literal (r : RawRow) (column : String) (fallback : Literal := .null) : Literal :=
  (r.columns.lookup column).getD fallback

def required (r : RawRow) (column : String) : Option α → Except Failure α
  | some a => .ok a
  | none => .error (.constraint s!"NOT NULL constraint failed: {r.table}.{column}")

def cell? (r : RawRow) (column : String) : Option Cell := (r.literal column).toCell?

def cell (r : RawRow) (column : String) (fallback : Literal := .null) : Except Failure Cell :=
  r.required column (r.literal column fallback).toCell?

def text? (r : RawRow) (column : String) : Option String := (r.literal column).toText?

def text (r : RawRow) (column : String) (fallback : Literal := .null) : Except Failure String :=
  r.required column (r.literal column fallback).toText?

/-- The names that the number of a row has besides its own in every table. -/
def numberNames : List String := ["rowid", "oid", "_rowid_"]

/-- Fails on a row without columns, and on a column that the table does not have. -/
def checkColumns (r : RawRow) (columns : List String) : Except Failure Unit :=
  if r.columns.isEmpty then .error (.statement "syntax error")
  else
    match r.columns.find? fun c => !(columns ++ numberNames).contains c.1 with
    | some (column, _) => .error (.statement s!"table {r.table} has no column named {column}")
    | none => .ok ()

def checkFilled (r : RawRow) (columns : List String) : Except Failure Unit :=
  columns.forM fun column => discard (r.required column (r.cell? column))

/-- The number of the row, under the last of its names. It takes nothing but an integer. -/
def number? (r : RawRow) (names : List String) : Except Failure (Option Int) :=
  match (r.columns.reverse.find? (names.contains ·.1)).bind (·.2.toCell?) with
  | none => .ok none
  | some (.integer i) => .ok (some i)
  | some _ => .error (.statement "datatype mismatch")

def id (r : RawRow) (inUse : List Int) : Except Failure Int :=
  return (← r.number? ("id" :: numberNames)).getD (freshNumber inUse.max? inUse)

def toEntity (r : RawRow) : Except Failure (KeyedRow × Option Int) := do
  r.checkColumns
    ["el_type", "id", "version", "changeset_id", "tstamp", "user_id", "visible", "tags", "geom",
      "members"]
  let number ← r.number? numberNames
  let letter ← r.text "el_type"
  let id ← r.cell "id"
  let version ← r.cell "version"
  let changesetId ← r.cell "changeset_id"
  let visible ← r.cell "visible" (.integer 1)
  let tags ← r.text "tags" (.text "\x7b\x7d")
  let members ← r.text "members" (.text "[]")
  let row : EntityRow :=
    { version := version
      changesetId := changesetId
      millis := r.cell? "tstamp"
      userId := r.cell? "user_id"
      visible := visible
      tags := tags
      geometry := r.text? "geom"
      members := members }
  return (⟨letter, id, row⟩, number)

/-- The changeset that a row refers to; none can have a number that is no integer. -/
def reference : Cell → Except Failure Int64
  | .integer i => .ok (Int64.ofInt i)
  | _ => .error .brokenReference

def toChange (r : RawRow) (id : Int) : Except Failure ChangeRow := do
  return {
    id := id
    kind := ← r.text "el_type"
    entityId := ← r.cell "el_id"
    version := ← r.cell "version"
    changesetId := ← reference (← r.cell "changeset_id")
    millis := ← r.cell "tstamp"
    action := ← r.text "action"
    tagsChanged := ← r.cell "changed_tags"
    geometryChanged := ← r.cell "changed_geom"
    membersChanged := ← r.cell "changed_members"
    previousTags := r.text? "current_tags"
    newTags := r.text? "new_tags"
    previousGeometry := r.text? "current_geom"
    newGeometry := r.text? "new_geom" }

def toChangeset (r : RawRow) (inUse : List Int) : Except Failure ChangesetRow := do
  r.checkColumns ["id", "user_id", "created_at", "closed_at", "num_changes"]
  return {
    id := Int64.ofInt (← r.id inUse)
    userId := ← r.cell "user_id"
    createdAt := ← r.cell "created_at"
    closedAt := r.cell? "closed_at"
    numChanges := ← r.cell "num_changes" (.integer 0) }

def toUser (r : RawRow) (inUse : List Int) : Except Failure User := do
  r.checkColumns ["id", "name"]
  return { id := Int64.ofInt (← r.id inUse), name := ← r.text "name" }

def toMigration (r : RawRow) (inUse : List Int) : Except Failure AppliedMigration := do
  r.checkColumns ["id", "migration_id", "applied_at", "checksum"]
  let number ← r.id inUse
  let id ← r.text "migration_id"
  let _ ← r.cell "applied_at"
  return { number := number, id := id, checksum := r.text? "checksum" }

end RawRow

namespace Database

def checkFree (columns : String) (taken : Bool) : Except Failure Unit :=
  if taken then .error (.constraint s!"UNIQUE constraint failed: {columns}") else .ok ()

def loadEntity (db : Database) (r : RawRow) : Except Failure Database := do
  let entities ← table "entities" db.entities
  let (row, number) ← r.toEntity
  checkFree "entities.rowid" (number.any entities.numbers.contains)
  checkFree "entities.el_type, entities.id" (entities.contains row)
  return { db with entities := some (entities.place row number) }

/-- Loads a row of the audit log, which gets the next number unless it brings one. -/
def loadChange (db : Database) (r : RawRow) : Except Failure Database := do
  let changes ← table "changes" db.changes
  r.checkColumns
    ["id", "el_type", "el_id", "version", "changeset_id", "tstamp", "action", "changed_tags",
      "changed_geom", "changed_members", "current_tags", "new_tags", "current_geom", "new_geom"]
  let number ← r.number? ("id" :: RawRow.numberNames)
  -- A number is found for the row even if the row is refused for an empty column.
  let id ← number.elim (nextChangeId changes) .ok
  r.checkFilled
    ["el_type", "el_id", "version", "changeset_id", "tstamp", "action", "changed_tags",
      "changed_geom", "changed_members"]
  checkFree "changes.id" (changes.newestFirst.any (·.id = id))
  let row ← r.toChange id
  checkReference db row.changesetId
  let changes := if number.isSome then changes.place row else changes.append row
  return { db with changes := some changes }

def loadChangeset (db : Database) (r : RawRow) : Except Failure Database := do
  let changesets ← table "changesets" db.changesets
  let row ← r.toChangeset (changesets.keys.map Int64.toInt)
  checkFree "changesets.id" (changesets.contains row.id)
  return { db with changesets := some (changesets.insert row.id row) }

def loadUser (db : Database) (r : RawRow) : Except Failure Database := do
  let users ← table "users" db.users
  let u ← r.toUser (users.keys.map Int64.toInt)
  checkFree "users.id" (users.contains u.id)
  return { db with users := some (users.insert u.id u.name) }

def loadMigration (db : Database) (r : RawRow) : Except Failure Database := do
  let history ← table "schema_version" db.migrations
  let m ← r.toMigration (history.rows.map (·.number))
  checkFree "schema_version.id" (history.rows.any (·.number = m.number))
  checkFree "schema_version.migration_id" (history.find? m.id).isSome
  return { db with migrations := some (history.add m) }

/-- Loads a row of the table that counts. It is there as soon as the audit log is. -/
def loadCounter (db : Database) (r : RawRow) : Except Failure Database := do
  let changes ← table "sqlite_sequence" db.changes
  r.checkColumns ["name", "seq"]
  let number ← r.number? RawRow.numberNames
  checkFree "sqlite_sequence.rowid" (number.any fun n => changes.counters.any (·.number = n))
  let counter : Counter :=
    { number := number.getD changes.freshCounter
      ofLog := r.literal "name" == .text "changes"
      last := (r.literal "seq").leading }
  return { db with changes := some { changes.addCounter counter with numbered := true } }

def load (db : Database) (r : RawRow) : Except Failure Database :=
  match r.table with
  | "entities" => db.loadEntity r
  | "changes" => db.loadChange r
  | "changesets" => db.loadChangeset r
  | "users" => db.loadUser r
  | "schema_version" => db.loadMigration r
  | "sqlite_sequence" => db.loadCounter r
  | name => table name none

end Database

end MapAudit
