import MapAudit.Database.Basic
import MapAudit.Digest.Sha256

namespace MapAudit

inductive Table where
  | users
  | changesets
  | entities
  | changes
  deriving DecidableEq, Repr

namespace Table

def all : List Table := [users, changesets, entities, changes]

def name : Table → String
  | users => "users"
  | changesets => "changesets"
  | entities => "entities"
  | changes => "changes"

end Table

namespace Index

def all : List Index := [changesOfChangeset, changesOfEntity, changesetsOfUser]

def name : Index → String
  | changesOfChangeset => "idx_changes_changeset"
  | changesOfEntity => "idx_changes_entity"
  | changesetsOfUser => "idx_changesets_user"

def table : Index → Table
  | changesOfChangeset | changesOfEntity => .changes
  | changesetsOfUser => .changesets

def columns : Index → List String
  | changesOfChangeset => ["changeset_id"]
  | changesOfEntity => ["el_type", "el_id", "version"]
  | changesetsOfUser => ["user_id"]

end Index

/-- What a statement of a script defines. -/
inductive Definition where
  | table (t : Table)
  | index (i : Index)
  deriving DecidableEq, Repr

namespace Definition

def all : List Definition := Table.all.map .table ++ Index.all.map .index

/-- The line that the statement of a definition begins with. -/
def firstLine : Definition → String
  | table t => s!"CREATE TABLE {t.name} ("
  | index i =>
    let columns := ", ".intercalate i.columns
    s!"CREATE INDEX {i.name} ON {i.table.name} ({columns});"

def ofLine? (line : String) : Option Definition := all.find? (·.firstLine = line)

end Definition

structure Script where
  id : String
  lines : List String
  definitions : List Definition
  /-- The definitions are those of the lines, in order. -/
  stated : lines.filterMap Definition.ofLine? = definitions

namespace Script

def text (s : Script) : String := String.join (s.lines.map (· ++ "\n"))

def checksum (s : Script) : String := Sha256.ofText s.text

def initialSchema : Script where
  id := "001_initial_schema"
  lines := [
    "-- Users referenced by entity versions and changesets",
    "CREATE TABLE users (",
    "    id INTEGER PRIMARY KEY,",
    "    name TEXT NOT NULL",
    ");",
    "",
    "-- One row per changeset; summary columns are recomputed at end of run",
    "CREATE TABLE changesets (",
    "    id INTEGER PRIMARY KEY,",
    "    user_id INTEGER NOT NULL,",
    "    created_at INTEGER NOT NULL,",
    "    closed_at INTEGER,",
    "    num_changes INTEGER NOT NULL DEFAULT 0",
    ");",
    "",
    "-- Current state: the last stored version of every entity",
    "CREATE TABLE entities (",
    "    el_type TEXT NOT NULL CHECK (el_type IN ('P', 'L', 'R')),",
    "    id INTEGER NOT NULL,",
    "    version INTEGER NOT NULL CHECK (version >= 1),",
    "    changeset_id INTEGER NOT NULL,",
    "    tstamp INTEGER,",
    "    user_id INTEGER,",
    "    visible INTEGER NOT NULL DEFAULT 1,",
    "    tags TEXT NOT NULL DEFAULT '\x7b\x7d',",
    "    geom TEXT,",
    "    members TEXT NOT NULL DEFAULT '[]',",
    "    PRIMARY KEY (el_type, id)",
    ");",
    "",
    "-- Audit records, one per processed change",
    "CREATE TABLE changes (",
    "    id INTEGER PRIMARY KEY AUTOINCREMENT,",
    "    el_type TEXT NOT NULL CHECK (el_type IN ('P', 'L', 'R')),",
    "    el_id INTEGER NOT NULL,",
    "    version INTEGER NOT NULL,",
    "    changeset_id INTEGER NOT NULL REFERENCES changesets(id),",
    "    tstamp INTEGER NOT NULL,",
    "    action TEXT NOT NULL CHECK (action IN ('CREATE', 'MODIFY', 'DELETE')),",
    "    changed_tags INTEGER NOT NULL,",
    "    changed_geom INTEGER NOT NULL,",
    "    changed_members INTEGER NOT NULL,",
    "    current_tags TEXT,",
    "    new_tags TEXT,",
    "    current_geom TEXT,",
    "    new_geom TEXT",
    ");"]
  definitions := [.table .users, .table .changesets, .table .entities, .table .changes]
  stated := rfl

def changeIndexes : Script where
  id := "002_change_indexes"
  lines := [
    "CREATE INDEX idx_changes_changeset ON changes (changeset_id);",
    "CREATE INDEX idx_changes_entity ON changes (el_type, el_id, version);",
    "CREATE INDEX idx_changesets_user ON changesets (user_id);"]
  definitions := [.index .changesOfChangeset, .index .changesOfEntity, .index .changesetsOfUser]
  stated := rfl

def all : List Script := [initialSchema, changeIndexes]

end Script

namespace Database

def hasTable (db : Database) : Table → Bool
  | .users => db.users.isSome
  | .changesets => db.changesets.isSome
  | .entities => db.entities.isSome
  | .changes => db.changes.isSome

/-- A new table is empty, whatever stood in its place. -/
def createTable (db : Database) : Table → Database
  | .users => { db with users := some ∅ }
  | .changesets => { db with changesets := some ∅ }
  | .entities => { db with entities := some {} }
  | .changes => { db with changes := some {} }

/-- Nothing is defined twice, and an index needs its table. -/
def define (db : Database) : Definition → Except String Database
  | .table t =>
    if db.hasTable t then .error s!"table {t.name} already exists" else .ok (db.createTable t)
  | .index i =>
    if i ∈ db.indexes then .error s!"index {i.name} already exists"
    else if db.hasTable i.table then .ok { db with indexes := db.indexes ++ [i] }
    else .error s!"no such table: main.{i.table.name}"

def defineAll (db : Database) : List Definition → Except String Database
  | [] => .ok db
  | d :: ds => do (← db.define d).defineAll ds

def history (db : Database) : History := db.migrations.getD .empty

def record (db : Database) (s : Script) : Database :=
  { db with migrations := some (db.history.add ⟨db.history.nextNumber, s.id, some s.checksum⟩) }

def runScript (db : Database) (s : Script) : Except Failure Database :=
  match db.defineAll s.definitions with
  | .ok db => .ok (db.record s)
  | .error reason => .error (.migration s.id reason)

/-- Runs a script unless it is recorded; `none` when there is nothing to do. A recorded checksum has
to be that of the script. -/
def applyScript (db : Database) (s : Script) : Except Failure (Option Database) :=
  match db.history.find? s.id with
  | none => (db.runScript s).map some
  | some ⟨_, _, none⟩ => .ok none
  | some ⟨_, _, some expected⟩ =>
    if expected = s.checksum then .ok none
    else .error (.checksumMismatch s.id expected s.checksum)

structure Upgrade where
  database : Database
  applied : List String := []
  /-- Why the next script could not be applied. -/
  failure : Option Failure := none

/-- Applies scripts in order, up to the first that fails. -/
def upgrade (db : Database) : List Script → Upgrade
  | [] => { database := db }
  | s :: ss =>
    match db.applyScript s with
    | .error f => { database := db, failure := f }
    | .ok none => db.upgrade ss
    | .ok (some db) => let u := db.upgrade ss; { u with applied := s.id :: u.applied }

def migrate (db : Database) : Upgrade :=
  upgrade { db with migrations := some db.history } Script.all

def fresh : Database := empty.migrate.database

def objects (db : Database) : List (String × String) :=
  let tables := Table.all.filter db.hasTable
  let names := tables.map Table.name ++ if db.migrations.isSome then ["schema_version"] else []
  let sorted (kind : String) (names : List String) : List (String × String) :=
    (names.mergeSort fun a b => a ≤ b).map (kind, ·)
  sorted "index" (db.indexes.map Index.name) ++ sorted "table" names

def setChecksum (db : Database) (id : String) (checksum : Option String) :
    Except Failure (Nat × Database) := do
  let history ← table "schema_version" db.migrations
  return (history.count id, { db with migrations := some (history.setChecksum id checksum) })

def forgetMigration (db : Database) (id : String) : Except Failure (Nat × Database) := do
  let history ← table "schema_version" db.migrations
  return (history.count id, { db with migrations := some (history.erase id) })

end Database

end MapAudit
