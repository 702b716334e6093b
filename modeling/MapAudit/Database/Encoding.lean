import MapAudit.Database.Migration
import MapAudit.Json.Codec
import MapAudit.Stream.Bytes

namespace MapAudit
open Codec

instance : Codec Int := ⟨.int, fun _ => Json.toInt?⟩

instance [Codec α] : Codec (Option α) where
  toJson := Json.option toJson
  ofJson? depth := Json.nullable? (ofJson? depth)

/-- Integers, floats and texts stay apart, since a float has a point or an exponent. -/
instance : Codec Cell where
  toJson
    | .integer i => .int i
    | .real x => Json.option .number (Json.Number.ofFloat? x)
    | .text s => .string s
  ofJson? _
    | .number n => (n.toInt?.map Cell.integer) <|> (n.toFloat?.map Cell.real)
    | .string s => some (.text s)
    | _ => none

instance : Codec KeyedRow where
  toJson r :=
    .array
      [toJson r.letter, toJson r.id, toJson r.row.version, toJson r.row.changesetId,
        toJson r.row.millis, toJson r.row.userId, toJson r.row.visible, toJson r.row.tags,
        toJson r.row.geometry, toJson r.row.members]
  ofJson? depth
    | .array
        [letter, id, version, changesetId, millis, userId, visible, tags, geometry, members] =>
      return ⟨← ofJson? depth letter, ← ofJson? depth id,
        { version := ← ofJson? depth version
          changesetId := ← ofJson? depth changesetId
          millis := ← ofJson? depth millis
          userId := ← ofJson? depth userId
          visible := ← ofJson? depth visible
          tags := ← ofJson? depth tags
          geometry := ← ofJson? depth geometry
          members := ← ofJson? depth members }⟩
    | _ => none

instance : Codec ChangeRow where
  toJson r :=
    .array
      [toJson r.id, toJson r.kind, toJson r.entityId, toJson r.version, toJson r.changesetId,
        toJson r.millis, toJson r.action, toJson r.tagsChanged, toJson r.geometryChanged,
        toJson r.membersChanged, toJson r.previousTags, toJson r.newTags,
        toJson r.previousGeometry, toJson r.newGeometry]
  ofJson? depth
    | .array
        [id, kind, entityId, version, changesetId, millis, action, tagsChanged, geometryChanged,
          membersChanged, previousTags, newTags, previousGeometry, newGeometry] =>
      return ⟨← ofJson? depth id, ← ofJson? depth kind, ← ofJson? depth entityId,
        ← ofJson? depth version, ← ofJson? depth changesetId, ← ofJson? depth millis,
        ← ofJson? depth action, ← ofJson? depth tagsChanged, ← ofJson? depth geometryChanged,
        ← ofJson? depth membersChanged, ← ofJson? depth previousTags, ← ofJson? depth newTags,
        ← ofJson? depth previousGeometry, ← ofJson? depth newGeometry⟩
    | _ => none

instance : Codec ChangesetRow where
  toJson r :=
    .array
      [toJson r.id, toJson r.userId, toJson r.createdAt, toJson r.closedAt, toJson r.numChanges]
  ofJson? depth
    | .array [id, userId, createdAt, closedAt, numChanges] =>
      return ⟨← ofJson? depth id, ← ofJson? depth userId, ← ofJson? depth createdAt,
        ← ofJson? depth closedAt, ← ofJson? depth numChanges⟩
    | _ => none

/-- A row of two columns. -/
instance [Codec α] [Codec β] : Codec (α × β) where
  toJson p := .array [toJson p.1, toJson p.2]
  ofJson? depth
    | .array [a, b] => return (← ofJson? depth a, ← ofJson? depth b)
    | _ => none

instance : Codec Index where
  toJson i := .string i.name
  ofJson? _ v := do
    let name ← v.toText?
    Index.all.find? (·.name = name)

namespace Database

def userRows (t : Std.ExtTreeMap Int64 String) : List (Int64 × String) := t.toList

def changesetRows (t : Std.ExtTreeMap Int64 ChangesetRow) : List ChangesetRow :=
  t.toList.map Prod.snd

/-- The ids and the checksums of the applied migrations, in order. -/
def checksums (h : History) : List (String × Option String) :=
  h.rows.map fun m => (m.id, m.checksum)

def migrationRows (h : History) : List (Int × String × Option String) :=
  h.rows.map fun m => (m.number, m.id, m.checksum)

/-- The lines of a table, if it is there: its name, then its rows. -/
def tableLines [Codec α] (name : String) (rows : Option (List α)) : List Json :=
  rows.elim [] fun rows => .object [("table", .string name)] :: rows.map toJson

def toLines (db : Database) : List Json :=
  tableLines "users" (db.users.map userRows) ++
    tableLines "changesets" (db.changesets.map changesetRows) ++
    tableLines "entities" (db.entities.map EntityTable.toList) ++
    tableLines "changes" (db.changes.map ChangeLog.rows) ++
    tableLines "indexes" (some db.indexes) ++
    tableLines "schema_version" (db.migrations.map migrationRows)

def beginTable (db : Database) (name : String) : Option Database :=
  match name with
  | "users" => some { db with users := some ∅ }
  | "changesets" => some { db with changesets := some ∅ }
  | "entities" => some { db with entities := some {} }
  | "changes" => some { db with changes := some {} }
  | "indexes" => some { db with indexes := [] }
  | "schema_version" => some { db with migrations := some .empty }
  | _ => none

def addRow (db : Database) (name : String) (v : Json) : Option Database := do
  match name with
  | "users" =>
    let (id, user) : Int64 × String ← ofJson? 0 v
    return { db with users := db.users.map (·.insert id user) }
  | "changesets" =>
    let row : ChangesetRow ← ofJson? 0 v
    return { db with changesets := db.changesets.map (·.insert row.id row) }
  | "entities" =>
    let row : KeyedRow ← ofJson? 0 v
    return { db with entities := db.entities.map (·.place row) }
  | "changes" =>
    let row : ChangeRow ← ofJson? 0 v
    return { db with changes := db.changes.map (·.append row) }
  | "indexes" => return { db with indexes := db.indexes ++ [← ofJson? 0 v] }
  | "schema_version" =>
    let (number, id, checksum) : Int × String × Option String ← ofJson? 0 v
    return { db with migrations := db.migrations.map (·.add ⟨number, id, checksum⟩) }
  | _ => none

/-- Reads one more line; the name of the present table goes along. -/
def readLine (state : String × Database) (v : Json) : Option (String × Database) :=
  match v with
  | .object [("table", .string name)] => (state.2.beginTable name).map fun db => (name, db)
  | row => (state.2.addRow state.1 row).map fun db => (state.1, db)

def ofLines? (ls : List Json) : Option Database := (ls.foldlM readLine ("", empty)).map Prod.snd

def encode (db : Database) : String :=
  db.toLines.foldl (fun text line => text ++ line.compact ++ "\n") ""

def decode? (text : Stream.Bytes) : Option Database := do
  let lines ← (Stream.lines text).mapM fun line => (Stream.text? line).bind Json.parse?
  ofLines? lines

end Database

end MapAudit
