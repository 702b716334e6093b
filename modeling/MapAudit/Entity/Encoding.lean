import MapAudit.Entity.Snapshot
import MapAudit.Json.Codec
import MapAudit.Json.Float
import MapAudit.Json.Magnitude

namespace MapAudit
open Codec

instance : Codec EntityKind where
  toJson k := .string k.tag
  ofJson? _ v := v.toName?.bind EntityKind.ofTag?

namespace Position

/-- A coordinate; one that is not finite has no literal. -/
def axis (x : Float) : Json := (Json.Number.ofFloat? x).elim .null .number

def axis? : Json → Option Float
  | .number n => n.toFloat?
  | _ => none

def names : List String := ["lon", "lat"]

def toJson (p : Position) : Json := .object [("lon", axis p.lon), ("lat", axis p.lat)]

def ofJson? (v : Json) : Option Position := do
  let f ← v.fields? names
  return { lon := ← f.required? "lon" axis?, lat := ← f.required? "lat" axis? }

end Position

instance : Codec Position := ⟨Position.toJson, fun _ => Position.ofJson?⟩

mutual

/-- A value that can be set aside before it is known what it stands for: it nests at most `room`
levels deep, its numbers are finite and its strings spell texts. -/
def Json.canWait (room : Nat) : Json → Bool
  | .null | .bool _ | .string _ => true
  | .unpaired => false
  | .number n => n.toFloat?.isSome
  | .array items => 0 < room && itemsCanWait (room - 1) items
  | .object members => 0 < room && membersCanWait (room - 1) members

def Json.itemsCanWait (room : Nat) : List Json → Bool
  | [] => true
  | v :: vs => canWait room v && itemsCanWait room vs

def Json.membersCanWait (room : Nat) : List (String × Json) → Bool
  | [] => true
  | (_, v) :: ms => canWait room v && membersCanWait room ms

end

namespace Geometry

/-- The levels of nesting, counted from the outside of the text, up to which coordinates are read
before their type is known. -/
def nestingLimit : Nat := 127

def toJson : Geometry → Json
  | .point p => .object [("type", .string "Point"), ("coordinates", Codec.toJson p)]
  | .line ps => .object [("type", .string "LineString"), ("coordinates", Codec.toJson ps)]

def ofParts? (type coordinates : Json) : Option Geometry := do
  match ← type.toName? with
  | "Point" => (Codec.ofJson? 0 coordinates).map point
  | "LineString" => (Codec.ofJson? 0 coordinates).map line
  | _ => none

/-- The two parts come in either order; other members are passed over. -/
def ofJson? (depth : Nat) : Json → Option Geometry
  | .object members =>
    match Json.known ["type", "coordinates"] members with
    | [("type", t), ("coordinates", c)] => ofParts? t c
    | [("coordinates", c), ("type", t)] =>
      if c.canWait (nestingLimit - (depth + 1)) then ofParts? t c else none
    | _ => none
  | .array [t, c] => ofParts? t c
  | _ => none

end Geometry

instance : Codec Geometry := ⟨Geometry.toJson, Geometry.ofJson?⟩

namespace Json

/-- An object of texts; of equal keys the last one counts. -/
def toMap? (read : Json → Option α) : Json → Option (Std.ExtTreeMap String α)
  | .object members => do
    let entries ← members.mapM fun (k, v) => (read v).map (k, ·)
    return entries.foldl (fun m (k, v) => m.insert k v) ∅
  | _ => none

def ofMap (write : α → Json) (m : Std.ExtTreeMap String α) : Json :=
  .object (m.toList.map fun (k, v) => (k, write v))

end Json

instance : Codec Tags := ⟨Json.ofMap .string, fun _ => Json.toMap? Json.toText?⟩

instance : Codec User where
  toJson u := .object [("id", toJson u.id), ("name", toJson u.name)]
  ofJson? depth v := do
    let f ← v.fields? ["id", "name"]
    return {
      id := ← f.required? "id" (ofJson? depth)
      name := ← f.required? "name" (ofJson? depth) }

instance : Codec Member where
  toJson m :=
    .object [("member_type", toJson m.kind), ("member_id", toJson m.id), ("role", toJson m.role)]
  ofJson? depth v := do
    let f ← v.fields? ["member_type", "member_id", "role"]
    return {
      kind := ← f.required? "member_type" (ofJson? depth)
      id := ← f.required? "member_id" (ofJson? depth)
      role := ← f.withDefault? "role" "" (ofJson? depth) }

namespace Snapshot

def fieldNames : List String :=
  ["entity_id", "entity_type", "version", "changeset_id", "timestamp", "user", "tags", "geometry",
    "members", "visible"]

def toJson (s : Snapshot) : Json :=
  .object
    [("entity_id", Codec.toJson s.id), ("entity_type", Codec.toJson s.kind),
      ("version", Codec.toJson s.version), ("changeset_id", Codec.toJson s.changesetId),
      ("timestamp", Json.option Codec.toJson s.timestamp),
      ("user", Json.option Codec.toJson s.user), ("tags", Codec.toJson s.tags),
      ("geometry", Json.option Codec.toJson s.geometry), ("members", Codec.toJson s.members),
      ("visible", Codec.toJson s.visible)]

def ofJson? (depth : Nat) (v : Json) : Option Snapshot := do
  let f ← v.fields? fieldNames
  let inner := depth + 1
  return {
    id := ← f.required? "entity_id" (Codec.ofJson? inner)
    kind := ← f.required? "entity_type" (Codec.ofJson? inner)
    version := ← f.required? "version" (Codec.ofJson? inner)
    changesetId := ← f.required? "changeset_id" (Codec.ofJson? inner)
    timestamp := ← f.withDefault? "timestamp" none (Json.nullable? (Codec.ofJson? inner))
    user := ← f.withDefault? "user" none (Json.nullable? (Codec.ofJson? inner))
    tags := ← f.withDefault? "tags" ∅ (Codec.ofJson? inner)
    geometry := ← f.withDefault? "geometry" none (Json.nullable? (Codec.ofJson? inner))
    members := ← f.withDefault? "members" [] (Codec.ofJson? inner)
    visible := ← f.withDefault? "visible" true (Codec.ofJson? inner) }

end Snapshot

instance : Codec Snapshot := ⟨Snapshot.toJson, Snapshot.ofJson?⟩

end MapAudit
