import MapAudit.Change.Policy
import MapAudit.Change.Record
import MapAudit.Entity.Encoding

namespace MapAudit
open Codec

instance : Codec Action where
  toJson a := .string a.tag
  ofJson? _ v := v.toName?.bind Action.ofTag?

instance : Codec Policy where
  toJson p := .string p.name
  ofJson? _ v := v.toName?.bind Policy.ofTag?

namespace Conflict

def toJson : Conflict → Json
  | .alreadyExists => .string "AlreadyExists"
  | .doesNotExist => .string "DoesNotExist"
  | .wrongVersion stored new =>
    .object
      [("WrongVersion", .object [("existing", Codec.toJson stored), ("new", Codec.toJson new)])]

def versions? (v : Json) : Option Conflict := do
  let f ← v.fields? ["existing", "new"]
  return .wrongVersion (← f.required? "existing" Json.toInt64?) (← f.required? "new" Json.toInt64?)

def ofJson? : Json → Option Conflict
  | .object [("WrongVersion", v)] => versions? v
  | v =>
    match v.toName? with
    | some "AlreadyExists" => some .alreadyExists
    | some "DoesNotExist" => some .doesNotExist
    | _ => none

end Conflict

instance : Codec Conflict := ⟨Conflict.toJson, fun _ => Conflict.ofJson?⟩

instance : Codec InvalidAction where
  toJson i :=
    .object
      [("action", toJson i.action), ("entity_type", toJson i.key.kind),
        ("entity_id", toJson i.key.id), ("reason", toJson i.conflict)]
  ofJson? depth v := do
    let f ← v.fields? ["action", "entity_type", "entity_id", "reason"]
    let action ← f.required? "action" (ofJson? depth)
    let kind ← f.required? "entity_type" (ofJson? depth)
    let id ← f.required? "entity_id" (ofJson? depth)
    let conflict ← f.required? "reason" (ofJson? depth)
    return ⟨action, ⟨kind, id⟩, conflict⟩

instance : Codec ValueChange where
  toJson c := .object [("old", toJson c.old), ("new", toJson c.new)]
  ofJson? depth v := do
    let f ← v.fields? ["old", "new"]
    return {
      old := ← f.required? "old" (ofJson? depth)
      new := ← f.required? "new" (ofJson? depth) }

instance : Codec TagDiff where
  toJson d :=
    .object
      [("added", toJson d.added), ("removed", toJson d.removed),
        ("changed", Json.ofMap toJson d.changed)]
  ofJson? depth v := do
    let f ← v.fields? ["added", "removed", "changed"]
    return {
      added := ← f.required? "added" (ofJson? depth)
      removed := ← f.required? "removed" (ofJson? depth)
      changed := ← f.required? "changed" (Json.toMap? (ofJson? depth)) }

namespace ChangeRecord

def fieldNames : List String :=
  ["entity_id", "entity_type", "version", "changeset_id", "timestamp", "action", "tags_changed",
    "geometry_changed", "members_changed", "previous_tags", "new_tags", "previous_geometry",
    "new_geometry"]

def toJson (r : ChangeRecord) : Json :=
  .object
    [("entity_id", Codec.toJson r.entityId), ("entity_type", Codec.toJson r.kind),
      ("version", Codec.toJson r.version), ("changeset_id", Codec.toJson r.changesetId),
      ("timestamp", Json.option Codec.toJson r.timestamp), ("action", Codec.toJson r.action),
      ("tags_changed", Codec.toJson r.tagsChanged),
      ("geometry_changed", Codec.toJson r.geometryChanged),
      ("members_changed", Codec.toJson r.membersChanged),
      ("previous_tags", Json.option Codec.toJson r.previousTags),
      ("new_tags", Json.option Codec.toJson r.newTags),
      ("previous_geometry", Json.option Codec.toJson r.previousGeometry),
      ("new_geometry", Json.option Codec.toJson r.newGeometry)]

def ofJson? (depth : Nat) (v : Json) : Option ChangeRecord := do
  let f ← v.fields? fieldNames
  let inner := depth + 1
  return {
    entityId := ← f.required? "entity_id" (Codec.ofJson? inner)
    kind := ← f.required? "entity_type" (Codec.ofJson? inner)
    version := ← f.required? "version" (Codec.ofJson? inner)
    changesetId := ← f.required? "changeset_id" (Codec.ofJson? inner)
    timestamp := ← f.optional? "timestamp" (Codec.ofJson? inner)
    action := ← f.required? "action" (Codec.ofJson? inner)
    tagsChanged := ← f.required? "tags_changed" (Codec.ofJson? inner)
    geometryChanged := ← f.required? "geometry_changed" (Codec.ofJson? inner)
    membersChanged := ← f.required? "members_changed" (Codec.ofJson? inner)
    previousTags := ← f.optional? "previous_tags" (Codec.ofJson? inner)
    newTags := ← f.optional? "new_tags" (Codec.ofJson? inner)
    previousGeometry := ← f.optional? "previous_geometry" (Codec.ofJson? inner)
    newGeometry := ← f.optional? "new_geometry" (Codec.ofJson? inner) }

end ChangeRecord

instance : Codec ChangeRecord := ⟨ChangeRecord.toJson, ChangeRecord.ofJson?⟩

def Json.toCount? (v : Json) : Option Int := (v.toInt64?).map (·.toInt)

instance : Codec Changeset where
  toJson c :=
    .object
      [("changeset_id", toJson c.id), ("user_id", toJson c.userId),
        ("created_at", toJson c.createdAt), ("closed_at", Json.option toJson c.closedAt),
        ("num_changes", .int c.numChanges)]
  ofJson? depth v := do
    let f ← v.fields? ["changeset_id", "user_id", "created_at", "closed_at", "num_changes"]
    return {
      id := ← f.required? "changeset_id" (ofJson? depth)
      userId := ← f.required? "user_id" (ofJson? depth)
      createdAt := ← f.required? "created_at" (ofJson? depth)
      closedAt := ← f.optional? "closed_at" (ofJson? depth)
      numChanges := ← f.required? "num_changes" Json.toCount? }

end MapAudit
