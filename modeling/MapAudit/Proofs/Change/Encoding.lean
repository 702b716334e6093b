import MapAudit.Change.Encoding
import MapAudit.Proofs.Entity.Encoding

namespace MapAudit
open Codec Json.Fields

theorem Action.faithful (a : Action) : Faithful a := by
  intro depth
  cases a <;> rfl

namespace Conflict

def fields (stored new : Int64) : Json.Fields :=
  ⟨false, [("existing", Codec.toJson stored), ("new", Codec.toJson new)]⟩

theorem versions?_object (stored new : Int64) :
    versions? (.object (fields stored new).given) = some (.wrongVersion stored new) := by
  have hstored : (fields stored new).required? "existing" Json.toInt64? = some stored :=
    required?_of_lookup rfl (faithful_int64 stored 0)
  have hnew : (fields stored new).required? "new" Json.toInt64? = some new :=
    required?_of_lookup rfl (faithful_int64 new 0)
  unfold versions?
  refine (Json.bind_fields?_object (fields stored new) ["existing", "new"] _
    rfl rfl (by decide)).trans ?_
  simp only [Option.bind_eq_bind, hstored, hnew, Option.bind_some, Option.pure_def]

theorem faithful (c : Conflict) : Faithful c := by
  intro depth
  cases c with
  | alreadyExists => rfl
  | doesNotExist => rfl
  | wrongVersion stored new => exact versions?_object stored new

end Conflict

def InvalidAction.fields (i : InvalidAction) : Json.Fields :=
  ⟨false,
    [("action", toJson i.action), ("entity_type", toJson i.key.kind),
      ("entity_id", toJson i.key.id), ("reason", toJson i.conflict)]⟩

theorem InvalidAction.faithful (i : InvalidAction) : Faithful i := by
  intro depth
  have haction : i.fields.required? "action" (ofJson? depth) = some i.action :=
    required?_of_lookup rfl (i.action.faithful depth)
  have hkind : i.fields.required? "entity_type" (ofJson? depth) = some i.key.kind :=
    required?_of_lookup rfl (faithful_kind i.key.kind depth)
  have hid : i.fields.required? "entity_id" (ofJson? depth) = some i.key.id :=
    required?_of_lookup rfl (faithful_int64 i.key.id depth)
  have hconflict : i.fields.required? "reason" (ofJson? depth) = some i.conflict :=
    required?_of_lookup rfl (i.conflict.faithful depth)
  refine (Json.bind_fields?_object i.fields ["action", "entity_type", "entity_id", "reason"] _
    rfl rfl (by decide)).trans ?_
  simp only [Option.bind_eq_bind, haction, hkind, hid, hconflict, Option.bind_some, Option.pure_def]

def ValueChange.fields (c : ValueChange) : Json.Fields :=
  ⟨false, [("old", toJson c.old), ("new", toJson c.new)]⟩

theorem ValueChange.faithful (c : ValueChange) : Faithful c := by
  intro depth
  have hold : c.fields.required? "old" (ofJson? depth) = some c.old :=
    required?_of_lookup rfl (faithful_string c.old depth)
  have hnew : c.fields.required? "new" (ofJson? depth) = some c.new :=
    required?_of_lookup rfl (faithful_string c.new depth)
  refine (Json.bind_fields?_object c.fields ["old", "new"] _ rfl rfl (by decide)).trans ?_
  simp only [Option.bind_eq_bind, hold, hnew, Option.bind_some, Option.pure_def]

def TagDiff.fields (d : TagDiff) : Json.Fields :=
  ⟨false,
    [("added", toJson d.added), ("removed", toJson d.removed),
      ("changed", Json.ofMap toJson d.changed)]⟩

theorem TagDiff.faithful (d : TagDiff) : Faithful d := by
  intro depth
  have hadded : d.fields.required? "added" (ofJson? depth) = some d.added :=
    required?_of_lookup rfl (Tags.faithful d.added depth)
  have hremoved : d.fields.required? "removed" (ofJson? depth) = some d.removed :=
    required?_of_lookup rfl (Tags.faithful d.removed depth)
  have hchanged : d.fields.required? "changed" (Json.toMap? (ofJson? depth)) = some d.changed :=
    required?_of_lookup rfl (Json.toMap?_ofMap (fun c => c.faithful depth) d.changed)
  refine (Json.bind_fields?_object d.fields ["added", "removed", "changed"] _
    rfl rfl (by decide)).trans ?_
  simp only [Option.bind_eq_bind, hadded, hremoved, hchanged, Option.bind_some, Option.pure_def]

namespace ChangeRecord

def fields (r : ChangeRecord) : Json.Fields :=
  ⟨false,
    [("entity_id", Codec.toJson r.entityId), ("entity_type", Codec.toJson r.kind),
      ("version", Codec.toJson r.version), ("changeset_id", Codec.toJson r.changesetId),
      ("timestamp", Json.option Codec.toJson r.timestamp), ("action", Codec.toJson r.action),
      ("tags_changed", Codec.toJson r.tagsChanged),
      ("geometry_changed", Codec.toJson r.geometryChanged),
      ("members_changed", Codec.toJson r.membersChanged),
      ("previous_tags", Json.option Codec.toJson r.previousTags),
      ("new_tags", Json.option Codec.toJson r.newTags),
      ("previous_geometry", Json.option Codec.toJson r.previousGeometry),
      ("new_geometry", Json.option Codec.toJson r.newGeometry)]⟩

/-- All coordinates of the record are read back from their texts. -/
structure Printable (r : ChangeRecord) : Prop where
  previous : ∀ g ∈ r.previousGeometry, ∀ p ∈ g.positions, p.Printable
  new : ∀ g ∈ r.newGeometry, ∀ p ∈ g.positions, p.Printable

theorem faithful {r : ChangeRecord} (h : r.Printable) : Faithful r := by
  intro depth
  have hid : r.fields.required? "entity_id" (Codec.ofJson? (depth + 1)) = some r.entityId :=
    required?_of_lookup rfl (faithful_int64 r.entityId _)
  have hkind : r.fields.required? "entity_type" (Codec.ofJson? (depth + 1)) = some r.kind :=
    required?_of_lookup rfl (faithful_kind r.kind _)
  have hversion : r.fields.required? "version" (Codec.ofJson? (depth + 1)) = some r.version :=
    required?_of_lookup rfl (faithful_int64 r.version _)
  have hchangeset : r.fields.required? "changeset_id" (Codec.ofJson? (depth + 1)) =
      some r.changesetId :=
    required?_of_lookup rfl (faithful_int64 r.changesetId _)
  have htime : r.fields.optional? "timestamp" (Codec.ofJson? (depth + 1)) = some r.timestamp :=
    optional?_of_lookup rfl (nullable?_instant r.timestamp _)
  have haction : r.fields.required? "action" (Codec.ofJson? (depth + 1)) = some r.action :=
    required?_of_lookup rfl (r.action.faithful _)
  have htagsChanged : r.fields.required? "tags_changed" (Codec.ofJson? (depth + 1)) =
      some r.tagsChanged :=
    required?_of_lookup rfl (faithful_bool r.tagsChanged _)
  have hgeometryChanged : r.fields.required? "geometry_changed" (Codec.ofJson? (depth + 1)) =
      some r.geometryChanged :=
    required?_of_lookup rfl (faithful_bool r.geometryChanged _)
  have hmembersChanged : r.fields.required? "members_changed" (Codec.ofJson? (depth + 1)) =
      some r.membersChanged :=
    required?_of_lookup rfl (faithful_bool r.membersChanged _)
  have hpreviousTags : r.fields.optional? "previous_tags" (Codec.ofJson? (depth + 1)) =
      some r.previousTags :=
    optional?_of_lookup rfl (Tags.nullable?_option r.previousTags _)
  have hnewTags : r.fields.optional? "new_tags" (Codec.ofJson? (depth + 1)) = some r.newTags :=
    optional?_of_lookup rfl (Tags.nullable?_option r.newTags _)
  have hpreviousGeometry : r.fields.optional? "previous_geometry" (Codec.ofJson? (depth + 1)) =
      some r.previousGeometry :=
    optional?_of_lookup rfl (Geometry.nullable?_option h.previous _)
  have hnewGeometry : r.fields.optional? "new_geometry" (Codec.ofJson? (depth + 1)) =
      some r.newGeometry :=
    optional?_of_lookup rfl (Geometry.nullable?_option h.new _)
  change ofJson? depth (.object r.fields.given) = some r
  unfold ofJson?
  refine (Json.bind_fields?_object r.fields fieldNames _ rfl rfl (by decide)).trans ?_
  simp only [Option.bind_eq_bind, hid, hkind, hversion, hchangeset, htime, haction, htagsChanged,
    hgeometryChanged, hmembersChanged, hpreviousTags, hnewTags, hpreviousGeometry, hnewGeometry,
    Option.bind_some, Option.pure_def]

end ChangeRecord

theorem Json.toCount?_int {n : Int} (hleast : Int64.minValue.toInt ≤ n)
    (hgreatest : n ≤ Int64.maxValue.toInt) : toCount? (.int n) = some n := by
  change ((Number.ofInt n).toInt64?).map (·.toInt) = some n
  unfold Number.toInt64?
  rw [toInt?_ofInt, Option.bind_eq_bind, Option.bind_some, if_pos ⟨hleast, hgreatest⟩,
    Option.map_some, Int64.toInt_ofInt_of_le hleast (Int.lt_add_one_of_le hgreatest)]

namespace Changeset

def fields (c : Changeset) : Json.Fields :=
  ⟨false,
    [("changeset_id", toJson c.id), ("user_id", toJson c.userId),
      ("created_at", toJson c.createdAt), ("closed_at", Json.option toJson c.closedAt),
      ("num_changes", .int c.numChanges)]⟩

structure Countable (c : Changeset) : Prop where
  least : Int64.minValue.toInt ≤ c.numChanges
  greatest : c.numChanges ≤ Int64.maxValue.toInt

theorem faithful {c : Changeset} (h : c.Countable) : Faithful c := by
  intro depth
  have hid : c.fields.required? "changeset_id" (ofJson? depth) = some c.id :=
    required?_of_lookup rfl (faithful_int64 c.id depth)
  have huser : c.fields.required? "user_id" (ofJson? depth) = some c.userId :=
    required?_of_lookup rfl (faithful_int64 c.userId depth)
  have hcreated : c.fields.required? "created_at" (ofJson? depth) = some c.createdAt :=
    required?_of_lookup rfl (faithful_instant c.createdAt depth)
  have hclosed : c.fields.optional? "closed_at" (ofJson? depth) = some c.closedAt :=
    optional?_of_lookup rfl (nullable?_instant c.closedAt depth)
  have hcount : c.fields.required? "num_changes" Json.toCount? = some c.numChanges :=
    required?_of_lookup rfl (Json.toCount?_int h.least h.greatest)
  refine (Json.bind_fields?_object c.fields
    ["changeset_id", "user_id", "created_at", "closed_at", "num_changes"] _
    rfl rfl (by decide)).trans ?_
  simp only [Option.bind_eq_bind, hid, huser, hcreated, hclosed, hcount, Option.bind_some,
    Option.pure_def]

end Changeset

end MapAudit
