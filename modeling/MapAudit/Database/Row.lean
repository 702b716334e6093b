import MapAudit.Change.Encoding
import MapAudit.Database.Cell

namespace MapAudit
open Time

structure EntityRow where
  version : Cell
  changesetId : Cell
  millis : Option Cell
  userId : Option Cell
  visible : Cell
  tags : String
  geometry : Option String
  members : String
  deriving Repr

structure ChangeRow where
  /-- The place in the order of writing. -/
  id : Int
  kind : String
  entityId : Cell
  version : Cell
  changesetId : Int64
  millis : Cell
  action : String
  tagsChanged : Cell
  geometryChanged : Cell
  membersChanged : Cell
  previousTags : Option String
  newTags : Option String
  previousGeometry : Option String
  newGeometry : Option String
  deriving Repr

structure ChangesetRow where
  id : Int64
  userId : Cell
  createdAt : Cell
  closedAt : Option Cell
  numChanges : Cell
  deriving Repr

namespace Row

def kind (table letter : String) : Except Failure EntityKind :=
  (EntityKind.parseCode letter).mapError fun r => .corruptRow table r.message

def instant (table : String) (millis : Int) : Except Failure Instant :=
  match Instant.ofMillis? millis with
  | some t => .ok t
  | none => .error (.corruptRow table s!"timestamp out of range: {millis}")

def value [Codec α] (column text : String) : Except Failure α :=
  match Codec.decode? text with
  | some a => .ok a
  | none => .error (.column column "not an encoded value")

def optional (read : α → Except Failure β) : Option α → Except Failure (Option β)
  | none => .ok none
  | some a => (read a).map some

end Row

namespace EntityRow
open Row

def ofSnapshot (s : Snapshot) : EntityRow where
  version := .int64 s.version
  changesetId := .int64 s.changesetId
  millis := s.timestamp.map fun t => .integer t.toMillis
  userId := s.user.map fun u => .int64 u.id
  visible := .bool s.visible
  tags := Codec.encode s.tags
  geometry := s.geometry.map Codec.encode
  members := Codec.encode s.members

/-- The version that the row of an entity holds. The name of its author stands elsewhere; it is
empty if nobody knows it. -/
def toSnapshot (r : EntityRow) (key : EntityKey) (userName : Option String) :
    Except Failure Snapshot := do
  let version ← r.version.toInt64
  let changesetId ← r.changesetId.toInt64
  let millis ← optional Cell.toInt r.millis
  let userId ← optional Cell.toInt64 r.userId
  let visible ← r.visible.toBool
  -- All numbers are looked at first, so a bad one is told before a bad text.
  let timestamp ← optional (instant "entities") millis
  let tags ← value "entities.tags" r.tags
  let geometry ← optional (value "entities.geom") r.geometry
  let members ← value "entities.members" r.members
  return {
    id := key.id
    kind := key.kind
    version := version
    changesetId := changesetId
    timestamp := timestamp
    user := userId.map fun id => ⟨id, userName.getD ""⟩
    tags := tags
    geometry := geometry
    members := members
    visible := visible }

end EntityRow

structure ChangeNumbers where
  entityId : Int64
  version : Int64
  millis : Int
  tagsChanged : Bool
  geometryChanged : Bool
  membersChanged : Bool
  deriving DecidableEq, Repr

namespace ChangeRow
open Row

def ofRecord (id : Int) (r : ChangeRecord) (time : Instant) : ChangeRow where
  id := id
  kind := r.kind.code
  entityId := .int64 r.entityId
  version := .int64 r.version
  changesetId := r.changesetId
  millis := .integer time.toMillis
  action := r.action.name
  tagsChanged := .bool r.tagsChanged
  geometryChanged := .bool r.geometryChanged
  membersChanged := .bool r.membersChanged
  previousTags := r.previousTags.map Codec.encode
  newTags := r.newTags.map Codec.encode
  previousGeometry := r.previousGeometry.map Codec.encode
  newGeometry := r.newGeometry.map Codec.encode

def numbers (r : ChangeRow) : Except Failure ChangeNumbers := do
  return {
    entityId := ← r.entityId.toInt64
    version := ← r.version.toInt64
    millis := ← r.millis.toInt
    tagsChanged := ← r.tagsChanged.toBool
    geometryChanged := ← r.geometryChanged.toBool
    membersChanged := ← r.membersChanged.toBool }

def toRecord (r : ChangeRow) : Except Failure ChangeRecord := do
  let n ← r.numbers
  let action ← (Action.parse r.action).mapError fun e => .corruptRow "changes" e.message
  let kind ← Row.kind "changes" r.kind
  let time ← instant "changes" n.millis
  let previousTags ← optional (value "changes.current_tags") r.previousTags
  let newTags ← optional (value "changes.new_tags") r.newTags
  let previousGeometry ← optional (value "changes.current_geom") r.previousGeometry
  let newGeometry ← optional (value "changes.new_geom") r.newGeometry
  return {
    entityId := n.entityId
    kind := kind
    version := n.version
    changesetId := r.changesetId
    timestamp := some time
    action := action
    tagsChanged := n.tagsChanged
    geometryChanged := n.geometryChanged
    membersChanged := n.membersChanged
    previousTags := previousTags
    newTags := newTags
    previousGeometry := previousGeometry
    newGeometry := newGeometry }

/-- The records that rows hold. The numbers of all rows are looked at before any row is read. -/
def toRecords (rs : List ChangeRow) : Except Failure (List ChangeRecord) := do
  let _ ← rs.mapM numbers
  rs.mapM toRecord

end ChangeRow

namespace ChangesetRow
open Row

def ofChangeset (c : Changeset) : ChangesetRow where
  id := c.id
  userId := .int64 c.userId
  createdAt := .integer c.createdAt.toMillis
  closedAt := c.closedAt.map fun t => .integer t.toMillis
  numChanges := .integer c.numChanges

def toChangeset (r : ChangesetRow) : Except Failure Changeset := do
  let userId ← r.userId.toInt64
  let created ← r.createdAt.toInt
  let closed ← optional Cell.toInt r.closedAt
  let numChanges ← r.numChanges.toInt
  let createdAt ← instant "changesets" created
  let closedAt ← optional (instant "changesets") closed
  return {
    id := r.id
    userId := userId
    createdAt := createdAt
    closedAt := closedAt
    numChanges := numChanges }

end ChangesetRow

end MapAudit
