import MapAudit.Change.Action
import MapAudit.Change.TagDiff

namespace MapAudit
open Time

structure ChangeRecord where
  entityId : Int64
  kind : EntityKind
  version : Int64
  changesetId : Int64
  timestamp : Option Instant
  action : Action
  tagsChanged : Bool := false
  geometryChanged : Bool := false
  membersChanged : Bool := false
  previousTags : Option Tags := none
  newTags : Option Tags := none
  previousGeometry : Option Geometry := none
  newGeometry : Option Geometry := none

namespace ChangeRecord

def key (r : ChangeRecord) : EntityKey := ⟨r.kind, r.entityId⟩

def blank (action : Action) (next : Snapshot) : ChangeRecord where
  entityId := next.id
  kind := next.kind
  version := next.version
  changesetId := next.changesetId
  timestamp := next.timestamp
  action := action

def introducing (action : Action) (next : Snapshot) : ChangeRecord :=
  { blank action next with
    tagsChanged := true
    geometryChanged := true
    membersChanged := next.kind = .relation
    newTags := some next.tags
    newGeometry := next.shape }

/-- The record of a step from one version to the next. Member lists are not compared: every step of
a relation counts as a change of its members. -/
def comparing (previous next : Snapshot) : ChangeRecord :=
  let tagsChanged := !(TagDiff.between (some previous.tags) (some next.tags)).isEqual
  let geometryChanged := previous.shape != next.shape
  { blank .modify next with
    tagsChanged
    geometryChanged
    membersChanged := next.kind = .relation
    previousTags := some previous.tags
    previousGeometry := previous.shape
    newTags := if tagsChanged then some next.tags else none
    newGeometry := if geometryChanged then next.shape else none }

/-- The record of a deletion keeps what was there, if anything is known of it. -/
def removing (previous : Option Snapshot) (next : Snapshot) : ChangeRecord :=
  { blank .delete next with
    tagsChanged := true
    geometryChanged := true
    previousTags := previous.map (·.tags)
    previousGeometry := previous.bind (·.shape) }

def build : Action → Option Snapshot → Snapshot → ChangeRecord
  | .create, _, next => introducing .create next
  | .modify, none, next => introducing .modify next
  | .modify, some previous, next => comparing previous next
  | .delete, previous, next => removing previous next

def hasChanges (r : ChangeRecord) : Bool := r.tagsChanged || r.geometryChanged || r.membersChanged

def dimensions (r : ChangeRecord) : List String :=
  (if r.tagsChanged then ["tags"] else []) ++ (if r.geometryChanged then ["geometry"] else []) ++
    (if r.membersChanged then ["members"] else [])

/-- One line for readers, such as `MODIFY Point 7 v3 (changeset 500): geometry`. -/
def summary (r : ChangeRecord) : String :=
  let detail :=
    if r.dimensions.isEmpty then if r.action = .modify then "no changes" else "-"
    else ", ".intercalate r.dimensions
  s!"{r.action.name} {r.kind.name} {r.entityId} v{r.version} (changeset {r.changesetId}): {detail}"

end ChangeRecord

/-- A logical transaction that groups changes. -/
structure Changeset where
  id : Int64
  userId : Int64
  /-- The time of the first change that was seen of it. -/
  createdAt : Instant
  /-- The time of its latest recorded change. -/
  closedAt : Option Instant := none
  /-- The number of its recorded changes, as of the last recount. -/
  numChanges : Int := 0
  deriving DecidableEq, Repr

def anonymousUserId : Int64 := -1

end MapAudit
