import Std.Data.ExtTreeMap
import MapAudit.Entity.Geometry
import MapAudit.Time.Instant

namespace MapAudit
open Time

/-- Keys are ordered by their code points, which is the order of their UTF-8 bytes. -/
abbrev Tags := Std.ExtTreeMap String String

structure User where
  id : Int64
  name : String
  deriving DecidableEq, Repr

structure Member where
  kind : EntityKind
  id : Int64
  role : String := ""
  deriving DecidableEq, Repr

/-- An entity across its versions: ids are unique among the entities of a kind. -/
structure EntityKey where
  kind : EntityKind
  id : Int64
  deriving DecidableEq, Hashable, Repr

/-- A version of an entity. One without a timestamp can be read, so that it can be refused by
name. -/
structure Snapshot where
  id : Int64
  kind : EntityKind
  version : Int64
  changesetId : Int64
  timestamp : Option Instant := none
  user : Option User := none
  tags : Tags := ∅
  geometry : Option Geometry := none
  members : List Member := []
  visible : Bool := true

namespace Snapshot

def key (s : Snapshot) : EntityKey := ⟨s.kind, s.id⟩

/-- What stays of a version once it is deleted: identity, changeset, time and author. -/
def tombstone (s : Snapshot) : Snapshot :=
  { s with tags := ∅, geometry := none, members := [], visible := false }

def label (s : Snapshot) : String := s!"{s.kind.name} {s.id}"

def shape (s : Snapshot) : Option Geometry := Geometry.normal s.kind s.geometry

def withTag (s : Snapshot) (key value : String) : Snapshot :=
  { s with tags := s.tags.insert key value }

end Snapshot

end MapAudit
