import Std.Data.ExtHashMap
import MapAudit.Store.Basic

namespace MapAudit
open Time

structure MemoryStore where
  entities : Std.ExtHashMap EntityKey Snapshot := ∅
  changesets : Std.ExtTreeMap Int64 Changeset := ∅
  /-- In the order of writing. -/
  changes : Array ChangeRecord := #[]
  users : Std.ExtTreeMap Int64 User := ∅
  existsChecks : Nat := 0
  recomputed : Array Int64 := #[]
  userWrites : Nat := 0

namespace MemoryStore

def empty : MemoryStore := {}

def insertEntity (m : MemoryStore) (s : Snapshot) : MemoryStore :=
  { m with entities := m.entities.insert s.key s }

def insertChangeset (m : MemoryStore) (c : Changeset) : MemoryStore :=
  { m with changesets := m.changesets.insert c.id c }

def putUser (m : MemoryStore) (u : User) : MemoryStore :=
  { m with users := m.users.insert u.id u, userWrites := m.userWrites + 1 }

def changesOf (m : MemoryStore) (id : Int64) : List ChangeRecord :=
  m.changes.toList.filter (·.changesetId = id)

/-- The time of the latest of the records. -/
def latest (rs : List ChangeRecord) : Option Instant :=
  rs.foldl (fun t r => Instant.laterOf t r.timestamp) none

/-- A changeset with its number of changes and its end taken from the records. -/
def recount (m : MemoryStore) (id : Int64) (c : Changeset) : Changeset :=
  let rs := m.changesOf id
  { c with numChanges := rs.length, closedAt := latest rs }

def recompute (id : Int64) : Step MemoryStore Unit := fun m =>
  let m := { m with recomputed := m.recomputed.push id }
  match m.changesets[id]? with
  | some c => .ok () { m with changesets := m.changesets.insert id (m.recount id c) }
  | none => .error (.changesetNotFound id) m

def createChangeset (c : Changeset) : Step MemoryStore Unit := fun m =>
  if m.changesets.contains c.id then
    .error
      { kind := .alreadyExists
        operation := "create_changeset"
        message := "changeset already exists"
        changesetId := c.id } m
  else
    .ok () (m.insertChangeset c)

instance : Store MemoryStore where
  lookup k := fun m => .ok m.entities[k]? m
  save s := fun m => .ok () (m.insertEntity s)
  changesetExists id := fun m =>
    .ok (m.changesets.contains id) { m with existsChecks := m.existsChecks + 1 }
  createChangeset := createChangeset
  recompute := recompute
  persist r := fun m => .ok () { m with changes := m.changes.push r }
  getUser id := fun m => .ok m.users[id]? m
  addUser u := fun m => .ok () (m.putUser u)
  updateUser u := fun m => .ok () (m.putUser u)

end MemoryStore

end MapAudit
