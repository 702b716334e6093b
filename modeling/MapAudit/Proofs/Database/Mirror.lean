import Mathlib.Data.List.Forall2
import MapAudit.Database.Migration
import MapAudit.Proofs.Database.Tables
import MapAudit.Proofs.Run.InMemory
import MapAudit.Report

namespace MapAudit
open Time

def Logged (r : ChangeRecord) (row : ChangeRow) : Prop :=
  ∃ time, r.timestamp = some time ∧ row = .ofRecord row.id r time

/-- The tables of the database hold what the store holds. -/
structure Mirrors (m : MemoryStore) (db : Database) : Prop where
  users : ∃ users, db.users = some users ∧
    ∀ id : Int64, users[id]? = m.users[id]?.map (·.name)
  changesets : ∃ changesets, db.changesets = some changesets ∧
    ∀ id : Int64, changesets[id]? = m.changesets[id]?.map .ofChangeset
  entities : ∃ entities, db.entities = some entities ∧ entities.strays = [] ∧
    ∀ key : EntityKey, entities.rows[key]? = m.entities[key]?.map .ofSnapshot
  /-- The rows are numbered from one on, in the order in which the records were written. -/
  changes : ∃ log, db.changes = some log ∧ log.Counted ∧
    log.rows.map (·.id) = (List.range log.rows.length).map (fun (i : Nat) => (i + 1 : Int)) ∧
    List.Forall₂ Logged m.changes.toList log.rows

/-- What a store in memory holds stands under its own key, can be held by rows, and names authors that
are known. -/
structure MemoryStore.WellKept (m : MemoryStore) : Prop where
  users : ∀ (id : Int64) (u : User), m.users[id]? = some u → u.id = id
  changesets : ∀ (id : Int64) (c : Changeset), m.changesets[id]? = some c → c.id = id ∧ c.Storable
  entities : ∀ (key : EntityKey) (s : Snapshot), m.entities[key]? = some s →
    s.key = key ∧ s.Storable ∧ ∀ u ∈ s.user, u.id ∈ m.users
  changes : ∀ r ∈ m.changes.toList, r.Storable

/-- A version as a database gives it back: at the floor of its time, its author as known now. -/
def MemoryStore.restored (m : MemoryStore) (s : Snapshot) : Snapshot :=
  { s with
    timestamp := s.timestamp.map Instant.floored
    user := s.user.bind fun u => m.users[u.id]? }

/-- What is read from the database is what the store holds. -/
structure Restores (db : Database) (m : MemoryStore) : Prop where
  users : ∀ id, db.user? id = .ok m.users[id]?
  changesets : ∀ id, db.changeset? id = .ok (m.changesets[id]?.map Changeset.floored)
  entities : ∀ key, db.entity? key = .ok (m.entities[key]?.map m.restored)
  /-- The whole log, in the order of writing. -/
  changes : ∃ log, db.changes = some log ∧
    ChangeRow.toRecords log.rows = .ok (m.changes.toList.map ChangeRecord.floored)

theorem Mirrors.empty : Mirrors .empty .fresh where
  users := ⟨∅, rfl, fun id => by simp [MemoryStore.empty]⟩
  changesets := ⟨∅, rfl, fun id => by simp [MemoryStore.empty]⟩
  entities := ⟨{}, rfl, rfl, fun key => by simp [MemoryStore.empty]⟩
  changes := ⟨{}, rfl, .empty, rfl, .nil⟩

theorem MemoryStore.WellKept.empty : MemoryStore.empty.WellKept where
  users id u h := by simp [MemoryStore.empty] at h
  changesets id c h := by simp [MemoryStore.empty] at h
  entities key s h := by simp [MemoryStore.empty] at h
  changes r h := by cases h

theorem ChangeRow.mapM_toRecord_of_logged {rs : List ChangeRecord} {rows : List ChangeRow}
    (h : List.Forall₂ Logged rs rows) (hs : ∀ r ∈ rs, r.Storable) :
    rows.mapM toRecord = .ok (rs.map ChangeRecord.floored) := by
  induction h with
  | nil => rfl
  | @cons r row rs rows hrow _ ih =>
    obtain ⟨time, htime, hrow⟩ := hrow
    have hread := toRecord_ofRecord row.id (hs r List.mem_cons_self) htime
    rw [← hrow] at hread
    rw [List.mapM_cons, hread, ih fun x hx => hs x (List.mem_cons_of_mem _ hx)]
    rfl

theorem ChangeRow.mapM_numbers_of_logged {rs : List ChangeRecord} {rows : List ChangeRow}
    (h : List.Forall₂ Logged rs rows) : ∃ ns, rows.mapM numbers = .ok ns := by
  induction h with
  | nil => exact ⟨[], rfl⟩
  | @cons r row rs rows hrow _ ih =>
    obtain ⟨time, -, hrow⟩ := hrow
    obtain ⟨ns, hns⟩ := ih
    have hn := numbers_ofRecord row.id r time
    rw [← hrow] at hn
    rw [List.mapM_cons, hn, hns]
    exact ⟨_, rfl⟩

theorem ChangeRow.toRecords_of_logged {rs : List ChangeRecord} {rows : List ChangeRow}
    (h : List.Forall₂ Logged rs rows) (hs : ∀ r ∈ rs, r.Storable) :
    toRecords rows = .ok (rs.map ChangeRecord.floored) := by
  obtain ⟨ns, hns⟩ := mapM_numbers_of_logged h
  unfold toRecords
  rw [hns, Except.ok_bind, mapM_toRecord_of_logged h hs]

namespace Mirrors
variable {m : MemoryStore} {db : Database}

theorem user?_eq (h : Mirrors m db) (hm : m.WellKept) (id : Int64) :
    db.user? id = .ok m.users[id]? := by
  obtain ⟨users, hdb, husers⟩ := h.users
  rw [Database.user?_eq hdb, husers]
  cases hu : m.users[id]? with
  | none => rfl
  | some u =>
    obtain rfl := hm.users id u hu
    rfl

/-- The author joined to the row of a version is the one that the store knows. -/
theorem restored_author (hm : m.WellKept) {users : Std.ExtTreeMap Int64 String}
    (husers : ∀ id : Int64, users[id]? = m.users[id]?.map (·.name)) {s : Snapshot}
    (hauthor : ∀ u ∈ s.user, u.id ∈ m.users) :
    s.restored (s.user.bind fun u => users[u.id]?) = m.restored s := by
  unfold Snapshot.restored MemoryStore.restored
  cases hu : s.user with
  | none => rfl
  | some u =>
    obtain ⟨v, hv⟩ := Option.isSome_iff_exists.1
      (Std.ExtTreeMap.mem_iff_isSome_getElem?.1 (hauthor u hu))
    have hid := hm.users u.id v hv
    have hname : (m.users[u.id]?.map (·.name)).getD "" = v.name := by
      rw [hv]
      rfl
    rw [Option.bind_some, Option.bind_some, Option.map_some, husers, hname, hv, ← hid]

theorem entity?_eq (h : Mirrors m db) (hm : m.WellKept) (key : EntityKey) :
    db.entity? key = .ok (m.entities[key]?.map m.restored) := by
  obtain ⟨users, hdb, husers⟩ := h.users
  obtain ⟨entities, hdb', hstrays, hentities⟩ := h.entities
  rw [Database.entity?_eq hdb hdb' hstrays (hentities key) fun s hs =>
    ⟨(hm.entities key s hs).1, (hm.entities key s hs).2.1⟩]
  cases hs : m.entities[key]? with
  | none => rfl
  | some s =>
    rw [Option.map_some, Option.map_some, restored_author hm husers (hm.entities key s hs).2.2]

theorem restores (h : Mirrors m db) (hm : m.WellKept) : Restores db m where
  users := h.user?_eq hm
  changesets id := by
    obtain ⟨changesets, hdb, hchangesets⟩ := h.changesets
    rw [Database.changeset?_eq hdb, hchangesets]
    cases hc : m.changesets[id]? with
    | none => rfl
    | some c =>
      change ((ChangesetRow.ofChangeset c).toChangeset).map some = _
      rw [ChangesetRow.toChangeset_ofChangeset (hm.changesets id c hc).2]
      rfl
  entities := h.entity?_eq hm
  changes := by
    obtain ⟨log, hdb, -, -, hlog⟩ := h.changes
    exact ⟨log, hdb, ChangeRow.toRecords_of_logged hlog hm.changes⟩

end Mirrors

structure Database.Readable (db : Database) : Prop where
  users : ∀ id, ∃ user, db.user? id = .ok user
  changesets : ∀ id, ∃ changeset, db.changeset? id = .ok changeset
  entities : ∀ key, ∃ version, db.entity? key = .ok version
  changes : ∀ id, ∃ records, db.changesOf id = .ok records
  histories : ∀ key, ∃ records, db.historyOf key = .ok records
  reports : ∀ id, ∃ report, db.report? id = .ok report

theorem Restores.readable {db : Database} {m : MemoryStore} (h : Restores db m) :
    db.Readable := by
  obtain ⟨log, hdb, hlog⟩ := h.changes
  have hread := ChangeRow.exists_toRecords_eq_ok.1 ⟨_, hlog⟩
  have hchanges (id : Int64) : ∃ records, db.changesOf id = .ok records := by
    rw [Database.changesOf_eq hdb]
    exact ChangeRow.exists_toRecords_eq_ok.2 fun row hrow =>
      hread row (List.mem_of_mem_filter hrow)
  refine
    { users := fun id => ⟨_, h.users id⟩
      changesets := fun id => ⟨_, h.changesets id⟩
      entities := fun key => ⟨_, h.entities key⟩
      changes := hchanges
      histories := fun key => ?_
      reports := fun id => ?_ }
  · rw [Database.historyOf_eq hdb]
    refine ChangeRow.exists_toRecords_eq_ok.2 fun row hrow => hread row ?_
    rw [List.mem_mergeSort] at hrow
    exact List.mem_of_mem_filter hrow
  · obtain ⟨records, hrecords⟩ := hchanges id
    unfold Database.report?
    rw [h.changesets, Except.ok_bind, hrecords]
    cases m.changesets[id]? with
    | none => exact ⟨_, rfl⟩
    | some c => exact ⟨_, rfl⟩

end MapAudit
