import MapAudit.Database.Migration
import MapAudit.Database.Statement
import MapAudit.Proofs.Database.Row

namespace MapAudit

namespace ChangeLog

@[simp] theorem rows_append (l : ChangeLog) (row : ChangeRow) :
    (l.append row).rows = l.rows ++ [row] := by
  simp [rows, append]

end ChangeLog

namespace Database

namespace Choice

/-- The tables are made with these constraints. -/
theorem stated : ∀ l ∈ [kinds, actions],
    s!"    {l.column} TEXT NOT NULL CHECK ({l.condition})," ∈ Script.initialSchema.lines := by
  decide

theorem check_of_mem {l : Choice} {text : String} (h : text ∈ l.texts) : l.check text = .ok () :=
  if_pos h

/-- The letters of all kinds are listed. -/
@[simp] theorem check_code (k : EntityKind) : kinds.check k.code = .ok () :=
  check_of_mem (by cases k <;> decide)

/-- The names of all actions are listed. -/
@[simp] theorem check_name (a : Action) : actions.check a.name = .ok () :=
  check_of_mem (by cases a <;> decide)

end Choice

variable {db : Database} {users : Std.ExtTreeMap Int64 String}
  {changesets : Std.ExtTreeMap Int64 ChangesetRow} {entities : EntityTable} {log : ChangeLog}

theorem table_of_some {α : Type} {name : String} {t : Option α} {a : α} (h : t = some a) :
    table name t = .ok a := by
  rw [h]
  rfl

theorem user?_eq (h : db.users = some users) (id : Int64) :
    db.user? id = .ok (users[id]?.map fun name => ⟨id, name⟩) := by
  unfold user?
  rw [table_of_some h]
  rfl

theorem hasChangeset_eq (h : db.changesets = some changesets) (id : Int64) :
    db.hasChangeset id = .ok (changesets.contains id) := by
  unfold hasChangeset
  rw [table_of_some h]
  rfl

theorem changeset?_eq (h : db.changesets = some changesets) (id : Int64) :
    db.changeset? id = Row.optional ChangesetRow.toChangeset changesets[id]? := by
  unfold changeset?
  rw [table_of_some h]
  rfl

theorem changesOf_eq (h : db.changes = some log) (id : Int64) :
    db.changesOf id = ChangeRow.toRecords (log.rows.filter (·.changesetId = id)) := by
  unfold changesOf
  rw [table_of_some h]
  rfl

theorem historyOf_eq (h : db.changes = some log) (key : EntityKey) :
    db.historyOf key =
      ChangeRow.toRecords ((log.rows.filter fun r =>
        r.kind == key.kind.code && r.entityId.same (.int64 key.id)).mergeSort
          fun a b => a.version.le b.version) := by
  unfold historyOf
  rw [table_of_some h]
  rfl

theorem saveEntity_eq (h : db.entities = some entities) (s : Snapshot) :
    db.saveEntity s =
      if s.version < 1 then .error (.constraint "CHECK constraint failed: version >= 1")
      else .ok { db with entities := some (entities.save s.key (.ofSnapshot s)) } := by
  unfold saveEntity
  rw [table_of_some h, Choice.check_code]
  by_cases hv : s.version < 1
  · simp [hv]
  · simp [hv]

theorem addChangeset_eq (h : db.changesets = some changesets) (c : Changeset) :
    db.addChangeset c =
      if c.id ∈ changesets then
        .error (.constraint "UNIQUE constraint failed: changesets.id")
      else .ok { db with changesets := some (changesets.insert c.id (.ofChangeset c)) } := by
  unfold addChangeset
  rw [table_of_some h]
  by_cases hc : c.id ∈ changesets
  · simp [hc]
  · simp [hc]

theorem recount_eq (h : db.changesets = some changesets) (hl : db.changes = some log)
    (id : Int64) :
    db.recount id =
      match changesets[id]? with
      | some row =>
        .ok { db with changesets := some (changesets.insert id (recountRow log row)) }
      | none => .error (.changesetNotFound id) := by
  unfold recount
  rw [table_of_some h, table_of_some hl]
  simp only [Except.ok_bind]
  cases changesets[id]? <;> rfl

theorem addChange_eq (h : db.changesets = some changesets) (hl : db.changes = some log)
    (r : ChangeRecord) (time : Time.Instant) :
    db.addChange r time =
      match log.nextId? with
      | none => .error (.statement "database or disk is full")
      | some id =>
        if r.changesetId ∈ changesets then
          .ok { db with changes := some (log.append (.ofRecord id r time)) }
        else .error .brokenReference := by
  have hkind (id : Int) : Choice.kinds.check (ChangeRow.ofRecord id r time).kind = .ok () :=
    Choice.check_code r.kind
  have haction (id : Int) : Choice.actions.check (ChangeRow.ofRecord id r time).action = .ok () :=
    Choice.check_name r.action
  have hreference (id : Int) : (ChangeRow.ofRecord id r time).changesetId = r.changesetId := rfl
  unfold addChange nextChangeId checkReference
  rw [table_of_some h, table_of_some hl]
  cases hn : log.nextId? with
  | none => simp [hn]
  | some id =>
    by_cases hc : r.changesetId ∈ changesets
    · simp [hn, hkind, haction, hreference, hc]
    · simp [hn, hkind, haction, hreference, hc]

theorem addUser_eq (h : db.users = some users) (u : User) :
    db.addUser u =
      if u.id ∈ users then .error (.constraint "UNIQUE constraint failed: users.id")
      else .ok { db with users := some (users.insert u.id u.name) } := by
  unfold addUser
  rw [table_of_some h]
  by_cases hc : u.id ∈ users
  · simp [hc]
  · simp [hc]

theorem renameUser_eq (h : db.users = some users) (u : User) :
    db.renameUser u = .ok { db with users := some (users.modify u.id fun _ => u.name) } := by
  unfold renameUser
  rw [table_of_some h]
  rfl

section steps
variable {f : Database → Except Failure α} {g : Database → Except Failure Database}

theorem asking_of_ok {a : α} (h : f db = .ok a) : asking f db = .ok a db := by
  unfold asking
  rw [h]

theorem writing_of_ok {db' : Database} (h : g db = .ok db') : writing g db = .ok () db' := by
  unfold writing
  rw [h]

theorem asking_eq_ok {a : α} {db' : Database} (h : asking f db = .ok a db') :
    f db = .ok a ∧ db' = db := by
  unfold asking at h
  split at h <;> cases h
  exact ⟨by assumption, rfl⟩

theorem writing_eq_ok {u : Unit} {db' : Database} (h : writing g db = .ok u db') :
    g db = .ok db' := by
  unfold writing at h
  split at h <;> cases h
  assumption

theorem asking_eq_error {e : Failure} {db' : Database} (h : asking f db = .error e db') :
    f db = .error e := by
  unfold asking at h
  split at h <;> cases h
  assumption

theorem writing_eq_error {e : Failure} {db' : Database} (h : writing g db = .error e db') :
    g db = .error e := by
  unfold writing at h
  split at h <;> cases h
  assumption

theorem writing_error_eq {e : Failure} {db' : Database} (h : writing g db = .error e db') :
    db' = db := by
  unfold writing at h
  split at h <;> cases h
  rfl

end steps

end Database

end MapAudit
