import MapAudit.Proofs.Database.Mirror
import MapAudit.Proofs.Database.Summary

namespace MapAudit
open Time

variable {m : MemoryStore} {db : Database}

namespace Mirrors

/-- Users may be written in both places alike. -/
theorem withUsers {m' : MemoryStore} (h : Mirrors m db) (he : m'.entities = m.entities)
    (hc : m'.changesets = m.changesets) (hr : m'.changes = m.changes)
    {users : Std.ExtTreeMap Int64 String}
    (hu : ∀ id : Int64, users[id]? = m'.users[id]?.map (·.name)) :
    Mirrors m' { db with users := some users } where
  users := ⟨users, rfl, hu⟩
  changesets := by rw [hc]; exact h.changesets
  entities := by rw [he]; exact h.entities
  changes := by rw [hr]; exact h.changes

/-- Changesets may be written in both places alike. -/
theorem withChangesets {m' : MemoryStore} (h : Mirrors m db) (he : m'.entities = m.entities)
    (hu : m'.users = m.users) (hr : m'.changes = m.changes)
    {changesets : Std.ExtTreeMap Int64 ChangesetRow}
    (hc : ∀ id : Int64, changesets[id]? = m'.changesets[id]?.map ChangesetRow.ofChangeset) :
    Mirrors m' { db with changesets := some changesets } where
  users := by rw [hu]; exact h.users
  changesets := ⟨changesets, rfl, hc⟩
  entities := by rw [he]; exact h.entities
  changes := by rw [hr]; exact h.changes

/-- Only the tables count. -/
theorem congr {m' : MemoryStore} (h : Mirrors m db) (he : m'.entities = m.entities)
    (hu : m'.users = m.users) (hc : m'.changesets = m.changesets) (hr : m'.changes = m.changes) :
    Mirrors m' db where
  users := by rw [hu]; exact h.users
  changesets := by rw [hc]; exact h.changesets
  entities := by rw [he]; exact h.entities
  changes := by rw [hr]; exact h.changes

theorem addUser (h : Mirrors m db) {u : User} (hu : m.users[u.id]? = none) :
    ∃ db', Store.addUser u db = .ok () db' ∧ Mirrors (m.putUser u) db' := by
  obtain ⟨users, hdb, husers⟩ := h.users
  have hmem : u.id ∉ users := by
    rw [Std.ExtTreeMap.mem_iff_isSome_getElem?, husers, hu]
    exact Bool.false_ne_true
  refine ⟨_, Database.writing_of_ok ((Database.addUser_eq hdb u).trans (if_neg hmem)),
    h.withUsers (by rfl) (by rfl) (by rfl) fun id => ?_⟩
  change _ = (m.users.insert u.id u)[id]?.map (·.name)
  rw [Std.ExtTreeMap.getElem?_insert, Std.ExtTreeMap.getElem?_insert, husers]
  split <;> rfl

/-- A user that is there may be renamed; elsewhere the row would be missing. -/
theorem updateUser (h : Mirrors m db) {u stored : User} (hu : m.users[u.id]? = some stored) :
    ∃ db', Store.updateUser u db = .ok () db' ∧ Mirrors (m.putUser u) db' := by
  obtain ⟨users, hdb, husers⟩ := h.users
  refine ⟨_, Database.writing_of_ok (Database.renameUser_eq hdb u),
    h.withUsers (by rfl) (by rfl) (by rfl) fun id => ?_⟩
  change _ = (m.users.insert u.id u)[id]?.map (·.name)
  rw [Std.ExtTreeMap.getElem?_insert, Std.ExtTreeMap.getElem?_modify]
  by_cases e : u.id = id
  · subst e
    simp [husers, hu]
  · simp [e, husers]

theorem bringUpToDate (h : Mirrors m db) (hm : m.WellKept) (u : User) :
    ∃ write db', Authors.bringUpToDate u db = .ok write db' ∧ Mirrors (m.withUser u) db' := by
  have hget : Store.getUser u.id db = .ok m.users[u.id]? db :=
    Database.asking_of_ok (h.user?_eq hm u.id)
  unfold Authors.bringUpToDate MemoryStore.withUser
  rw [bind_of_ok _ hget]
  cases hu : m.users[u.id]? with
  | none =>
    obtain ⟨db', hadd, h'⟩ := h.addUser hu
    exact ⟨.added, db', bind_of_ok _ hadd, h'⟩
  | some stored =>
    dsimp only
    by_cases e : stored = u
    · rw [if_pos e, if_pos (congrArg some e)]
      exact ⟨.unchanged, db, rfl, h⟩
    · obtain ⟨db', hrename, h'⟩ := h.updateUser hu
      rw [if_neg e, if_neg fun he => e (Option.some.inj he)]
      exact ⟨.updated, db', bind_of_ok _ hrename, h'⟩

theorem contains_changeset {changesets : Std.ExtTreeMap Int64 ChangesetRow}
    (h : ∀ id : Int64, changesets[id]? = m.changesets[id]?.map ChangesetRow.ofChangeset) (id : Int64) :
    changesets.contains id = m.changesets.contains id := by
  rw [← Std.ExtTreeMap.isSome_getElem?_eq_contains, h, Option.isSome_map,
    Std.ExtTreeMap.isSome_getElem?_eq_contains]

theorem changesetExists (h : Mirrors m db) (id : Int64) :
    Store.changesetExists id db = .ok (m.changesets.contains id) db := by
  obtain ⟨changesets, hdb, hchangesets⟩ := h.changesets
  refine Database.asking_of_ok ?_
  rw [Database.hasChangeset_eq hdb, ← contains_changeset hchangesets]
  rfl

theorem createChangeset (h : Mirrors m db) {c : Changeset}
    (hc : ¬m.changesets.contains c.id = true) :
    ∃ db', Store.createChangeset c db = .ok () db' ∧ Mirrors (m.insertChangeset c) db' := by
  obtain ⟨changesets, hdb, hchangesets⟩ := h.changesets
  have hmem : c.id ∉ changesets := by
    rw [← Std.ExtTreeMap.contains_iff_mem, contains_changeset hchangesets]
    exact hc
  refine ⟨{ db with changesets := some (changesets.insert c.id (.ofChangeset c)) },
    Database.writing_of_ok ?_, h.withChangesets (by rfl) (by rfl) (by rfl) fun id => ?_⟩
  · rw [Database.addChangeset_eq hdb, if_neg hmem]
    rfl
  · change _ = (m.changesets.insert c.id c)[id]?.map ChangesetRow.ofChangeset
    rw [Std.ExtTreeMap.getElem?_insert, Std.ExtTreeMap.getElem?_insert, hchangesets]
    split <;> rfl

/-- A changeset outside the window is found or created in both places alike. -/
theorem ensure (h : Mirrors m db) (l : Ledger) (id userId : Int64) (time : Instant)
    (hw : l.window.contains id = false) :
    ∃ ensured db', l.ensure id userId time db =
        .ok (ensured, (l.window.insert id).1, { l with window := (l.window.insert id).2 }) db' ∧
      Mirrors (m.withChangeset { id, userId, createdAt := time }) db' := by
  unfold Ledger.ensure MemoryStore.withChangeset
  simp only [hw, Bool.false_eq_true, if_false]
  rw [bind_of_ok _ (h.changesetExists id)]
  by_cases hc : m.changesets.contains id = true
  · refine ⟨.confirmed, db, ?_, ?_⟩
    · simp only [hc, if_true]
      rfl
    · rw [if_pos hc]
      exact h.congr rfl rfl rfl rfl
  · have h' : Mirrors { m with existsChecks := m.existsChecks + 1 } db := h.congr rfl rfl rfl rfl
    obtain ⟨db', hcreate, h''⟩ := h'.createChangeset (c := { id, userId, createdAt := time }) hc
    refine ⟨.created, db', ?_, ?_⟩
    · simp only [hc, Bool.false_eq_true, if_false]
      exact bind_of_ok _ hcreate
    · rw [if_neg hc]
      exact h''

/-- A record with a time may be written under a changeset that is there. -/
theorem persist (h : Mirrors m db) {r : ChangeRecord} {time : Instant}
    (ht : r.timestamp = some time) (hc : r.changesetId ∈ m.changesets) :
    ∃ db', Store.persist r db = .ok () db' ∧
      Mirrors { m with changes := m.changes.push r } db' := by
  obtain ⟨changesets, hdb, hchangesets⟩ := h.changesets
  obtain ⟨log, hlog, hcounted, hnumbers, hrows⟩ := h.changes
  -- The row refers to a changeset that has a row of its own.
  have hmem : r.changesetId ∈ changesets := by
    rw [← Std.ExtTreeMap.contains_iff_mem, contains_changeset hchangesets,
      Std.ExtTreeMap.contains_iff_mem]
    exact hc
  have hadd : db.addChange r time =
      .ok { db with changes := some (log.append (.ofRecord (log.rows.length + 1) r time)) } := by
    rw [Database.addChange_eq hdb hlog, hcounted.nextId?_eq]
    exact if_pos hmem
  have htime : Database.timeOf r = .ok time := by
    unfold Database.timeOf
    rw [ht]
  refine ⟨{ db with changes := some (log.append (.ofRecord (log.rows.length + 1) r time)) },
    Database.writing_of_ok ?_, ?_⟩
  · rw [htime, Except.ok_bind, hadd]
    rfl
  · refine
      { users := h.users
        changesets := h.changesets
        entities := h.entities
        changes := ⟨_, rfl, hcounted.append rfl, ?_, ?_⟩ }
    · rw [ChangeLog.rows_append, List.map_append, hnumbers, List.length_append,
        List.length_singleton, List.range_succ, List.map_append]
      rfl
    · rw [ChangeLog.rows_append, Array.toList_push]
      exact List.rel_append hrows (.cons ⟨time, ht, rfl⟩ .nil)

/-- A version from one on may be stored. -/
theorem save (h : Mirrors m db) {s : Snapshot} (hv : 1 ≤ s.version) :
    ∃ db', Store.save s db = .ok () db' ∧ Mirrors (m.insertEntity s) db' := by
  obtain ⟨entities, hdb, hstrays, hentities⟩ := h.entities
  have hsave : db.saveEntity s =
      .ok { db with entities := some (entities.save s.key (.ofSnapshot s)) } := by
    rw [Database.saveEntity_eq hdb, if_neg (Int64.not_lt.2 hv)]
  refine ⟨{ db with entities := some (entities.save s.key (.ofSnapshot s)) },
    Database.writing_of_ok ?_, ?_⟩
  · rw [hsave]
    rfl
  · refine
      { users := h.users
        changesets := h.changesets
        entities := ⟨_, rfl, (EntityTable.save_of_no_strays hstrays _ _).1, fun key => ?_⟩
        changes := h.changes }
    rw [EntityTable.getElem?_save hstrays, hentities]
    change _ = (m.entities.insert s.key s)[key]?.map EntityRow.ofSnapshot
    rw [Std.ExtHashMap.getElem?_insert]
    by_cases e : s.key = key
    · simp [e]
    · simp [e]

/-- The rows of a changeset are those of its records. -/
theorem filter_logged {rs : List ChangeRecord} {rows : List ChangeRow}
    (h : List.Forall₂ Logged rs rows) (id : Int64) :
    List.Forall₂ Logged (rs.filter (·.changesetId = id)) (rows.filter (·.changesetId = id)) := by
  refine List.rel_filter (fun r row hrow => ?_) h
  obtain ⟨time, -, hrow⟩ := hrow
  rw [hrow]
  rfl

/-- Times grow alike in the records and in the rows, from any time on. -/
theorem foldl_latest_logged {rs : List ChangeRecord} {rows : List ChangeRow}
    (h : List.Forall₂ Logged rs rows) (hs : ∀ r ∈ rs, r.Storable) (t : Option Instant)
    (ht : ∀ x ∈ t, x.isLeap = false) :
    rows.foldl (fun t r => some (t.elim r.millis (Cell.max · r.millis)))
        (t.map fun t => .integer t.toMillis) =
      (rs.foldl (fun t r => Instant.laterOf t r.timestamp) t).map
        (fun t => .integer t.toMillis) := by
  induction h generalizing t with
  | nil => rfl
  | @cons r row rs rows hrow _ ih =>
    obtain ⟨time, htime, hrow⟩ := hrow
    have hleap := (hs r List.mem_cons_self).time time htime
    have hmillis : row.millis = .integer time.toMillis := by
      rw [hrow]
      rfl
    have hrest (x : Instant) (hx : x.isLeap = false) :=
      ih (fun r hr => hs r (List.mem_cons_of_mem _ hr)) (some x) fun y hy => by
        cases hy
        exact hx
    rw [List.foldl_cons, List.foldl_cons, htime, hmillis]
    cases t with
    | none => exact hrest time hleap
    | some t =>
      -- Without leap seconds milliseconds keep the order of times.
      have ht' : t.isLeap = false := ht t rfl
      rw [Option.map_some, Option.elim_some, Cell.max_integer, ← Instant.toMillis_later ht' hleap]
      exact hrest (t.later time) (Instant.isLeap_later ht' hleap)

/-- The greatest time of the rows is that of the latest record, in milliseconds. -/
theorem latest_logged {rs : List ChangeRecord} {rows : List ChangeRow}
    (h : List.Forall₂ Logged rs rows) (hs : ∀ r ∈ rs, r.Storable) :
    Database.latest rows = (MemoryStore.latest rs).map (fun t => .integer t.toMillis) :=
  foldl_latest_logged h hs none fun x hx => by cases hx

/-- The recount of a row is the row of the recount. -/
theorem recountRow_ofChangeset {log : ChangeLog}
    (h : List.Forall₂ Logged m.changes.toList log.rows)
    (hs : ∀ r ∈ m.changes.toList, r.Storable) (c : Changeset) :
    Database.recountRow log (.ofChangeset c) = .ofChangeset (m.recount c.id c) := by
  have hfilter := filter_logged h c.id
  have hlatest := latest_logged hfilter fun r hr => hs r (List.mem_filter.1 hr).1
  have hlength : (m.changesOf c.id).length =
      (log.rows.filter (·.changesetId = c.id)).length := hfilter.length_eq
  have hid : (ChangesetRow.ofChangeset c).id = c.id := rfl
  unfold Database.recountRow
  simp only [hid, hlatest, ← hlength]
  rfl

/-- A changeset that is there may be counted again. -/
theorem recompute (h : Mirrors m db) (hm : m.WellKept) {id : Int64} (hid : id ∈ m.changesets) :
    ∃ db', Store.recompute id db = .ok () db' ∧ Mirrors (m.recounted id) db' := by
  obtain ⟨changesets, hdb, hchangesets⟩ := h.changesets
  obtain ⟨log, hlog, -, -, hrows⟩ := h.changes
  obtain ⟨c, hc⟩ := Option.isSome_iff_exists.1 (Std.ExtTreeMap.mem_iff_isSome_getElem?.1 hid)
  have hrow : changesets[id]? = some (.ofChangeset c) := by
    rw [hchangesets, hc]
    rfl
  have hcount : Database.recountRow log (.ofChangeset c) = .ofChangeset (m.recount id c) := by
    obtain rfl := (hm.changesets id c hc).1
    exact recountRow_ofChangeset hrows hm.changes c
  have hrecount : db.recount id =
      .ok { db with changesets := some (changesets.insert id (.ofChangeset (m.recount id c))) } := by
    rw [Database.recount_eq hdb hlog, hrow]
    simp only [hcount]
  refine ⟨{ db with changesets := some (changesets.insert id (.ofChangeset (m.recount id c))) },
    Database.writing_of_ok ?_, ?_⟩
  · rw [hrecount]
    rfl
  · refine h.withChangesets (by rfl) (by rfl) (by rfl) fun x => ?_
    rw [MemoryStore.changesets_recounted, Std.ExtTreeMap.getElem?_insert, hchangesets]
    by_cases e : id = x
    · subst e
      simp [hc]
    · simp [e]

end Mirrors

end MapAudit
