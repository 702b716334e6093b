import MapAudit.Proofs.Changeset.Window
import MapAudit.Proofs.Database.Summary
import MapAudit.Proofs.Run.Stages
import MapAudit.Report
import MapAudit.Run.Apply

namespace MapAudit

/-- All tables are there, and no summary is out of date but for the `stale` changesets. -/
structure Database.Summarized (db : Database) (stale : List Int64) : Prop where
  users : ∃ users, db.users = some users
  entities : ∃ entities, db.entities = some entities
  audited : ∃ changesets log,
    db.changesets = some changesets ∧ db.changes = some log ∧ Summaries changesets log stale

namespace Database.Summarized
variable {db db' : Database} {stale : List Int64}

theorem fresh : Database.fresh.Summarized [] :=
  ⟨⟨∅, rfl⟩, ⟨{}, rfl⟩, ⟨∅, {}, rfl, rfl, .empty⟩⟩

theorem mono {stale' : List Int64} (h : db.Summarized stale) (hs : ∀ id ∈ stale, id ∈ stale') :
    db.Summarized stale' := by
  obtain ⟨hu, he, changesets, log, hc, hl, h⟩ := h
  exact ⟨hu, he, changesets, log, hc, hl, h.mono hs⟩

theorem withUsers (h : db.Summarized stale) (users : Std.ExtTreeMap Int64 String) :
    { db with users := some users }.Summarized stale :=
  ⟨⟨users, rfl⟩, h.entities, h.audited⟩

theorem withEntities (h : db.Summarized stale) (entities : EntityTable) :
    { db with entities := some entities }.Summarized stale :=
  ⟨h.users, ⟨entities, rfl⟩, h.audited⟩

theorem addUser (h : db.Summarized stale) {u : User} (ha : db.addUser u = .ok db') :
    db'.Summarized stale := by
  obtain ⟨users, hu⟩ := h.users
  rw [addUser_eq hu] at ha
  split at ha
  · cases ha
  · cases ha
    exact h.withUsers _

theorem renameUser (h : db.Summarized stale) {u : User} (hr : db.renameUser u = .ok db') :
    db'.Summarized stale := by
  obtain ⟨users, hu⟩ := h.users
  rw [renameUser_eq hu] at hr
  cases hr
  exact h.withUsers _

theorem saveEntity (h : db.Summarized stale) {s : Snapshot} (hs : db.saveEntity s = .ok db') :
    db'.Summarized stale := by
  obtain ⟨entities, he⟩ := h.entities
  rw [saveEntity_eq he] at hs
  split at hs
  · cases hs
  · cases hs
    exact h.withEntities _

theorem addChangeset (h : db.Summarized stale) {c : Changeset} (hcount : c.numChanges = 0)
    (hclosed : c.closedAt = none) (ha : db.addChangeset c = .ok db') : db'.Summarized stale := by
  obtain ⟨hu, he, changesets, log, hc, hl, h⟩ := h
  rw [addChangeset_eq hc] at ha
  split at ha
  · cases ha
  · next hnew =>
    cases ha
    exact ⟨hu, he, _, log, rfl, hl, h.insert_new hnew hcount hclosed⟩

theorem addChange (h : db.Summarized stale) {r : ChangeRecord} {time : Time.Instant}
    (hstale : r.changesetId ∈ stale) (ha : db.addChange r time = .ok db') :
    db'.Summarized stale := by
  obtain ⟨hu, he, changesets, log, hc, hl, h⟩ := h
  rw [addChange_eq hc hl] at ha
  split at ha
  · cases ha
  · split at ha
    · next hmem =>
      cases ha
      -- The record makes its summary stale, which it may be already.
      exact ⟨hu, he, changesets, _, hc, rfl, h.append hmem hstale ⟨_, rfl⟩⟩
    · cases ha

theorem recount {id : Int64} (h : db.Summarized (id :: stale)) (hr : db.recount id = .ok db') :
    db'.Summarized stale := by
  obtain ⟨hu, he, changesets, log, hc, hl, h⟩ := h
  rw [recount_eq hc hl] at hr
  split at hr
  · next row hrow =>
    cases hr
    exact ⟨hu, he, _, log, rfl, hl, h.recount hrow⟩
  · cases hr

end Database.Summarized

/-- In the midst of a run the summaries of the touched changesets are stale. -/
def RunState.Summarized (s : RunState Database) : Prop :=
  s.store.Summarized s.ledger.touched.toList

namespace Run
variable {s s' : RunState Database}
open Database

section enroll
variable {db db' : Database} {stale : List Int64}

theorem bringUpToDate_summarized {u : User} {write : UserWrite}
    (h : Authors.bringUpToDate u db = .ok write db') (hdb : db.Summarized stale) :
    db'.Summarized stale := by
  obtain ⟨stored, db₁, hget, h⟩ := bind_eq_ok h
  obtain ⟨-, rfl⟩ := asking_eq_ok hget
  cases stored with
  | none =>
    obtain ⟨_, db₂, hadd, h⟩ := bind_eq_ok h
    cases h
    exact hdb.addUser (writing_eq_ok hadd)
  | some stored =>
    dsimp only at h
    split at h
    · cases h
      exact hdb
    · obtain ⟨_, db₂, hrename, h⟩ := bind_eq_ok h
      cases h
      exact hdb.renameUser (writing_eq_ok hrename)

theorem ensure_author_summarized {authors : Authors} {user : Option User}
    {r : UserWrite × Authors} (h : authors.ensure user db = .ok r db')
    (hdb : db.Summarized stale) : db'.Summarized stale := by
  cases user with
  | none =>
    cases h
    exact hdb
  | some u =>
    unfold Authors.ensure at h
    dsimp only at h
    split at h
    · cases h
      exact hdb
    · obtain ⟨write, db₁, hwrite, h⟩ := bind_eq_ok h
      cases h
      exact bringUpToDate_summarized hwrite hdb

theorem ensure_changeset_summarized {ledger : Ledger} {id userId : Int64} {time : Time.Instant}
    {r : Ensured × Option Int64 × Ledger} (h : ledger.ensure id userId time db = .ok r db')
    (hdb : db.Summarized stale) :
    db'.Summarized stale ∧ r.2.2.touched = ledger.touched := by
  unfold Ledger.ensure at h
  split at h
  · cases h
    exact ⟨hdb, rfl⟩
  · obtain ⟨found, db₁, hexists, h⟩ := bind_eq_ok h
    obtain ⟨-, rfl⟩ := asking_eq_ok hexists
    cases found with
    | true =>
      cases h
      exact ⟨hdb, rfl⟩
    | false =>
      obtain ⟨_, db₂, hcreate, h⟩ := bind_eq_ok h
      cases h
      exact ⟨hdb.addChangeset rfl rfl (Except.mapError_eq_ok (writing_eq_ok hcreate)), rfl⟩

end enroll

theorem ensureAuthor_summarized {user : Option User} {u : Unit}
    (h : ensureAuthor user s = .ok u s') (hs : s.Summarized) : s'.Summarized := by
  unfold ensureAuthor at h
  obtain ⟨s₀, s₁, hget, h⟩ := bind_eq_ok h
  cases hget
  obtain ⟨⟨write, authors⟩, s₁, hensure, h⟩ := bind_eq_ok h
  cases h
  obtain ⟨db, hdb, rfl⟩ := onStore_eq_ok hensure
  exact ensure_author_summarized hdb hs

theorem ensureChangeset_summarized {next : Snapshot} {time : Time.Instant} {u : Unit}
    (h : ensureChangeset next time s = .ok u s') (hs : s.Summarized) : s'.Summarized := by
  unfold ensureChangeset at h
  obtain ⟨s₀, s₁, hget, h⟩ := bind_eq_ok h
  cases hget
  obtain ⟨⟨ensured, evicted, ledger⟩, s₁, hensure, h⟩ := bind_eq_ok h
  obtain ⟨db, hstep, rfl⟩ := onStore_eq_ok hensure
  obtain ⟨hdb, htouched⟩ := ensure_changeset_summarized hstep hs
  dsimp only at htouched
  have hnext : RunState.Summarized { s with store := db, ledger } := by
    unfold RunState.Summarized
    rw [htouched]
    exact hdb
  obtain ⟨_, s₁, hmodify, h⟩ := bind_eq_ok h
  cases hmodify
  cases evicted <;> cases h <;> exact hnext

/-- An enrolled change has its changeset touched. -/
theorem enroll_summarized {next : Snapshot} {time : Time.Instant} {previous : Option Snapshot}
    (h : enroll next time s = .ok previous s') (hs : s.Summarized) :
    s'.Summarized ∧ next.changesetId ∈ s'.ledger.touched.toList := by
  unfold enroll at h
  obtain ⟨_, s₁, hauthor, h⟩ := bind_eq_ok h
  obtain ⟨_, s₂, hchangeset, h⟩ := bind_eq_ok h
  obtain ⟨_, s₃, htouch, h⟩ := bind_eq_ok h
  cases htouch
  obtain ⟨db, hlookup, rfl⟩ := onStore_eq_ok h
  obtain ⟨-, rfl⟩ := asking_eq_ok hlookup
  have hs₂ := ensureChangeset_summarized hchangeset (ensureAuthor_summarized hauthor hs)
  -- One more summary counts as stale, before a record makes it so.
  refine ⟨Database.Summarized.mono hs₂ fun id hid => ?_, ?_⟩
  · exact IdQueue.mem_insert.2 (.inl hid)
  · exact IdQueue.mem_insert.2 (.inr rfl)

theorem record_summarized {o : Options} {action : Action} {previous : Option Snapshot}
    {next : Snapshot} {invalid : Option InvalidAction} {outcome : Outcome}
    (h : record o action previous next invalid s = .ok outcome s') (hs : s.Summarized)
    (ht : next.changesetId ∈ s.ledger.touched.toList) : s'.Summarized := by
  unfold record at h
  obtain ⟨_, s₁, hpersist, h⟩ := bind_eq_ok h
  obtain ⟨db, hstep, rfl⟩ := onStore_eq_ok hpersist
  have hdb : db.Summarized s.ledger.touched.toList := by
    obtain ⟨time, -, hadd⟩ := Except.bind_eq_ok (writing_eq_ok hstep)
    have hid : (ChangeRecord.build action previous next).changesetId = next.changesetId := by
      cases action <;> cases previous <;> rfl
    -- The record is of a touched changeset.
    exact Database.Summarized.addChange hs (hid ▸ ht) (Except.mapError_eq_ok hadd)
  split at h
  · obtain ⟨_, s₂, hsave, h⟩ := bind_eq_ok h
    cases h
    obtain ⟨db', hsaved, rfl⟩ := onStore_eq_ok hsave
    exact hdb.saveEntity (Except.mapError_eq_ok (writing_eq_ok hsaved))
  · cases h
    exact hdb

theorem process_summarized {plan : Plan} {action : Action} {next : Snapshot} {outcome : Outcome}
    (h : process plan action next s = .ok outcome s') (hs : s.Summarized) : s'.Summarized := by
  rw [process_eq] at h
  have hrun := mapFailure_eq_ok h
  split at hrun
  · cases hrun
  · obtain ⟨previous, s₁, henroll, hsettle⟩ := bind_eq_ok hrun
    obtain ⟨hs₁, ht⟩ := enroll_summarized henroll hs
    unfold settle at hsettle
    split at hsettle
    · cases hsettle
      exact hs₁
    · cases hsettle
    · next i _ =>
      refine record_summarized hsettle ?_ ?_
      · unfold RunState.Summarized
        rw [RunState.store_flagged, RunState.ledger_flagged]
        exact hs₁
      · rw [RunState.ledger_flagged]
        exact ht

theorem items_summarized {plan : Plan} {is : List Stream.Item} {u : Unit}
    (h : items plan is s = .ok u s') (hs : s.Summarized) : s'.Summarized := by
  induction is generalizing s with
  | nil =>
    cases h
    exact hs
  | cons i is ih =>
    cases i with
    | error f => cases h
    | ok c =>
      obtain ⟨outcome, s₁, hprocess, h⟩ := bind_eq_ok h
      exact ih h (process_summarized hprocess hs)

/-- The recount takes the touched changesets one after another, and in the end none is stale. -/
theorem recount_all_summarized {ids : List Int64} {db db' : Database} {u : Unit}
    (h : (ids.forM fun id => Ledger.naming id (Store.recompute id) : Step Database Unit) db =
      .ok u db') (hdb : db.Summarized ids) : db'.Summarized [] := by
  induction ids generalizing db with
  | nil =>
    cases h
    exact hdb
  | cons id ids ih =>
    obtain ⟨_, db₁, hstep, h⟩ := bind_eq_ok h
    have hrecompute : Store.recompute id db = .ok _ db₁ := Ledger.naming_eq_ok hstep
    exact ih h (hdb.recount (Except.mapError_eq_ok (writing_eq_ok hrecompute)))

theorem finalize_summarized {plan : Plan} {report : RunReport}
    (h : finalize plan s = .ok report s') (hs : s.Summarized) : s'.store.Summarized [] := by
  obtain ⟨s₀, s₁, hget, hrun⟩ := bind_eq_ok (mapFailure_eq_ok h)
  cases hget
  obtain ⟨⟨ids, ledger⟩, s₁, hfinal, hrun⟩ := bind_eq_ok hrun
  cases hrun
  obtain ⟨db, hledger, rfl⟩ := onStore_eq_ok hfinal
  obtain ⟨_, db₁, hrecount, hledger⟩ := bind_eq_ok hledger
  cases hledger
  exact recount_all_summarized hrecount hs

end Run

/-- A failed run and a dry one leave the database as it was; a committed one leaves no summary out of
date. -/
theorem Plan.apply_summarized (plan : Plan) {db : Database} (dryRun : Bool)
    (is : List Stream.Item) (hdb : db.Summarized []) :
    (plan.apply db dryRun is).store.Summarized [] := by
  unfold Plan.apply
  split
  · next report s h =>
    obtain ⟨_, s₁, hitems, hfinal⟩ := bind_eq_ok h
    have hs : s.store.Summarized [] :=
      Run.finalize_summarized hfinal (Run.items_summarized hitems hdb)
    cases dryRun
    · exact hs
    · exact hdb
  · exact hdb

/-- The database after any streams were applied, one after another. -/
def Database.afterRuns (db : Database) (runs : List (Plan × Bool × List Stream.Item)) : Database :=
  runs.foldl (fun db (plan, dryRun, is) => (plan.apply db dryRun is).store) db

theorem Database.Summarized.afterRuns {db : Database} (h : db.Summarized [])
    (runs : List (Plan × Bool × List Stream.Item)) : (db.afterRuns runs).Summarized [] := by
  induction runs generalizing db with
  | nil => exact h
  | cons run runs ih => exact ih (run.1.apply_summarized run.2.1 run.2.2 h)

namespace Database.Summarized
variable {db : Database} {changesets : Std.ExtTreeMap Int64 ChangesetRow} {log : ChangeLog}

/-- A report lists as many changes as its summary counts. -/
theorem length_changes (h : db.Summarized []) {id : Int64} {report : ChangesetReport}
    (hr : db.report? id = .ok (some report)) :
    (report.changes.length : Int) = report.changeset.numChanges := by
  obtain ⟨-, -, changesets, log, hc, hl, hs⟩ := h
  unfold report? at hr
  rw [changeset?_eq hc, changesOf_eq hl] at hr
  obtain ⟨found, hfound, hr⟩ := Except.bind_eq_ok hr
  cases found with
  | none => cases hr
  | some changeset =>
    obtain ⟨changes, hchanges, hr⟩ := Except.bind_eq_ok hr
    cases hr
    obtain ⟨row, hrow, hread⟩ := Row.optional_eq_some hfound
    obtain ⟨times, -, hcount, -⟩ := hs.count_and_latest hrow
    change (changes.length : Int) = changeset.numChanges
    rw [← ChangesetRow.numChanges_toChangeset hread hcount, ChangeRow.length_toRecords hchanges]

/-- There is no report exactly where there is no changeset. -/
theorem report?_eq_none (hc : db.changesets = some changesets) (id : Int64) :
    db.report? id = .ok none ↔ id ∉ changesets := by
  unfold report?
  rw [changeset?_eq hc, Std.ExtTreeMap.mem_iff_isSome_getElem?]
  cases hrow : changesets[id]? with
  | none => simp [Row.optional, pure, Except.pure]
  | some row =>
    simp only [Option.isSome_some, not_true_eq_false, iff_false]
    intro hr
    obtain ⟨found, hfound, hr⟩ := Except.bind_eq_ok hr
    obtain ⟨changeset, hread, rfl⟩ := Row.optional_some_eq_ok hfound
    obtain ⟨changes, -, hr⟩ := Except.bind_eq_ok hr
    cases hr

end Database.Summarized

/-- After any runs the log refers to changesets that are there, every summary counts the records of
its changeset and names their latest time, and the reports agree with both. -/
theorem summaries_exact (runs : List (Plan × Bool × List Stream.Item)) :
    ∃ changesets log,
      (Database.fresh.afterRuns runs).changesets = some changesets ∧
      (Database.fresh.afterRuns runs).changes = some log ∧
      (∀ r ∈ log.rows, r.changesetId ∈ changesets) ∧
      (∀ (id : Int64) (row : ChangesetRow), changesets[id]? = some row → row.id = id ∧
        ∃ times : List Int,
          (log.rows.filter (·.changesetId = id)).map (·.millis) = times.map .integer ∧
          row.numChanges = .integer (log.rows.filter (·.changesetId = id)).length ∧
          row.closedAt = times.max?.map .integer) ∧
      (∀ id report, (Database.fresh.afterRuns runs).report? id = .ok (some report) →
        (report.changes.length : Int) = report.changeset.numChanges) ∧
      ∀ id, (Database.fresh.afterRuns runs).report? id = .ok none ↔ id ∉ changesets := by
  have h := Database.Summarized.fresh.afterRuns runs
  obtain ⟨changesets, log, hc, hl, hs⟩ := h.audited
  refine ⟨changesets, log, hc, hl, hs.referenced, fun id row hrow => ?_, fun id report hr => ?_,
    fun id => ?_⟩
  · exact ⟨hs.named id row hrow, hs.count_and_latest hrow⟩
  · exact h.length_changes hr
  · exact Database.Summarized.report?_eq_none hc id

end MapAudit
