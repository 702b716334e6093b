import MapAudit.Proofs.Changeset.Summary
import MapAudit.Proofs.Database.Chronicle
import MapAudit.Proofs.Database.Mirroring

namespace MapAudit
open Time Database

section logged
variable {rs : List ChangeRecord} {rows : List ChangeRow}

theorem millis_of_logged (h : List.Forall₂ Logged rs rows) :
    rows.map (·.millis) = ((ChangeRecord.times rs).map Instant.toMillis).map .integer := by
  induction h with
  | nil => rfl
  | @cons r row rs rows hrow _ ih =>
    obtain ⟨time, htime, hrow⟩ := hrow
    have hmillis : row.millis = .integer time.toMillis := by
      rw [hrow]
      rfl
    rw [List.map_cons, hmillis, ih, ChangeRecord.times_cons, htime]
    rfl

/-- Records of the log have times, so there is a latest one. -/
theorem exists_latest_of_logged (h : List.Forall₂ Logged rs rows) (hne : rs ≠ []) :
    ∃ t, MemoryStore.latest rs = some t := by
  cases h with
  | nil => exact absurd rfl hne
  | cons hrow _ =>
    obtain ⟨time, htime, -⟩ := hrow
    refine MemoryStore.exists_latest ?_
    rw [ChangeRecord.times_cons, htime]
    exact List.cons_ne_nil _ _

end logged

/-- A row of numbers is read if both of its times are. -/
theorem ChangesetRow.toChangeset_of_integers (id userId : Int64) (created closed numChanges : Int) :
    toChangeset
        { id
          userId := .int64 userId
          createdAt := .integer created
          closedAt := some (.integer closed)
          numChanges := .integer numChanges } = do
      let createdAt ← Row.instant "changesets" created
      let closedAt ← Row.instant "changesets" closed
      return { id, userId, createdAt, closedAt := some closedAt, numChanges } := by
  have hclosed : Row.optional Cell.toInt (some (.integer closed)) = .ok (some closed) := rfl
  unfold toChangeset
  simp only [Row.toInt64_int64, Cell.toInt, hclosed, Except.ok_bind]
  cases Row.instant "changesets" created with
  | error f => rfl
  | ok createdAt =>
    simp only [Except.ok_bind, Row.optional]
    cases Row.instant "changesets" closed <;> rfl

namespace Database
variable {db : Database} {c : Changeset} {rs : List ChangeRecord}

/-- What a recount makes of an opened changeset, as it is read afterwards: its records are counted, and
its end is the greatest number of milliseconds among them. -/
theorem recompute_opened (ho : db.Opened c) (hr : db.Recorded rs) {last : Int}
    (hlast : ((ChangeRecord.times (rs.filter (·.changesetId = c.id))).map Instant.toMillis).max? =
      some last) :
    ∃ db', Store.recompute c.id db = .ok () db' ∧
      db'.changeset? c.id = do
        let createdAt ← Row.instant "changesets" c.createdAt.toMillis
        let closedAt ← Row.instant "changesets" last
        return some {
          id := c.id
          userId := c.userId
          createdAt := createdAt
          closedAt := some closedAt
          numChanges := (rs.filter (·.changesetId = c.id)).length } := by
  obtain ⟨changesets, row, ht, hrow, hopened⟩ := ho
  obtain ⟨log, hl, hlogged⟩ := hr
  have hfilter := Mirrors.filter_logged hlogged c.id
  have hclosed : latest (log.rows.filter (·.changesetId = c.id)) = some (.integer last) := by
    rw [latest_eq_max? (millis_of_logged hfilter), hlast]
    rfl
  have hnew : recountRow log row =
      { id := c.id
        userId := .int64 c.userId
        createdAt := .integer c.createdAt.toMillis
        closedAt := some (.integer last)
        numChanges := .integer (rs.filter (·.changesetId = c.id)).length } := by
    unfold recountRow
    dsimp only
    rw [hopened.id, hopened.userId, hopened.createdAt, hclosed, hfilter.length_eq]
  have hrecount : db.recount c.id =
      .ok { db with changesets := some (changesets.insert c.id (recountRow log row)) } := by
    rw [recount_eq ht hl, hrow]
  refine ⟨_, writing_of_ok (congrArg (Except.mapError _) hrecount), ?_⟩
  rw [changeset?_eq rfl, Std.ExtTreeMap.getElem?_insert_self, hnew]
  change Except.map some (ChangesetRow.toChangeset _) = _
  rw [ChangesetRow.toChangeset_of_integers]
  -- Reading fails of the beginning first, then of the end.
  cases Row.instant "changesets" c.createdAt.toMillis with
  | error f => rfl
  | ok createdAt => cases Row.instant "changesets" last <;> rfl

theorem exists_all_persist {m : MemoryStore} (h : Mirrors m db)
    (hrs : ∀ r ∈ rs, r.timestamp.isSome = true ∧ r.changesetId ∈ m.changesets) :
    ∃ db', Write.all (rs.map .persist) db = .ok () db' := by
  induction rs generalizing m db with
  | nil => exact ⟨db, rfl⟩
  | cons r rs ih =>
    obtain ⟨htime, hid⟩ := hrs r List.mem_cons_self
    obtain ⟨time, htime⟩ := Option.isSome_iff_exists.1 htime
    obtain ⟨db₁, hstep, h₁⟩ := h.persist htime hid
    obtain ⟨db', hall⟩ := ih h₁ fun x hx => hrs x (List.mem_cons_of_mem r hx)
    exact ⟨db', (Write.all_cons_of_ok (w := .persist r) hstep _).trans hall⟩

/-- A changeset may be opened in a fresh database, and any records with times written under it. -/
theorem exists_all_opened (c : Changeset) (rs : List ChangeRecord)
    (hrs : ∀ r ∈ rs, r.timestamp.isSome = true ∧ r.changesetId = c.id) :
    ∃ db, Write.all (.createChangeset c :: rs.map .persist) Database.fresh = .ok () db := by
  have hempty : ¬MemoryStore.empty.changesets.contains c.id = true := by
    simp [MemoryStore.empty]
  obtain ⟨db₁, hstep, h₁⟩ := Mirrors.empty.createChangeset hempty
  have hmem (r : ChangeRecord) (hr : r ∈ rs) : r.timestamp.isSome = true ∧
      r.changesetId ∈ (MemoryStore.empty.insertChangeset c).changesets := by
    obtain ⟨htime, hid⟩ := hrs r hr
    exact ⟨htime, hid ▸ Std.ExtTreeMap.mem_insert_self⟩
  obtain ⟨db, hall⟩ := exists_all_persist h₁ hmem
  exact ⟨db, (Write.all_cons_of_ok (w := .createChangeset c) hstep _).trans hall⟩

end Database

/-- When the end of a changeset is the latest change. Whatever was written to a fresh database, a
changeset that was opened and has records can be recounted, and its records have a latest time, which a
store in memory takes for the end. The changeset is then read, and with that time to the millisecond for
its end, if and only if neither its own first time nor the latest one is a leap second at the very end of
the years and no leap second among the records overtakes the latest time. -/
theorem closed_at_latest_iff {ws : List Write} {db : Database}
    (h : Write.all ws Database.fresh = .ok () db) {c : Changeset} (hc : .createChangeset c ∈ ws)
    (hne : Write.recordsOf c.id ws ≠ []) :
    ∃ t db', MemoryStore.latest (Write.recordsOf c.id ws) = some t ∧
      t.Greatest (ChangeRecord.times (Write.recordsOf c.id ws)) ∧
      Store.recompute c.id db = .ok () db' ∧
      ((∃ found u, db'.changeset? c.id = .ok (some found) ∧
          Instant.ofMillis? t.toMillis = some u ∧ found.closedAt = some u) ↔
        c.createdAt.Recoverable ∧ t.Recoverable ∧
          ∀ s ∈ ChangeRecord.times (Write.recordsOf c.id ws), ¬s.Overtakes t) := by
  have hopened := opened_of_mem h hc
  have hrecorded := recorded_of_all h
  obtain ⟨t, hlatest⟩ : ∃ t, MemoryStore.latest (Write.recordsOf c.id ws) = some t := by
    obtain ⟨log, -, hlogged⟩ := hrecorded
    exact exists_latest_of_logged (Mirrors.filter_logged hlogged c.id) hne
  have hgreatest := MemoryStore.greatest_latest hlatest
  obtain ⟨last, hlast⟩ := hgreatest.exists_max?_toMillis
  obtain ⟨db', hstep, hread⟩ := recompute_opened hopened hrecorded hlast
  refine ⟨t, db', hlatest, hgreatest, hstep, ?_⟩
  rw [hread, ← hgreatest.max?_toMillis_eq_iff hlast]
  constructor
  · rintro ⟨found, u, hfound, hu, hclosed⟩
    obtain ⟨createdAt, hcreated, hfound⟩ := Except.bind_eq_ok hfound
    obtain ⟨closedAt, hclosedAt, hfound⟩ := Except.bind_eq_ok hfound
    cases hfound
    cases hclosed
    -- The same instant was read from both numbers of milliseconds.
    have hlast' := Instant.toMillis_of_ofMillis? (Row.instant_eq_ok.1 hclosedAt)
    exact ⟨Instant.exists_ofMillis?_toMillis.1 ⟨_, Row.instant_eq_ok.1 hcreated⟩,
      Instant.exists_ofMillis?_toMillis.1 ⟨_, hu⟩,
      hlast'.symm.trans (Instant.toMillis_of_ofMillis? hu)⟩
  · rintro ⟨hcreated, hrecoverable, rfl⟩
    obtain ⟨createdAt, hcreated⟩ := Instant.exists_ofMillis?_toMillis.2 hcreated
    obtain ⟨u, hu⟩ := Instant.exists_ofMillis?_toMillis.2 hrecoverable
    rw [Row.instant_eq_ok.2 hcreated, Row.instant_eq_ok.2 hu]
    exact ⟨_, u, rfl, hu, rfl⟩

/-- Six tenths of a second into the leap second at the end of 2016. -/
def Time.Instant.yearEndLeap : Instant :=
  ⟨1483228799, 1600000000, by decide, by decide, by decide, by decide⟩

def Time.Instant.newYear : Instant :=
  ⟨1483228800, 200000000, by decide, by decide, by decide, by decide⟩

/-- Six tenths of a second into 2017, which has the milliseconds of `yearEndLeap`. -/
def Time.Instant.newYearSpilled : Instant :=
  ⟨1483228800, 600000000, by decide, by decide, by decide, by decide⟩

def Changeset.yearEnd : Changeset where
  id := 5
  userId := 1
  createdAt := ⟨1483228799, 900000000, by decide, by decide, by decide, by decide⟩

def ChangeRecord.leapCreate : ChangeRecord where
  entityId := 7
  kind := .line
  version := 1
  changesetId := 5
  timestamp := some .yearEndLeap
  action := .create
  tagsChanged := true
  geometryChanged := true
  membersChanged := false
  previousTags := none
  newTags := some ∅
  previousGeometry := none
  newGeometry := none

def ChangeRecord.newYearModify : ChangeRecord where
  entityId := 7
  kind := .line
  version := 2
  changesetId := 5
  timestamp := some .newYear
  action := .modify
  tagsChanged := false
  geometryChanged := false
  membersChanged := false
  previousTags := some ∅
  newTags := none
  previousGeometry := none
  newGeometry := none

/-- Without a leap second a changeset ends with its latest change. -/
theorem closed_at_new_year :
    ∃ db db' found,
      Write.all [.createChangeset .yearEnd, .persist .newYearModify] Database.fresh = .ok () db ∧
      Store.recompute 5 db = .ok () db' ∧
      db'.changeset? 5 = .ok (some found) ∧ found.closedAt = some .newYear := by
  obtain ⟨db, hall⟩ := exists_all_opened .yearEnd [.newYearModify] (by decide)
  have hopen : .createChangeset .yearEnd ∈
      ([.createChangeset .yearEnd, .persist .newYearModify] : List Write) := List.mem_cons_self
  obtain ⟨t, db', hlatest, -, hstep, hiff⟩ := closed_at_latest_iff hall hopen (List.cons_ne_nil _ _)
  obtain rfl : .newYear = t := Option.some.inj hlatest
  obtain ⟨found, u, hread, hu, hclosed⟩ := hiff.2 ⟨by decide, by decide, by decide⟩
  have hnewYear : Instant.ofMillis? Instant.newYear.toMillis = some .newYear := by decide
  rw [hnewYear] at hu
  exact ⟨db, db', found, hall, hstep, hread, hclosed.trans hu.symm⟩

/-- A leap second overtakes the change of the new year. The changeset ends six tenths of a second into the
year, though its latest change is of an earlier time, which a store in memory takes for the end. -/
theorem closed_at_of_leap_second :
    ∃ db db' found,
      Write.all [.createChangeset .yearEnd, .persist .leapCreate, .persist .newYearModify]
        Database.fresh = .ok () db ∧
      Instant.newYear.Greatest
        (ChangeRecord.times [ChangeRecord.leapCreate, ChangeRecord.newYearModify]) ∧
      MemoryStore.latest [.leapCreate, .newYearModify] = some .newYear ∧
      Instant.ofMillis? Instant.newYear.toMillis = some .newYear ∧
      Store.recompute 5 db = .ok () db' ∧
      db'.changeset? 5 = .ok (some found) ∧
      found.closedAt = some .newYearSpilled ∧
      found.closedAt ≠ Instant.ofMillis? Instant.newYear.toMillis := by
  obtain ⟨db, hall⟩ := exists_all_opened .yearEnd [.leapCreate, .newYearModify] (by decide)
  have hopened := opened_of_mem hall List.mem_cons_self
  have hlast : ((ChangeRecord.times
      ([ChangeRecord.leapCreate, .newYearModify].filter (·.changesetId = 5))).map
        Instant.toMillis).max? = some Instant.newYearSpilled.toMillis := by decide
  obtain ⟨db', hstep, hread⟩ := recompute_opened hopened (recorded_of_all hall) hlast
  have hlatest : MemoryStore.latest [.leapCreate, .newYearModify] = some .newYear := by decide
  have hcreated : Row.instant "changesets" Changeset.yearEnd.createdAt.toMillis =
      .ok Changeset.yearEnd.createdAt := Row.instant_eq_ok.2 (by decide)
  have hclosed : Row.instant "changesets" Instant.newYearSpilled.toMillis = .ok .newYearSpilled :=
    Row.instant_eq_ok.2 (by decide)
  rw [hcreated, hclosed] at hread
  exact ⟨db, db', _, hall, MemoryStore.greatest_latest hlatest, hlatest, by decide, hstep, hread,
    rfl, by decide⟩

end MapAudit
