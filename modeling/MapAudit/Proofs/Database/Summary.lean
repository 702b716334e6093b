import MapAudit.Database.Migration
import MapAudit.Proofs.Database.Statement

namespace MapAudit
open Database

/-- The changesets and the audit log belong together, and the summaries are up to date but for the
`stale` changesets. -/
structure Summaries (changesets : Std.ExtTreeMap Int64 ChangesetRow) (log : ChangeLog)
    (stale : List Int64) : Prop where
  named : ∀ (id : Int64) (row : ChangesetRow), changesets[id]? = some row → row.id = id
  referenced : ∀ r ∈ log.rows, r.changesetId ∈ changesets
  timed : ∀ r ∈ log.rows, ∃ ms, r.millis = .integer ms
  /-- A recount would change nothing. -/
  exact : ∀ (id : Int64) (row : ChangesetRow), changesets[id]? = some row → id ∉ stale →
    recountRow log row = row

namespace Summaries
variable {changesets : Std.ExtTreeMap Int64 ChangesetRow} {log : ChangeLog} {stale : List Int64}

theorem empty : Summaries ∅ {} [] where
  named id row h := by simp at h
  referenced r h := by simp [ChangeLog.rows] at h
  timed r h := by simp [ChangeLog.rows] at h
  exact id row h := by simp at h

theorem mono {stale' : List Int64} (h : Summaries changesets log stale)
    (hs : ∀ id ∈ stale, id ∈ stale') : Summaries changesets log stale' where
  named := h.named
  referenced := h.referenced
  timed := h.timed
  exact id row hrow hid := h.exact id row hrow (mt (hs id) hid)

/-- A row may be put in under its own number. -/
theorem named_insert (h : Summaries changesets log stale) {id : Int64} {row : ChangesetRow}
    (hrow : row.id = id) (x : Int64) (c : ChangesetRow)
    (hc : (changesets.insert id row)[x]? = some c) : c.id = x := by
  rw [Std.ExtTreeMap.getElem?_insert] at hc
  split at hc
  · next e =>
    cases hc
    exact hrow.trans (Std.LawfulEqCmp.compare_eq_iff_eq.1 e)
  · exact h.named x c hc

/-- The recount of an empty summary finds no records that would change it. -/
theorem recountRow_of_new (h : Summaries changesets log stale) {c : Changeset}
    (hc : c.id ∉ changesets) (hcount : c.numChanges = 0) (hclosed : c.closedAt = none) :
    recountRow log (.ofChangeset c) = .ofChangeset c := by
  have hnone : log.rows.filter (·.changesetId = c.id) = [] := by
    rw [List.filter_eq_nil_iff]
    intro r hr e
    rw [decide_eq_true_iff] at e
    exact hc (e ▸ h.referenced r hr)
  unfold recountRow
  change { ChangesetRow.ofChangeset c with
    numChanges := .integer (log.rows.filter (·.changesetId = c.id)).length,
    closedAt := latest (log.rows.filter (·.changesetId = c.id)) } = ChangesetRow.ofChangeset c
  rw [hnone]
  simp [ChangesetRow.ofChangeset, hcount, hclosed, latest]

/-- A new changeset has no records, so its empty summary is exact. -/
theorem insert_new (h : Summaries changesets log stale) {c : Changeset} (hc : c.id ∉ changesets)
    (hcount : c.numChanges = 0) (hclosed : c.closedAt = none) :
    Summaries (changesets.insert c.id (.ofChangeset c)) log stale where
  named := h.named_insert rfl
  referenced r hr := by
    rw [Std.ExtTreeMap.mem_insert]
    exact .inr (h.referenced r hr)
  timed := h.timed
  exact id row hrow hid := by
    rw [Std.ExtTreeMap.getElem?_insert] at hrow
    split at hrow
    · cases hrow
      exact h.recountRow_of_new hc hcount hclosed
    · exact h.exact id row hrow hid

/-- A record may be written under a changeset whose summary is stale already. -/
theorem append (h : Summaries changesets log stale) {row : ChangeRow}
    (hmem : row.changesetId ∈ changesets) (hstale : row.changesetId ∈ stale)
    (hms : ∃ ms, row.millis = .integer ms) : Summaries changesets (log.append row) stale where
  named := h.named
  referenced r hr := by
    rw [ChangeLog.rows_append, List.mem_append, List.mem_singleton] at hr
    rcases hr with hr | rfl
    · exact h.referenced r hr
    · exact hmem
  timed r hr := by
    rw [ChangeLog.rows_append, List.mem_append, List.mem_singleton] at hr
    rcases hr with hr | rfl
    · exact h.timed r hr
    · exact hms
  exact id c hc hid := by
    -- Of a changeset that is not stale the row is no record, so its recount stays the same.
    have hne : row.changesetId ≠ c.id := fun e => hid (h.named id c hc ▸ e ▸ hstale)
    have hsame : (log.append row).rows.filter (·.changesetId = c.id) =
        log.rows.filter (·.changesetId = c.id) := by
      rw [ChangeLog.rows_append, List.filter_append]
      simp [hne]
    have hrow := h.exact id c hc hid
    unfold recountRow at hrow ⊢
    rw [hsame]
    exact hrow

/-- After a recount one summary less is stale. -/
theorem recount {id : Int64} {row : ChangesetRow} (h : Summaries changesets log (id :: stale))
    (hrow : changesets[id]? = some row) :
    Summaries (changesets.insert id (recountRow log row)) log stale where
  named := h.named_insert (h.named id row hrow)
  referenced r hr := by
    rw [Std.ExtTreeMap.mem_insert]
    exact .inr (h.referenced r hr)
  timed := h.timed
  exact x c hc hx := by
    rw [Std.ExtTreeMap.getElem?_insert] at hc
    split at hc
    · cases hc
      rfl
    · next e =>
      have hne : x ≠ id := fun hxe => e (Std.LawfulEqCmp.compare_eq_iff_eq.2 hxe.symm)
      refine h.exact x c hc fun hmem => ?_
      rcases List.mem_cons.1 hmem with hxe | hmem
      · exact hne hxe
      · exact hx hmem

end Summaries

theorem Cell.max_integer (i j : Int) :
    Cell.max (.integer i) (.integer j) = .integer (Max.max i j) := by
  unfold Cell.max Cell.le
  by_cases h : j ≤ i
  · rw [Int.max_eq_left h]
    simp [h]
  · rw [Int.max_eq_right (Int.le_of_lt (Int.not_le.1 h))]
    simp [h]

namespace Database

theorem foldl_max_millis {rows : List ChangeRow} {times : List Int} (i : Int)
    (h : rows.map (·.millis) = times.map .integer) :
    rows.foldl (fun t r => some (t.elim r.millis (Cell.max · r.millis))) (some (.integer i)) =
      some (.integer (times.foldl Max.max i)) := by
  induction rows generalizing times i with
  | nil =>
    obtain rfl : times = [] := by simpa using h.symm
    rfl
  | cons r rows ih =>
    cases times with
    | nil => cases h
    | cons j times =>
      rw [List.map_cons, List.map_cons, List.cons.injEq] at h
      rw [List.foldl_cons, Option.elim_some, h.1, Cell.max_integer]
      exact ih _ h.2

/-- The latest of rows with times is the greatest of the times. -/
theorem latest_eq_max? {rows : List ChangeRow} {times : List Int}
    (h : rows.map (·.millis) = times.map .integer) : latest rows = times.max?.map .integer := by
  cases rows with
  | nil =>
    obtain rfl : times = [] := by simpa using h.symm
    rfl
  | cons r rows =>
    cases times with
    | nil => cases h
    | cons i times =>
      rw [List.map_cons, List.map_cons, List.cons.injEq] at h
      unfold latest
      rw [List.foldl_cons, Option.elim_none, h.1, List.max?_cons']
      exact foldl_max_millis i h.2

end Database

theorem exists_times {rows : List ChangeRow} (h : ∀ r ∈ rows, ∃ ms, r.millis = .integer ms) :
    ∃ times : List Int, rows.map (·.millis) = times.map .integer := by
  induction rows with
  | nil => exact ⟨[], rfl⟩
  | cons r rows ih =>
    obtain ⟨ms, hms⟩ := h r List.mem_cons_self
    obtain ⟨times, htimes⟩ := ih fun x hx => h x (List.mem_cons_of_mem _ hx)
    exact ⟨ms :: times, by rw [List.map_cons, List.map_cons, hms, htimes]⟩

/-- What an exact summary says: it counts the records of its changeset and names the latest time
among them. -/
theorem Summaries.count_and_latest {changesets : Std.ExtTreeMap Int64 ChangesetRow}
    {log : ChangeLog} (h : Summaries changesets log []) {id : Int64} {row : ChangesetRow}
    (hrow : changesets[id]? = some row) :
    ∃ times : List Int,
      (log.rows.filter (·.changesetId = id)).map (·.millis) = times.map .integer ∧
      row.numChanges = .integer (log.rows.filter (·.changesetId = id)).length ∧
      row.closedAt = times.max?.map .integer := by
  have htimed : ∀ r ∈ log.rows.filter (·.changesetId = id), ∃ ms, r.millis = .integer ms :=
    fun r hr => h.timed r (List.mem_filter.1 hr).1
  obtain ⟨times, htimes⟩ := exists_times htimed
  have hexact := h.exact id row hrow List.not_mem_nil
  unfold recountRow at hexact
  rw [h.named id row hrow] at hexact
  refine ⟨times, htimes, ?_, ?_⟩
  · exact (congrArg ChangesetRow.numChanges hexact).symm
  · rw [← latest_eq_max? htimes]
    exact (congrArg ChangesetRow.closedAt hexact).symm

end MapAudit
