import MapAudit.Proofs.Time.Millis
import MapAudit.Store.Memory

namespace MapAudit
open Time

/-- Two instants of which neither is before the other are the same. -/
theorem Time.Instant.Greatest.unique {s t : Instant} {ts : List Instant} (hs : s.Greatest ts)
    (ht : t.Greatest ts) : s = t := by
  have hst := hs.not_lt t ht.mem
  have hts := ht.not_lt s hs.mem
  rw [Instant.isLT_compare_iff] at hst hts
  have hseconds : s.seconds = t.seconds := by omega
  have hnanos : s.nanos = t.nanos := by omega
  cases s
  cases t
  cases hseconds
  cases hnanos
  rfl

namespace ChangeRecord

def times (rs : List ChangeRecord) : List Instant := rs.filterMap (·.timestamp)

theorem times_cons (r : ChangeRecord) (rs : List ChangeRecord) :
    times (r :: rs) = r.timestamp.toList ++ times rs := by
  unfold times
  rw [List.filterMap_cons]
  cases r.timestamp <;> rfl

end ChangeRecord

namespace MemoryStore

theorem greatest_of_foldl {rs : List ChangeRecord} {a : Option Instant} {t : Instant}
    (h : rs.foldl (fun t r => Instant.laterOf t r.timestamp) a = some t) :
    t.Greatest (a.toList ++ ChangeRecord.times rs) := by
  induction rs generalizing a with
  | nil =>
    obtain rfl : a = some t := h
    exact .singleton t
  | cons r rs ih =>
    rw [ChangeRecord.times_cons]
    exact .of_laterOf (ih h)

/-- The latest of records has the greatest of their times. -/
theorem greatest_latest {rs : List ChangeRecord} {t : Instant} (h : latest rs = some t) :
    t.Greatest (ChangeRecord.times rs) :=
  greatest_of_foldl h

theorem exists_foldl_laterOf {rs : List ChangeRecord} (a : Instant) :
    ∃ t, rs.foldl (fun t r => Instant.laterOf t r.timestamp) (some a) = some t := by
  induction rs generalizing a with
  | nil => exact ⟨a, rfl⟩
  | cons r rs ih =>
    rw [List.foldl_cons]
    cases r.timestamp with
    | none => exact ih a
    | some b => exact ih (a.later b)

theorem exists_latest {rs : List ChangeRecord} (h : ChangeRecord.times rs ≠ []) :
    ∃ t, latest rs = some t := by
  unfold latest
  induction rs with
  | nil => exact absurd rfl h
  | cons r rs ih =>
    rw [ChangeRecord.times_cons] at h
    rw [List.foldl_cons]
    cases htime : r.timestamp with
    | none =>
      rw [htime] at h
      exact ih h
    | some t => exact exists_foldl_laterOf t

theorem latest_eq_some_iff {rs : List ChangeRecord} {t : Instant} :
    latest rs = some t ↔ t.Greatest (ChangeRecord.times rs) := by
  constructor
  · exact greatest_latest
  · intro h
    obtain ⟨s, hs⟩ := exists_latest (List.ne_nil_of_mem h.mem)
    rw [hs, (greatest_latest hs).unique h]

end MemoryStore

/-- The second changeset is the first one with the number of the records under `x`, and with the
greatest of their times for its end. -/
structure Changeset.SummedUp (c : Changeset) (x : Int64) (rs : List ChangeRecord)
    (c' : Changeset) : Prop where
  id : c'.id = c.id
  userId : c'.userId = c.userId
  createdAt : c'.createdAt = c.createdAt
  numChanges : c'.numChanges = rs.countP (·.changesetId = x)
  closedAt : ∀ t, c'.closedAt = some t ↔
    t.Greatest (ChangeRecord.times (rs.filter (·.changesetId = x)))

theorem MemoryStore.summedUp_recount (m : MemoryStore) (x : Int64) (c : Changeset) :
    c.SummedUp x m.changes.toList (m.recount x c) where
  id := rfl
  userId := rfl
  createdAt := rfl
  numChanges := by
    rw [List.countP_eq_length_filter]
    rfl
  closedAt t := latest_eq_some_iff

end MapAudit
