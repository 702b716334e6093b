import Mathlib.Algebra.GroupWithZero.Nat
import MapAudit.Proofs.Database.Chronicle
import MapAudit.Proofs.Database.Mirroring
import MapAudit.Proofs.Run.Session

namespace MapAudit
open Database

/-- Lists that are related element by element stay so when they are sorted alike. -/
theorem forall₂_mergeSort {α β : Type} {R : α → β → Prop} {le : α → α → Bool} {le' : β → β → Bool}
    (hle : ∀ a b a' b', R a a' → R b b' → le a b = le' a' b') {as : List α} {bs : List β}
    (h : List.Forall₂ R as bs) : List.Forall₂ R (as.mergeSort le) (bs.mergeSort le') := by
  obtain ⟨hlength, hzip⟩ := List.forall₂_iff_zip.1 h
  have hfst : (as.zip bs).map Prod.fst = as := List.map_fst_zip (Nat.le_of_eq hlength)
  have hsnd : (as.zip bs).map Prod.snd = bs := List.map_snd_zip (Nat.le_of_eq hlength.symm)
  -- The pairs are sorted by either of their sides.
  have hsort : ∀ p ∈ as.zip bs, ∀ q ∈ as.zip bs, le p.1 q.1 = le' p.2 q.2 :=
    fun p hp q hq => hle _ _ _ _ (hzip hp) (hzip hq)
  have has := List.map_mergeSort (r := fun p q : α × β => le p.1 q.1) (f := Prod.fst) (s := le)
    (l := as.zip bs) fun _ _ _ _ => rfl
  have hbs := List.map_mergeSort (r := fun p q : α × β => le p.1 q.1) (f := Prod.snd) (s := le')
    (l := as.zip bs) hsort
  rw [hfst] at has
  rw [hsnd] at hbs
  rw [← has, ← hbs, List.forall₂_map_left_iff, List.forall₂_map_right_iff, List.forall₂_same]
  exact fun p hp => hzip (List.mem_mergeSort.1 hp)

namespace ChangeRecord

/-- The records in the order of their versions. Those of one version stay in their own order. -/
structure ByVersion (rs sorted : List ChangeRecord) : Prop where
  perm : sorted.Perm rs
  rising : sorted.Pairwise fun a b => a.version ≤ b.version
  stable : ∀ v, sorted.filter (·.version = v) = rs.filter (·.version = v)

theorem byVersion_mergeSort (rs : List ChangeRecord) :
    ByVersion rs (rs.mergeSort fun a b => a.version ≤ b.version) := by
  have htrans : ∀ a b c : ChangeRecord, decide (a.version ≤ b.version) = true →
      decide (b.version ≤ c.version) = true → decide (a.version ≤ c.version) = true := by
    intro a b c hab hbc
    exact decide_eq_true (Int64.le_trans (of_decide_eq_true hab) (of_decide_eq_true hbc))
  have htotal : ∀ a b : ChangeRecord,
      (decide (a.version ≤ b.version) || decide (b.version ≤ a.version)) = true := by
    intro a b
    simpa using Int64.le_total a.version b.version
  have hperm := List.mergeSort_perm rs fun a b => decide (a.version ≤ b.version)
  refine ⟨hperm, ?_, fun v => ?_⟩
  · exact (List.pairwise_mergeSort htrans htotal rs).imp fun h => of_decide_eq_true h
  · have hsame : (rs.filter (·.version = v)).Pairwise
        fun a b => decide (a.version ≤ b.version) = true := by
      refine List.pairwise_filter.2 (List.pairwise_of_forall fun a b ha hb => ?_)
      rw [of_decide_eq_true ha, of_decide_eq_true hb]
      exact decide_eq_true (Int64.le_refl v)
    -- What is in order already is not moved, and nothing else is of this version.
    have hsub := (List.sublist_mergeSort htrans htotal hsame List.filter_sublist).filter
      (·.version = v)
    simp only [List.filter_filter, Bool.and_self] at hsub
    exact (hsub.eq_of_length (hperm.filter _).length_eq.symm).symm

end ChangeRecord

namespace Write

def recordsAbout (key : EntityKey) (ws : List Write) : List ChangeRecord :=
  (records ws).filter (·.key = key)

theorem mem_records {r : ChangeRecord} {ws : List Write} (h : r ∈ records ws) :
    .persist r ∈ ws := by
  obtain ⟨w, hw, hr⟩ := List.mem_filterMap.1 h
  cases w with
  | persist r' =>
    cases hr
    exact hw
  | _ => cases hr

end Write

section logged
variable {rs : List ChangeRecord} {rows : List ChangeRow} {r r' : ChangeRecord} {row row' : ChangeRow}

theorem Cell.same_int64 (i j : Int64) : (int64 i).same (int64 j) = decide (i = j) := by
  have hiff : i = j ↔ i.toInt ≤ j.toInt ∧ j.toInt ≤ i.toInt := by
    rw [← Int64.toInt_inj]
    omega
  unfold same
  change (decide (i.toInt ≤ j.toInt) && decide (j.toInt ≤ i.toInt)) = _
  rw [← Bool.decide_and]
  exact decide_eq_decide.2 hiff.symm

/-- The row of a record is of the entity that the record is of. -/
theorem isAbout_of_logged (h : Logged r row) (key : EntityKey) :
    decide (r.key = key) = (row.kind == key.kind.code && row.entityId.same (.int64 key.id)) := by
  obtain ⟨time, -, hrow⟩ := h
  have hkind : row.kind = r.kind.code := by rw [hrow]; rfl
  have hid : row.entityId = .int64 r.entityId := by rw [hrow]; rfl
  have hcode : (r.kind.code == key.kind.code) = decide (r.kind = key.kind) := by
    by_cases e : r.kind = key.kind
    · simp [e]
    · simpa [e] using mt EntityKind.code_injective e
  rw [hkind, hid, Cell.same_int64, hcode, ← Bool.decide_and]
  refine decide_eq_decide.2 ?_
  obtain ⟨kind, id⟩ := key
  exact EntityKey.mk.injEq .. ▸ Iff.rfl

theorem version_le_of_logged (h : Logged r row) (h' : Logged r' row') :
    decide (r.version ≤ r'.version) = row.version.le row'.version := by
  obtain ⟨_, -, hrow⟩ := h
  obtain ⟨_, -, hrow'⟩ := h'
  have hversion : row.version = .int64 r.version := by rw [hrow]; rfl
  have hversion' : row'.version = .int64 r'.version := by rw [hrow']; rfl
  rw [hversion, hversion']
  exact decide_eq_decide.2 Int64.le_iff_toInt_le

end logged

namespace Database
variable {db : Database} {rs : List ChangeRecord}

theorem changesOf_recorded (h : db.Recorded rs) (hs : ∀ r ∈ rs, r.Storable) (id : Int64) :
    db.changesOf id = .ok ((rs.filter (·.changesetId = id)).map ChangeRecord.floored) := by
  obtain ⟨log, hl, hrows⟩ := h
  rw [changesOf_eq hl]
  exact ChangeRow.toRecords_of_logged (Mirrors.filter_logged hrows id) fun r hr =>
    hs r (List.mem_of_mem_filter hr)

theorem historyOf_recorded (h : db.Recorded rs) (hs : ∀ r ∈ rs, r.Storable) (key : EntityKey) :
    ∃ sorted, ChangeRecord.ByVersion (rs.filter (·.key = key)) sorted ∧
      db.historyOf key = .ok (sorted.map ChangeRecord.floored) := by
  obtain ⟨log, hl, hrows⟩ := h
  have hfilter : List.Forall₂ Logged (rs.filter (·.key = key)) (log.rows.filter fun r =>
      r.kind == key.kind.code && r.entityId.same (.int64 key.id)) := by
    refine List.rel_filter (fun r row hrow => ?_) hrows
    dsimp only
    rw [isAbout_of_logged hrow key]
  have hsorted := forall₂_mergeSort (R := Logged) (fun _ _ _ _ => version_le_of_logged) hfilter
  refine ⟨_, ChangeRecord.byVersion_mergeSort _, ?_⟩
  rw [historyOf_eq hl]
  exact ChangeRow.toRecords_of_logged hsorted fun r hr =>
    hs r (List.mem_of_mem_filter (List.mem_mergeSort.1 hr))

theorem countChanges_recorded (h : db.Recorded rs) : db.countChanges = .ok rs.length := by
  obtain ⟨log, hl, hrows⟩ := h
  have hlength : log.newestFirst.length = rs.length := by
    rw [hrows.length_eq]
    exact List.length_reverse.symm
  unfold countChanges
  rw [table_of_some hl, Except.ok_bind, hlength]
  rfl

/-- A record that is written is of a changeset that is there, and so it stays. -/
theorem has_of_granted {rs : List ChangeRecord} {w : Write} {db' : Database}
    (h : ∀ r ∈ rs, db.Has r.changesetId) (hw : db.Granted w db') :
    ∀ r ∈ rs ++ w.record?.toList, db'.Has r.changesetId := by
  intro r hr
  rcases List.mem_append.1 hr with hr | hr
  · exact (h r hr).granted hw
  · cases hw with
    | save | createChangeset | recompute | addUser | updateUser => cases hr
    | persist ht _ _ _ href =>
      obtain rfl := List.mem_singleton.1 hr
      exact ⟨_, ht, href⟩

theorem has_of_all {ws : List Write} (h : Write.all ws Database.fresh = .ok () db) :
    ∀ r ∈ Write.records ws, db.Has r.changesetId := by
  have hnone : ∀ r ∈ ([] : List ChangeRecord), Database.fresh.Has r.changesetId :=
    List.forall_mem_nil _
  exact Write.adds_all (P := fun rs db => ∀ r ∈ rs, db.Has r.changesetId) Write.record?
    (fun _ _ _ _ hstep h => has_of_granted h (granted_of_step hstep)) h hnone

end Database

/-- Records of known changesets are all counted if they are counted by changeset. -/
theorem ChangeRecord.sum_length_filter {ids : List Int64} (hids : ids.Nodup)
    {rs : List ChangeRecord} (hrs : ∀ r ∈ rs, r.changesetId ∈ ids) :
    (ids.map fun id => (rs.filter (·.changesetId = id)).length).sum = rs.length := by
  induction ids generalizing rs with
  | nil =>
    rw [List.eq_nil_iff_forall_not_mem.2 fun r hr => List.not_mem_nil (hrs r hr)]
    rfl
  | cons id ids ih =>
    obtain ⟨hid, hids⟩ := List.nodup_cons.1 hids
    -- The records of the other changesets are found among those that are not of the first.
    have hrest : ∀ r ∈ rs.filter fun r => !decide (r.changesetId = id), r.changesetId ∈ ids := by
      intro r hr
      obtain ⟨hr, hne⟩ := List.mem_filter.1 hr
      exact (List.mem_cons.1 (hrs r hr)).resolve_left (by simpa using hne)
    have hothers := ih hids hrest
    have hsame (x : Int64) (hx : x ∈ ids) :
        ((rs.filter fun r => !decide (r.changesetId = id)).filter (·.changesetId = x)).length =
          (rs.filter (·.changesetId = x)).length := by
      rw [List.filter_filter]
      refine congrArg List.length (List.filter_congr fun r _ => ?_)
      by_cases e : r.changesetId = x
      · have hne : x ≠ id := fun hxe => hid (hxe ▸ hx)
        simp [e, hne]
      · simp [e]
    rw [List.map_congr_left hsame] at hothers
    rw [List.map_cons, List.sum_cons, hothers]
    exact (List.length_eq_length_filter_add fun r : ChangeRecord => decide (r.changesetId = id)).symm

/-- The audit log answers with what was written to it. Whatever writes were tried on a fresh database, in
whatever order, the records are those that were granted, each at the floor of its time. A changeset lists
its records in the order of writing. An entity has its records by version, those of one version in the
order of writing. All of them are counted, and the lists of all changesets together have as many. -/
theorem log_answers_with_written {ws granted : List Write} {db : Database}
    (h : Write.attempt Database.fresh ws = (granted, db))
    (hs : ∀ r, .persist r ∈ granted → r.Storable) :
    (∀ id, db.changesOf id = .ok ((Write.recordsOf id granted).map ChangeRecord.floored)) ∧
      (∀ key, ∃ sorted, ChangeRecord.ByVersion (Write.recordsAbout key granted) sorted ∧
        db.historyOf key = .ok (sorted.map ChangeRecord.floored)) ∧
      db.countChanges = .ok (Write.records granted).length ∧
      ∃ changesets lists, db.changesets = some changesets ∧
        changesets.keys.mapM db.changesOf = .ok lists ∧
        (lists.map List.length).sum = (Write.records granted).length := by
  have hall : Write.all granted Database.fresh = .ok () db := by
    have hattempt := all_attempt Database.fresh ws
    rw [h] at hattempt
    exact hattempt
  have hrecorded := recorded_of_all hall
  have hstorable : ∀ r ∈ Write.records granted, r.Storable := fun r hr =>
    hs r (Write.mem_records hr)
  have hlists := changesOf_recorded hrecorded hstorable
  obtain ⟨-, changesets, ht⟩ := tables_of_all hall
  have hids : ∀ r ∈ Write.records granted, r.changesetId ∈ changesets.keys := by
    intro r hr
    -- No record was granted without its changeset, and none is ever lost.
    obtain ⟨changesets', ht', hid⟩ := has_of_all hall r hr
    rw [ht] at ht'
    cases ht'
    exact Std.ExtTreeMap.mem_keys.2 hid
  refine ⟨hlists, historyOf_recorded hrecorded hstorable, countChanges_recorded hrecorded,
    changesets, _, ht, Except.mapM_of_ok fun id _ => hlists id, ?_⟩
  have hlength (id : Int64) : ((Write.recordsOf id granted).map ChangeRecord.floored).length =
      ((Write.records granted).filter (·.changesetId = id)).length := List.length_map _
  rw [List.map_map]
  exact (congrArg List.sum (List.map_congr_left fun id _ => hlength id)).trans
    (ChangeRecord.sum_length_filter Std.ExtTreeMap.nodup_keys hids)

def ChangeRecord.ofShortLine (version : Int64) : ChangeRecord :=
  introducing .create (.shortLine version)

theorem ChangeRecord.storable_ofShortLine (version : Int64) :
    (ofShortLine version).Storable where
  time t ht := by
    cases ht
    rfl
  previous g hg := nomatch hg
  new g hg p hp := by
    cases hg
    obtain rfl : p = ⟨1.5, 2.5⟩ := List.mem_singleton.1 hp
    exact ⟨by decide +kernel, by decide +kernel⟩

def Changeset.ofShortLine : Changeset where
  id := 500
  userId := 4
  createdAt := ⟨86400, 250000000, by decide, by decide, by decide, by decide⟩

def Write.ofShortLine : List Write :=
  [.createChangeset .ofShortLine, .persist (.ofShortLine 2), .recompute 500,
    .persist (.ofShortLine 1)]

/-- A recount and a record are refused before there is a changeset. Of the two records after it the
history has the second one first. -/
theorem log_answers_with_versions_of_line :
    ∃ db, Write.attempt Database.fresh
        (.recompute 500 :: .persist (.ofShortLine 3) :: Write.ofShortLine) =
        (Write.ofShortLine, db) ∧
      db.changesOf 500 = .ok [.ofShortLine 2, .ofShortLine 1] ∧
      db.historyOf ⟨.line, 7⟩ = .ok [.ofShortLine 1, .ofShortLine 2] ∧
      db.countChanges = .ok 2 := by
  obtain ⟨db, hattempt⟩ : ∃ db, Write.attempt Database.fresh
      (.recompute 500 :: .persist (.ofShortLine 3) :: Write.ofShortLine) =
      (Write.ofShortLine, db) := ⟨_, rfl⟩
  have hstorable : ∀ r, Write.persist r ∈ Write.ofShortLine → r.Storable := by
    intro r hr
    simp only [Write.ofShortLine, List.mem_cons, List.not_mem_nil, or_false, Write.persist.injEq,
      reduceCtorEq, false_or] at hr
    rcases hr with rfl | rfl <;> exact ChangeRecord.storable_ofShortLine _
  obtain ⟨hlist, hhistory, hcount, -⟩ := log_answers_with_written hattempt hstorable
  obtain ⟨sorted, hsorted, hhistory⟩ := hhistory ⟨.line, 7⟩
  have hperm := hsorted.perm.trans
    (List.Perm.swap (ChangeRecord.ofShortLine 1) (.ofShortLine 2) [])
  have hsorted : sorted = [.ofShortLine 1, .ofShortLine 2] := by
    refine hperm.eq_of_pairwise (fun a b ha hb hab hba => ?_) hsorted.rising (by decide)
    have hversion := Int64.le_antisymm hab hba
    rw [hperm.mem_iff] at ha
    simp only [List.mem_cons, List.not_mem_nil, or_false] at ha hb
    rcases ha with rfl | rfl <;> rcases hb with rfl | rfl
    · rfl
    · exact absurd hversion (by decide)
    · exact absurd hversion (by decide)
    · rfl
  rw [hsorted] at hhistory
  exact ⟨db, hattempt, hlist 500, hhistory, hcount⟩

end MapAudit
