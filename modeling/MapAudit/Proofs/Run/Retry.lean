import MapAudit.Proofs.Changeset.Summary
import MapAudit.Proofs.Run.Replay

namespace MapAudit

namespace MemoryStore

def insertChangesets (m : MemoryStore) (cs : List Changeset) : MemoryStore :=
  cs.foldl insertChangeset m

/-- Some changesets were counted again, then one was not found. -/
def stoppedAt (m : MemoryStore) (before : List Int64) (id : Int64) : MemoryStore :=
  { m.recountedAll before with recomputed := (m.recountedAll before).recomputed.push id }

/-- The changesets of these ids are summed up from the records, and nothing else has changed. -/
structure SumsUp (m : MemoryStore) (ids : List Int64) (m' : MemoryStore) : Prop where
  entities : m'.entities = m.entities
  changes : m'.changes = m.changes
  users : m'.users = m.users
  summed : ∀ x ∈ ids, ∃ c c', m.changesets[x]? = some c ∧ m'.changesets[x]? = some c' ∧
    c.SummedUp x m.changes.toList c'
  others : ∀ x, x ∉ ids → m'.changesets[x]? = m.changesets[x]?

variable {m m' : MemoryStore} {ids before : List Int64} {id x : Int64}

theorem sumsUp_recountedAll (h : ∀ x ∈ ids, x ∈ m.changesets) :
    m.SumsUp ids (m.recountedAll ids) where
  entities := m.entities_recountedAll ids
  changes := m.changes_recountedAll ids
  users := m.users_recountedAll ids
  summed x hx := by
    obtain ⟨c, hc⟩ := Option.isSome_iff_exists.1
      (Std.ExtTreeMap.mem_iff_isSome_getElem?.1 (h x hx))
    have hrecounted : (m.recountedAll ids).changesets[x]? = some (m.recount x c) := by
      rw [changesets_recountedAll, if_pos hx, hc]
      rfl
    exact ⟨c, m.recount x c, hc, hrecounted, m.summedUp_recount x c⟩
  others x hx := by rw [changesets_recountedAll, if_neg hx]

/-- A recount that stops has summed up what it came by. -/
theorem sumsUp_stoppedAt (h : ∀ x ∈ before, x ∈ m.changesets) (id : Int64) :
    m.SumsUp before (m.stoppedAt before id) :=
  have hall := sumsUp_recountedAll h
  ⟨hall.entities, hall.changes, hall.users, hall.summed, hall.others⟩

theorem mem_changesets_insertChangeset {c : Changeset} :
    x ∈ (m.insertChangeset c).changesets ↔ x ∈ m.changesets ∨ c.id = x := by
  rw [Std.ExtTreeMap.mem_iff_isSome_getElem?, Std.ExtTreeMap.mem_iff_isSome_getElem?,
    changesets_insertChangeset]
  by_cases e : c.id = x <;> simp [e]

theorem mem_changesets_insertChangesets {cs : List Changeset} :
    x ∈ (m.insertChangesets cs).changesets ↔ x ∈ m.changesets ∨ ∃ c ∈ cs, c.id = x := by
  induction cs generalizing m with
  | nil => simp [insertChangesets]
  | cons c cs ih =>
    change x ∈ ((m.insertChangeset c).insertChangesets cs).changesets ↔ _
    rw [ih, mem_changesets_insertChangeset, List.exists_mem_cons_iff, or_assoc]

/-- A recount that ends in the same tables still does so when a changeset is put in first. -/
theorem sameTables_recountedAll_insertChangeset
    (h : (m.recountedAll ids).SameTables (m'.recountedAll ids)) (c : Changeset) :
    ((m.insertChangeset c).recountedAll ids).SameTables
      ((m'.insertChangeset c).recountedAll ids) where
  entities := by simpa [insertChangeset] using h.entities
  changes := by simpa [insertChangeset] using h.changes
  users := by simpa [insertChangeset] using h.users
  changesets := by
    have hchanges : m.changes = m'.changes := by simpa using h.changes
    apply Std.ExtTreeMap.ext_getElem?
    intro x
    have hx : (m.recountedAll ids).changesets[x]? = (m'.recountedAll ids).changesets[x]? := by
      rw [h.changesets]
    rw [changesets_recountedAll, changesets_recountedAll] at hx ⊢
    rw [changesets_insertChangeset, changesets_insertChangeset,
      recount_congr (show (m.insertChangeset c).changes = m.changes from rfl),
      recount_congr (show (m'.insertChangeset c).changes = m'.changes from rfl)]
    by_cases e : c.id = x
    · rw [if_pos e, if_pos e, recount_congr hchanges]
    · rw [if_neg e, if_neg e]
      exact hx

theorem sameTables_recountedAll_insertChangesets
    (h : (m.recountedAll ids).SameTables (m'.recountedAll ids)) (cs : List Changeset) :
    ((m.insertChangesets cs).recountedAll ids).SameTables
      ((m'.insertChangesets cs).recountedAll ids) := by
  induction cs generalizing m m' with
  | nil => exact h
  | cons c cs ih => exact ih (sameTables_recountedAll_insertChangeset h c)

theorem changesets_stoppedAt (m : MemoryStore) (before : List Int64) (id x : Int64) :
    (m.stoppedAt before id).changesets[x]? =
      if x ∈ before then m.changesets[x]?.map (m.recount x) else m.changesets[x]? :=
  m.changesets_recountedAll before x

theorem mem_changesets_stoppedAt :
    x ∈ (m.stoppedAt before id).changesets ↔ x ∈ m.changesets :=
  mem_changesets_recountedAll

/-- What was counted before a recount stopped makes no difference to a complete one. -/
theorem sameTables_recountedAll_stoppedAt (m : MemoryStore) (id : Int64)
    (h : ∀ x ∈ before, x ∈ ids) :
    ((m.stoppedAt before id).recountedAll ids).SameTables (m.recountedAll ids) where
  entities := by simp [stoppedAt]
  changes := by simp [stoppedAt]
  users := by simp [stoppedAt]
  changesets := by
    have hchanges : (m.stoppedAt before id).changes = m.changes := m.changes_recountedAll before
    apply Std.ExtTreeMap.ext_getElem?
    intro x
    rw [changesets_recountedAll, changesets_recountedAll, changesets_stoppedAt,
      recount_congr hchanges]
    by_cases hx : x ∈ before
    · rw [if_pos (h x hx), if_pos (h x hx), if_pos hx]
      -- The same count is taken twice.
      cases m.changesets[x]? <;> simp [recount_recount]
    · rw [if_neg hx]

/-- If one of the ids has no changeset, there is a first such id. -/
theorem exists_first_missing (h : ∃ id ∈ ids, id ∉ m.changesets) :
    ∃ before id after, ids = before ++ id :: after ∧ (∀ x ∈ before, x ∈ m.changesets) ∧
      id ∉ m.changesets := by
  induction ids with
  | nil =>
    obtain ⟨id, hid, -⟩ := h
    cases hid
  | cons x ids ih =>
    by_cases hx : x ∈ m.changesets
    · obtain ⟨id, hid, hmissing⟩ := h
      have hrest : id ∈ ids := (List.mem_cons.1 hid).resolve_left fun e => hmissing (e ▸ hx)
      obtain ⟨before, first, after, rfl, hbefore, hfirst⟩ := ih ⟨id, hrest, hmissing⟩
      exact ⟨x :: before, first, after, rfl, List.forall_mem_cons.2 ⟨hx, hbefore⟩, hfirst⟩
    · exact ⟨[], x, ids, rfl, List.forall_mem_nil _, hx⟩

end MemoryStore

open MemoryStore

/-- Counting again stops at the first changeset that is not there. -/
theorem Run.recompute_all_of_missing {before after : List Int64} {id : Int64} {m : MemoryStore}
    (hbefore : ∀ x ∈ before, x ∈ m.changesets) (hid : id ∉ m.changesets) :
    ((before ++ id :: after).forM fun id => Ledger.naming id (Store.recompute id) :
      Step MemoryStore Unit) m = .error (.changesetNotFound id) (m.stoppedAt before id) := by
  induction before generalizing m with
  | nil =>
    have hstep : Store.recompute id m =
        .error (.changesetNotFound id) (m.stoppedAt [] id) := by
      change MemoryStore.recompute id m = _
      unfold MemoryStore.recompute
      dsimp only
      rw [Std.ExtTreeMap.getElem?_eq_none hid]
      rfl
    have hnamed : Ledger.naming id (Store.recompute id) m =
        .error (.changesetNotFound id) (m.stoppedAt [] id) := by
      unfold Ledger.naming
      rw [hstep]
      rfl
    exact bind_of_error _ hnamed
  | cons x before ih =>
    have hstep := recompute_eq m x (hbefore x List.mem_cons_self)
    refine (bind_of_ok _ hstep).trans (ih (m := m.recounted x) (fun y hy => ?_) ?_)
    · exact (m.mem_changesets_recounted x).2 (hbefore y (List.mem_cons_of_mem _ hy))
    · exact mt (m.mem_changesets_recounted x).1 hid

section finalize
variable {before after : List Int64} {id : Int64}

theorem Ledger.finalize_of_missing {l : Ledger} {m : MemoryStore}
    (h : l.touched.toList = before ++ id :: after) (hbefore : ∀ x ∈ before, x ∈ m.changesets)
    (hid : id ∉ m.changesets) :
    l.finalize m = .error (.changesetNotFound id) (m.stoppedAt before id) := by
  unfold finalize
  rw [h]
  exact bind_of_error _ (Run.recompute_all_of_missing hbefore hid)

/-- The end of a run for want of a changeset. Nothing but the store is changed. -/
theorem Run.finalize_of_missing (plan : Plan) {s : RunState MemoryStore}
    (h : s.ledger.touched.toList = before ++ id :: after)
    (hbefore : ∀ x ∈ before, x ∈ s.store.changesets) (hid : id ∉ s.store.changesets) :
    finalize plan s =
      .error ((Failure.changesetNotFound id).withRun plan.runId)
        { s with store := s.store.stoppedAt before id } := by
  have hget : (get : Run MemoryStore _) s = .ok s s := rfl
  have hledger := Ledger.finalize_of_missing h hbefore hid
  exact mapFailure_of_error
    ((bind_of_ok _ hget).trans (bind_of_error _ (onStore_of_error hledger)))

/-- So, and only so, the end of a run fails. -/
theorem Run.finalize_eq_error_iff {plan : Plan} {s s' : RunState MemoryStore} {f : Failure} :
    finalize plan s = .error f s' ↔
      ∃ before id after, s.ledger.touched.toList = before ++ id :: after ∧
        (∀ x ∈ before, x ∈ s.store.changesets) ∧ id ∉ s.store.changesets ∧
        f = (Failure.changesetNotFound id).withRun plan.runId ∧
        s' = { s with store := s.store.stoppedAt before id } := by
  constructor
  · intro h
    by_cases hmissing : ∃ id ∈ s.ledger.touched.toList, id ∉ s.store.changesets
    · obtain ⟨before, id, after, hids, hbefore, hid⟩ := exists_first_missing hmissing
      rw [finalize_of_missing plan hids hbefore hid] at h
      cases h
      exact ⟨before, id, after, hids, hbefore, hid, rfl, rfl⟩
    · -- If they are all there, the run ends.
      have hall : ∀ id ∈ s.ledger.touched.toList, id ∈ s.store.changesets := fun id hid =>
        Classical.byContradiction fun hn => hmissing ⟨id, hid, hn⟩
      rw [finalize_eq plan s hall] at h
      cases h
  · rintro ⟨before, id, after, hids, hbefore, hid, rfl, rfl⟩
    exact finalize_of_missing plan hids hbefore hid

end finalize

/-- The end of a run fails if and only if a touched changeset is not in the store. The first such one
is named then, and those before it are summed up: each has the number of its records and the greatest of
their times. Nothing else is altered, neither in the store nor in the books of the run, with all that was
touched. Once the missing changesets have been put in, the run can be ended: all that it has touched is
summed up, every table is as if it had been ended for the first time, nothing is touched any more, and to
end it again changes nothing at all. -/
theorem failed_finalize_can_be_retried (plan : Plan) (s : RunState MemoryStore) :
    let ids := s.ledger.touched.toList
    ((∃ f s', Run.finalize plan s = .error f s') ↔ ∃ id ∈ ids, id ∉ s.store.changesets) ∧
      ∀ f s', Run.finalize plan s = .error f s' →
        (∃ before id after, ids = before ++ id :: after ∧
          (∀ x ∈ before, x ∈ s.store.changesets) ∧ id ∉ s.store.changesets ∧
          s.ledger.finalize s.store = .error (.changesetNotFound id) s'.store ∧
          f.kind.code = "ERR_NOT_FOUND" ∧ f.changesetId = some id ∧
          s' = { s with store := s'.store } ∧ s.store.SumsUp before s'.store) ∧
        ∀ cs : List Changeset, (∀ id ∈ ids, id ∈ s.store.changesets ∨ ∃ c ∈ cs, c.id = id) →
          ∃ t t',
            Run.finalize plan { s with store := s.store.insertChangesets cs } =
              .ok { runId := plan.runId, stats := s.stats, changesets := ids } t ∧
            Run.finalize plan { s' with store := s'.store.insertChangesets cs } =
              .ok { runId := plan.runId, stats := s.stats, changesets := ids } t' ∧
            (s'.store.insertChangesets cs).SumsUp ids t'.store ∧
            t'.store.SameTables t.store ∧
            t'.ledger = { s.ledger with touched := .empty } ∧
            Run.finalize plan t' =
              .ok { runId := plan.runId, stats := s.stats, changesets := [] } t' := by
  intro ids
  refine ⟨⟨?_, ?_⟩, ?_⟩
  · rintro ⟨f, s', h⟩
    obtain ⟨before, id, after, hids, -, hid, -⟩ := Run.finalize_eq_error_iff.1 h
    have hmem : id ∈ before ++ id :: after := List.mem_append_right _ List.mem_cons_self
    rw [← hids] at hmem
    exact ⟨id, hmem, hid⟩
  · intro hmissing
    obtain ⟨before, id, after, hids, hbefore, hid⟩ := exists_first_missing hmissing
    exact ⟨_, _, Run.finalize_of_missing plan hids hbefore hid⟩
  · intro f s' h
    obtain ⟨before, id, after, hids, hbefore, hid, rfl, rfl⟩ := Run.finalize_eq_error_iff.1 h
    refine ⟨⟨before, id, after, hids, hbefore, hid, Ledger.finalize_of_missing hids hbefore hid,
      rfl, rfl, rfl, sumsUp_stoppedAt hbefore id⟩, fun cs hcs => ?_⟩
    have hpresent : ∀ x ∈ ids, x ∈ (s.store.insertChangesets cs).changesets := fun x hx =>
      mem_changesets_insertChangesets.2 (hcs x hx)
    have hpresent' : ∀ x ∈ ids,
        x ∈ ((s.store.stoppedAt before id).insertChangesets cs).changesets := fun x hx =>
      mem_changesets_insertChangesets.2 ((hcs x hx).imp_left mem_changesets_stoppedAt.2)
    -- What was summed up before the failure is touched still, and will be summed up again.
    have htouched : ∀ x ∈ before, x ∈ ids := by
      intro x hx
      rw [show ids = before ++ id :: after from hids]
      exact List.mem_append_left _ hx
    exact ⟨_, _, Run.finalize_eq plan _ hpresent, Run.finalize_eq plan _ hpresent',
      sumsUp_recountedAll hpresent',
      sameTables_recountedAll_insertChangesets
        (sameTables_recountedAll_stoppedAt s.store id htouched) cs,
      rfl, Run.finalize_eq plan _ fun x hx => by cases hx⟩

def Time.Instant.firstHour : Time.Instant :=
  ⟨3600, 750000000, by decide, by decide, by decide, by decide⟩

def Changeset.early (id : Int64) : Changeset where
  id := id
  userId := 1
  createdAt := .firstHour

/-- The records of a run: two of one changeset, of which the first has the later time, and between them
one of another changeset. -/
def ChangeRecord.three : Array ChangeRecord :=
  #[.blank .create { Snapshot.shortLine 1 with timestamp := some .firstHour },
    .blank .modify { Snapshot.shortLine 2 with changesetId := 501 },
    .blank .modify (.shortLine 3)]

/-- A run that has written these records and touched both changesets, but the second one is missing. -/
def RunState.lacking : RunState MemoryStore where
  store := { MemoryStore.empty.insertChangeset (.early 500) with changes := ChangeRecord.three }
  ledger := ((Ledger.ofCapacity 8).touch 500).touch 501

/-- The run fails for want of the second changeset, and has summed up the first one by then. When the
second one has been put in, the run ends with both and has summed up that one too. -/
theorem finalize_retried_with_second_changeset :
    let plan : Plan := ⟨{}, ⟨"run"⟩⟩
    let s := RunState.lacking
    ∃ f s' t' c c', Run.finalize plan s = .error f s' ∧ f.changesetId = some 501 ∧
      s'.store.changesets[(500 : Int64)]? = some c ∧ c.numChanges = 2 ∧
      c.closedAt = some .firstHour ∧
      (∀ id ∈ s.ledger.touched.toList,
        id ∈ s.store.changesets ∨ ∃ c ∈ [Changeset.early 501], c.id = id) ∧
      Run.finalize plan { s' with store := s'.store.insertChangesets [.early 501] } =
        .ok { runId := ⟨"run"⟩, stats := {}, changesets := [500, 501] } t' ∧
      t'.store.changesets[(501 : Int64)]? = some c' ∧ c'.numChanges = 1 := by
  intro plan s
  have htouched : s.ledger.touched.toList = [500, 501] := by
    simp [s, RunState.lacking, Ledger.touch, Ledger.ofCapacity, IdQueue.toList_insert,
      show IdQueue.empty.toList = [] from rfl]
  have hstored (id : Int64) : id ∈ s.store.changesets ↔ id = 500 := by
    have hinsert := mem_changesets_insertChangeset (m := .empty) (c := .early 500) (x := id)
    simpa [s, RunState.lacking, MemoryStore.empty, Changeset.early, eq_comm] using hinsert
  obtain ⟨hiff, hretry⟩ := failed_finalize_can_be_retried plan s
  obtain ⟨f, s', h⟩ := hiff.2 ⟨501, by simp [htouched], by simp [hstored]⟩
  obtain ⟨⟨before, id, after, hids, -, hid, -, -, hf, -, hsums⟩, hagain⟩ := hretry f s' h
  have hcs : ∀ id ∈ s.ledger.touched.toList,
      id ∈ s.store.changesets ∨ ∃ c ∈ [Changeset.early 501], c.id = id := by
    simp [htouched, hstored, Changeset.early]
  obtain ⟨t, t', -, hdone, hsums', -, -, -⟩ := hagain [.early 501] hcs
  rw [htouched] at hids hdone hsums'
  obtain ⟨rfl, rfl⟩ : before = [500] ∧ id = 501 := by
    cases before with
    | nil => exact absurd ((hstored id).2 (List.cons.inj hids).1.symm) hid
    | cons x before =>
      obtain ⟨rfl, hrest⟩ := List.cons.inj hids
      cases before with
      | nil => exact ⟨rfl, (List.cons.inj hrest).1.symm⟩
      | cons y before => cases before <;> cases hrest
  obtain ⟨_, c, -, hc, hsum⟩ := hsums.summed 500 List.mem_cons_self
  obtain ⟨_, c', -, hc', hsum'⟩ := hsums'.summed 501 (by decide)
  have hchanges : (s'.store.insertChangesets [.early 501]).changes = ChangeRecord.three :=
    hsums.changes
  rw [hchanges] at hsum'
  have hlatest : Time.Instant.firstHour.Greatest
      (ChangeRecord.times (ChangeRecord.three.toList.filter (·.changesetId = 500))) :=
    ⟨by decide, by decide⟩
  exact ⟨f, s', t', c, c', h, hf, hc, hsum.numChanges, (hsum.closedAt _).2 hlatest, hcs, hdone,
    hc', hsum'.numChanges⟩

end MapAudit
