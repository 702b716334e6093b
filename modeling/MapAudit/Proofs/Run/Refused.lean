import MapAudit.Proofs.Run.Effect
import MapAudit.Proofs.Run.Known

namespace MapAudit
open Time

/-- `t` is left by a change that is refused in `s`: the author and the changeset of the change were
ensured, the changeset was touched, one more conflict was counted, and nothing else was done. The other
fields tell what the first one comes to. -/
structure RunState.Refused (s : RunState MemoryStore) (next : Snapshot) (time : Instant)
    (t : RunState MemoryStore) : Prop where
  steps : ∃ write authors store ensured evicted ledger store',
    s.authors.ensure next.user s.store = .ok (write, authors) store ∧
    s.ledger.ensure next.changesetId (next.user.elim anonymousUserId (·.id)) time store =
      .ok (ensured, evicted, ledger) store' ∧
    t = {
      store := store'
      ledger := ledger.touch next.changesetId
      authors
      stats := { s.stats with invalid := s.stats.invalid + 1 }
      events := evicted.elim s.events fun id => s.events.push (.evicted id) }
  /-- The author is stored as the change names it, unless the run has seen it before. -/
  users (id : Int64) : t.store.users[id]? =
    if s.authors.seen.contains id then s.store.users[id]?
    else (next.user.filter (·.id = id)).or s.store.users[id]?
  seen (id : Int64) : t.authors.seen.contains id =
    (s.authors.seen.contains id || (next.user.filter (·.id = id)).isSome)
  /-- A changeset outside the window that is missing is opened, without changes. -/
  changesets (id : Int64) : t.store.changesets[id]? =
    if s.ledger.window.contains next.changesetId then s.store.changesets[id]?
    else s.store.changesets[id]?.or
      (if next.changesetId = id then
        some {
          id
          userId := next.user.elim anonymousUserId (·.id)
          createdAt := time
          closedAt := none
          numChanges := 0 }
      else none)
  window : t.ledger.window = (s.ledger.window.insert next.changesetId).2
  admitted : t.ledger.window.contains next.changesetId = true
  touched : t.ledger.touched.toList =
    if next.changesetId ∈ s.ledger.touched.toList then s.ledger.touched.toList
    else s.ledger.touched.toList ++ [next.changesetId]
  recomputed : t.store.recomputed = s.store.recomputed

namespace RunState
variable {s : RunState MemoryStore} {next : Snapshot} {time : Instant}

theorem window_enrolled (s : RunState MemoryStore) (next : Snapshot) (time : Instant) :
    (s.enrolled next time).ledger.window = (s.ledger.window.insert next.changesetId).2 := by
  have h := (s.withAuthor next.user).insert_window_withChangeset (next.opened time)
  rw [ledger_withAuthor] at h
  exact h

theorem changesets_enrolled (s : RunState MemoryStore) (next : Snapshot) (time : Instant)
    (id : Int64) :
    (s.enrolled next time).store.changesets[id]? =
      if s.ledger.window.contains next.changesetId then s.store.changesets[id]?
      else s.store.changesets[id]?.or
        (if next.changesetId = id then some (next.opened time) else none) := by
  have h := (s.withAuthor next.user).changesets_withChangeset (next.opened time) id
  rw [ledger_withAuthor, changesets_withAuthor] at h
  exact h

/-- An enrolment is what the authors and the ledger do for the change, and a touch. -/
theorem enrolled_steps (s : RunState MemoryStore) (next : Snapshot) (time : Instant) :
    ∃ write authors store ensured evicted ledger store',
      s.authors.ensure next.user s.store = .ok (write, authors) store ∧
      s.ledger.ensure next.changesetId (next.user.elim anonymousUserId (·.id)) time store =
        .ok (ensured, evicted, ledger) store' ∧
      s.enrolled next time = {
        store := store'
        ledger := ledger.touch next.changesetId
        authors
        stats := s.stats
        events := evicted.elim s.events fun id => s.events.push (.evicted id) } := by
  obtain ⟨write, hwrite⟩ := Run.authors_ensure_eq s next.user
  have hauthored := s.withAuthor_eq next.user
  have hwindow : (s.withAuthor next.user).ledger.window.contains next.changesetId =
      s.ledger.window.contains next.changesetId := by rw [ledger_withAuthor]
  by_cases hw : s.ledger.window.contains next.changesetId = true
  · have hchangeset : (s.withAuthor next.user).withChangeset (next.opened time) =
        s.withAuthor next.user := withChangeset_of_remembered (hwindow.trans hw)
    refine ⟨write, _, _, .cached, none, s.ledger, _, hwrite,
      Ledger.ensure_of_contains hw _ _ _, ?_⟩
    unfold enrolled
    rw [hchangeset, hauthored]
    rfl
  · have hchangeset := withChangeset_of_new (s := s.withAuthor next.user) (c := next.opened time)
      (mt hwindow.symm.trans hw)
    have hensured := Run.ledger_ensure_eq time s.ledger
      (s.withAuthor next.user).store next.changesetId
      (next.user.elim anonymousUserId (·.id)) (Bool.eq_false_iff.2 hw)
    refine ⟨write, _, _, _, _, _, _, hwrite, hensured, ?_⟩
    unfold enrolled
    rw [hchangeset, hauthored]
    rfl

theorem refused_enrolled (s : RunState MemoryStore) (next : Snapshot) (time : Instant)
    {policy : Policy} (hp : policy = .stop) (i : InvalidAction) :
    s.Refused next time ((s.enrolled next time).flagged policy (some i)) where
  steps := by
    obtain ⟨write, authors, store, ensured, evicted, ledger, store', hauthor, hchangeset, h⟩ :=
      s.enrolled_steps next time
    refine ⟨write, authors, store, ensured, evicted, ledger, store', hauthor, hchangeset, ?_⟩
    rw [h, hp]
    rfl
  users id := by
    rw [store_flagged, ← users_withAuthor next.user id]
    exact congrArg (·[id]?) ((s.withAuthor next.user).users_withChangeset (next.opened time))
  seen id := by
    rw [authors_flagged, ← seen_withAuthor next.user id]
    exact congrArg (·.seen.contains id)
      ((s.withAuthor next.user).authors_withChangeset (next.opened time))
  changesets id := by
    rw [store_flagged, changesets_enrolled]
    by_cases e : next.changesetId = id
    · subst e
      rfl
    · simp only [e, if_false]
  window := by rw [ledger_flagged, window_enrolled]
  admitted := by
    rw [ledger_flagged, window_enrolled]
    exact Window.contains_iff_mem.2 (Window.mem_insert_self _ _)
  touched := by rw [ledger_flagged, touched_enrolled]
  recomputed := by rw [store_flagged, recomputed_enrolled]

end RunState

namespace Run
variable {plan : Plan} {action : Action} {next : Snapshot} {s s' : RunState MemoryStore}
  {f : Failure}

/-- A failing change counts neither as processed nor as skipped. -/
theorem stats_of_process_error (h : process plan action next s = .error f s') :
    s'.stats.processed = s.stats.processed ∧ s'.stats.skipped = s.stats.skipped := by
  rcases process_cases plan action next s with
    ⟨g, -, hp⟩ | ⟨time, -, ⟨stored, -, hp⟩ | ⟨i, -, hp⟩ | ⟨i, -, hp⟩⟩
  · rw [hp] at h
    cases h
    exact ⟨rfl, rfl⟩
  · rw [hp] at h
    cases h
  · rw [hp] at h
    cases h
    have hstats := s.stats_enrolled next time
    exact ⟨congrArg (·.processed) hstats, congrArg (·.skipped) hstats⟩
  · rw [hp] at h
    cases h

/-- A change that fails of a conflict is left enrolled. -/
theorem refused_of_process_error (h : process plan action next s = .error f s')
    (hkind : f.kind = .invalidAction) :
    ∃ time, next.timestamp = some time ∧ s.Refused next time s' := by
  rcases process_cases plan action next s with
    ⟨g, hcheck, hp⟩ | ⟨time, hcheck, ⟨stored, -, hp⟩ | ⟨i, hverdict, hp⟩ | ⟨i, -, hp⟩⟩
  · -- The check has failures of its own kinds.
    rw [hp] at h
    cases h
    rcases check_eq_error hcheck with ⟨-, rfl⟩ | ⟨-, rfl⟩ <;> cases hkind
  · rw [hp] at h
    cases h
  · rw [hp] at h
    cases h
    have hpolicy := (Options.conflict_of_refuse hverdict).1
    exact ⟨time, (check_eq_ok hcheck).1, s.refused_enrolled next time hpolicy i⟩
  · rw [hp] at h
    cases h

end Run

/-- A failing change is not half applied, whatever the store and the books of the run are. The records,
the entities and the numbers of processed and skipped changes stay. A change without a time or with a
version below one fails and leaves all as it is; one that fails of a conflict has its author and its
changeset ensured, its changeset touched and its conflict counted, and that is all. -/
theorem failing_change_not_half_applied (plan : Plan) (action : Action) (next : Snapshot)
    (s : RunState MemoryStore) :
    (next.timestamp = none ∨ next.version < 1 →
      ∃ f, Run.process plan action next s = .error f s) ∧
    ∀ f s', Run.process plan action next s = .error f s' →
      s'.store.changes = s.store.changes ∧
      s'.store.entities = s.store.entities ∧
      s'.stats.processed = s.stats.processed ∧
      s'.stats.skipped = s.stats.skipped ∧
      (f.kind = .invalidAction →
        ∃ time, next.timestamp = some time ∧ s.Refused next time s') := by
  refine ⟨fun hbad => ?_, fun f s' h => ?_⟩
  · obtain ⟨f, hcheck⟩ := Run.exists_check_eq_error hbad
    exact ⟨_, Run.process_of_check_error hcheck s⟩
  · obtain ⟨hentities, hchanges⟩ := Run.process_error_kept h
    obtain ⟨hprocessed, hskipped⟩ := Run.stats_of_process_error h
    exact ⟨hchanges, hentities, hprocessed, hskipped, Run.refused_of_process_error h⟩

/-- In a strict run, a change of a line that is not there fails. Its author and its changeset stay. -/
theorem refused_change_leaves_author :
    ∃ f s', Run.process ⟨{ policy := .stop }, ⟨"strict"⟩⟩ .modify (.shortLine 1)
        (Plan.start ⟨{ policy := .stop }, ⟨"strict"⟩⟩ MemoryStore.empty) = .error f s' ∧
      f.kind = .invalidAction ∧
      s'.store.changes = #[] ∧
      s'.store.users[(1 : Int64)]? = some ⟨1, "ann"⟩ ∧
      s'.ledger.touched.toList = [500] ∧
      s'.stats = { processed := 0, skipped := 0, invalid := 1 } := by
  let plan : Plan := ⟨{ policy := .stop }, ⟨"strict"⟩⟩
  have habsent : (plan.start MemoryStore.empty).store.entities[(Snapshot.shortLine 1).key]? =
      none := by simp [Plan.start, MemoryStore.empty]
  have hverdict : plan.options.verdict .modify
      (plan.start MemoryStore.empty).store.entities[(Snapshot.shortLine 1).key]? (.shortLine 1) =
      .refuse ⟨.modify, (Snapshot.shortLine 1).key, .doesNotExist⟩ := by
    rw [habsent]
    rfl
  have hprocess : Run.process plan .modify (.shortLine 1) (plan.start MemoryStore.empty) =
      .error _ _ := Run.process_of_refuse rfl hverdict
  obtain ⟨-, hframe⟩ := failing_change_not_half_applied plan .modify (.shortLine 1)
    (plan.start MemoryStore.empty)
  obtain ⟨hchanges, -, -, -, hrefused⟩ := hframe _ _ hprocess
  obtain ⟨time, -, hleft⟩ := hrefused rfl
  refine ⟨_, _, hprocess, rfl, hchanges, ?_, ?_, ?_⟩
  · have hseen : (plan.start MemoryStore.empty).authors.seen.contains (1 : Int64) = false := by
      simp [Plan.start]
    rw [hleft.users, hseen]
    rfl
  · rw [hleft.touched]
    rfl
  · obtain ⟨_, _, _, _, _, _, _, -, -, hsteps⟩ := hleft.steps
    rw [hsteps]
    rfl

end MapAudit
