import MapAudit.Proofs.Run.Session

namespace MapAudit

/-- The remembered and the touched changesets are stored. -/
structure Known (s : RunState MemoryStore) : Prop where
  window : ∀ id ∈ s.ledger.window.toList, id ∈ s.store.changesets
  touched : ∀ id ∈ s.ledger.touched.toList, id ∈ s.store.changesets

def RunState.finalized (s : RunState MemoryStore) : RunState MemoryStore :=
  { s with
    store := s.store.recountedAll s.ledger.touched.toList
    ledger := { s.ledger with touched := .empty } }

theorem MemoryStore.mem_changesets_recountedAll {m : MemoryStore} {ids : List Int64} {id : Int64} :
    id ∈ (m.recountedAll ids).changesets ↔ id ∈ m.changesets := by
  rw [Std.ExtTreeMap.mem_iff_isSome_getElem?, Std.ExtTreeMap.mem_iff_isSome_getElem?,
    changesets_recountedAll]
  split <;> simp

namespace RunState
variable {s : RunState MemoryStore} {next : Snapshot} {time : Time.Instant}

@[simp] theorem entities_finalized : s.finalized.store.entities = s.store.entities :=
  s.store.entities_recountedAll _

@[simp] theorem changes_finalized : s.finalized.store.changes = s.store.changes :=
  s.store.changes_recountedAll _

@[simp] theorem users_finalized : s.finalized.store.users = s.store.users :=
  s.store.users_recountedAll _

theorem changesets_finalized (id : Int64) :
    s.finalized.store.changesets[id]? =
      if id ∈ s.ledger.touched.toList then s.store.changesets[id]?.map (s.store.recount id)
      else s.store.changesets[id]? :=
  s.store.changesets_recountedAll _ id

theorem withAuthor_of_seen {u : User} (h : s.authors.seen.contains u.id = true) :
    s.withAuthor (some u) = s :=
  if_pos h

theorem withAuthor_of_new {u : User} (h : ¬s.authors.seen.contains u.id = true) :
    s.withAuthor (some u) =
      { s with store := s.store.withUser u, authors := { seen := s.authors.seen.insert u.id } } :=
  if_neg h

/-- The author is stored as the change names it, unless the run has seen it before. -/
theorem users_withAuthor (user : Option User) (id : Int64) :
    (s.withAuthor user).store.users[id]? =
      if s.authors.seen.contains id then s.store.users[id]?
      else (user.filter (·.id = id)).or s.store.users[id]? := by
  cases user with
  | none => simp [withAuthor]
  | some u =>
    rw [Option.filter_some]
    by_cases h : s.authors.seen.contains u.id = true
    · rw [withAuthor_of_seen h]
      by_cases e : u.id = id
      · subst e
        simp [h]
      · simp [e]
    · rw [withAuthor_of_new h, MemoryStore.users_withUser]
      by_cases e : u.id = id
      · subst e
        simp [h]
      · simp [e]

theorem seen_withAuthor (user : Option User) (id : Int64) :
    (s.withAuthor user).authors.seen.contains id =
      (s.authors.seen.contains id || (user.filter (·.id = id)).isSome) := by
  cases user with
  | none => simp [withAuthor]
  | some u =>
    rw [Option.filter_some]
    by_cases h : s.authors.seen.contains u.id = true
    · rw [withAuthor_of_seen h]
      by_cases e : u.id = id
      · subst e
        simp [h]
      · simp [e]
    · rw [withAuthor_of_new h]
      by_cases e : u.id = id
      · simp [e]
      · simp [e]

theorem withChangeset_of_remembered {c : Changeset} (h : s.ledger.window.contains c.id = true) :
    s.withChangeset c = s :=
  if_pos h

theorem withChangeset_of_new {c : Changeset} (h : ¬s.ledger.window.contains c.id = true) :
    s.withChangeset c =
      { s with
        store := s.store.withChangeset c
        ledger := { s.ledger with window := (s.ledger.window.insert c.id).2 }
        events := (s.ledger.window.insert c.id).1.elim s.events fun id =>
          s.events.push (.evicted id) } :=
  if_neg h

theorem insert_window_withChangeset (s : RunState MemoryStore) (c : Changeset) :
    (s.withChangeset c).ledger.window = (s.ledger.window.insert c.id).2 := by
  by_cases h : s.ledger.window.contains c.id = true
  · rw [withChangeset_of_remembered h, Window.insert_of_contains h]
  · rw [withChangeset_of_new h]

/-- Of the changesets, only the one ensured can be opened, and is not if the window answers for
it. -/
theorem changesets_withChangeset (s : RunState MemoryStore) (c : Changeset) (id : Int64) :
    (s.withChangeset c).store.changesets[id]? =
      if s.ledger.window.contains c.id then s.store.changesets[id]?
      else s.store.changesets[id]?.or (if c.id = id then some c else none) := by
  by_cases h : s.ledger.window.contains c.id = true
  · rw [withChangeset_of_remembered h, if_pos h]
  · rw [withChangeset_of_new h, if_neg h]
    exact s.store.changesets_withChangeset c id

theorem window_withChangeset {c : Changeset} {id : Int64}
    (h : id ∈ (s.withChangeset c).ledger.window.toList) :
    id ∈ s.ledger.window.toList ∨ id = c.id := by
  rw [insert_window_withChangeset] at h
  exact Window.mem_of_mem_insert h

theorem touched_enrolled :
    (s.enrolled next time).ledger.touched.toList =
      if next.changesetId ∈ s.ledger.touched.toList then s.ledger.touched.toList
      else s.ledger.touched.toList ++ [next.changesetId] := by
  have hl : (s.enrolled next time).ledger.touched =
      s.ledger.touched.insert next.changesetId := by
    change ((s.withAuthor next.user).withChangeset _).ledger.touched.insert _ = _
    rw [touched_withChangeset, ledger_withAuthor]
  rw [hl, IdQueue.toList_insert]

theorem mem_touched_enrolled {id : Int64} :
    id ∈ (s.enrolled next time).ledger.touched.toList ↔
      id ∈ s.ledger.touched.toList ∨ id = next.changesetId := by
  rw [touched_enrolled]
  split
  · grind
  · simp

end RunState

namespace Known
variable {s : RunState MemoryStore}

/-- The window answers only for changesets that are there. -/
theorem changesets_withChangeset (h : Known s) (c : Changeset) (id : Int64) :
    (s.withChangeset c).store.changesets[id]? =
      s.store.changesets[id]?.or (if c.id = id then some c else none) := by
  rw [RunState.changesets_withChangeset]
  split
  · next hw =>
    -- The changeset is there already, so opening it would change nothing.
    have hm := h.window c.id (Window.contains_iff_mem.1 hw)
    rw [Std.ExtTreeMap.mem_iff_isSome_getElem?] at hm
    by_cases e : c.id = id
    · subst e
      obtain ⟨d, hd⟩ := Option.isSome_iff_exists.1 hm
      simp [hd]
    · simp [e]
  · rfl

theorem changesets_enrolled (h : Known s) (next : Snapshot) (time : Time.Instant) (id : Int64) :
    (s.enrolled next time).store.changesets[id]? =
      s.store.changesets[id]?.or
        (if next.changesetId = id then some (next.opened time) else none) := by
  have ha : Known (s.withAuthor next.user) :=
    ⟨by simpa using h.window, by simpa using h.touched⟩
  change ((s.withAuthor next.user).withChangeset (next.opened time)).store.changesets[id]? = _
  rw [ha.changesets_withChangeset, RunState.changesets_withAuthor]
  rfl

theorem start (plan : Plan) (m : MemoryStore) : Known (plan.start m) where
  window id h := by cases h
  touched id h := by cases h

/-- Ledger and changesets alone count. -/
theorem congr {s' : RunState MemoryStore} (h : Known s) (hl : s'.ledger = s.ledger)
    (hc : s'.store.changesets = s.store.changesets) : Known s' where
  window id := by rw [hl, hc]; exact h.window id
  touched id := by rw [hl, hc]; exact h.touched id

theorem enrolled (h : Known s) (next : Snapshot) (time : Time.Instant) :
    Known (s.enrolled next time) := by
  have hmem (id : Int64) : id ∈ (s.enrolled next time).store.changesets ↔
      id ∈ s.store.changesets ∨ next.changesetId = id := by
    rw [Std.ExtTreeMap.mem_iff_isSome_getElem?, Std.ExtTreeMap.mem_iff_isSome_getElem?,
      h.changesets_enrolled]
    by_cases e : next.changesetId = id <;> simp [e]
  refine ⟨fun id hid => (hmem id).2 ?_, fun id hid => (hmem id).2 ?_⟩
  · have hw : id ∈ ((s.withAuthor next.user).withChangeset (next.opened time)).ledger.window.toList :=
      hid
    rcases RunState.window_withChangeset hw with hw | rfl
    · rw [RunState.ledger_withAuthor] at hw
      exact .inl (h.window id hw)
    · exact .inr rfl
  · rw [RunState.mem_touched_enrolled] at hid
    exact hid.imp (h.touched id) Eq.symm

theorem finalize_eq (h : Known s) (plan : Plan) :
    Run.finalize plan s =
      .ok { runId := plan.runId, stats := s.stats, changesets := s.ledger.touched.toList }
        s.finalized :=
  Run.finalize_eq plan s h.touched

theorem finalized (h : Known s) : Known s.finalized where
  window id hid := MemoryStore.mem_changesets_recountedAll.2 (h.window id hid)
  touched id hid := by cases hid

end Known

theorem Known.ask {x : Session MemoryStore} (h : Known x.state) (call : Session.Call) :
    Known (x.ask call).2.state := by
  cases call with
  | start plan => exact .start plan x.state.store
  | finalize =>
    rw [Session.ask_finalize_of_ok (h.finalize_eq x.plan)]
    exact h.finalized
  | process action next =>
    rcases Run.process_cases x.plan action next x.state with
      ⟨f, -, hp⟩ | ⟨time, -, ⟨stored, -, hp⟩ | ⟨i, -, hp⟩ | ⟨i, -, hp⟩⟩
    · rw [Session.ask_process_of_error hp]
      exact h
    · rw [Session.ask_process_of_ok hp]
      exact (h.enrolled next time).congr rfl rfl
    · rw [Session.ask_process_of_error hp]
      exact (h.enrolled next time).congr rfl rfl
    · rw [Session.ask_process_of_ok hp]
      exact (h.enrolled next time).congr (by simp) (by simp)

end MapAudit
