import MapAudit.Proofs.Changeset.Window
import MapAudit.Proofs.Run.Stages
import MapAudit.Store.Memory

namespace MapAudit
open Time

def Snapshot.opened (next : Snapshot) (time : Instant) : Changeset where
  id := next.changesetId
  userId := next.user.elim anonymousUserId (·.id)
  createdAt := time

namespace MemoryStore

def withUser (m : MemoryStore) (u : User) : MemoryStore :=
  if m.users[u.id]? = some u then m else m.putUser u

/-- The changeset is looked for, and created where it is missing. -/
def withChangeset (m : MemoryStore) (c : Changeset) : MemoryStore :=
  if m.changesets.contains c.id then { m with existsChecks := m.existsChecks + 1 }
  else { m with existsChecks := m.existsChecks + 1 }.insertChangeset c

/-- A change is written: its record and, if wanted, the new state of the entity. -/
def written (m : MemoryStore) (o : Options) (action : Action) (previous : Option Snapshot)
    (next : Snapshot) : MemoryStore :=
  { m with
    changes := m.changes.push (.build action previous next)
    entities :=
      if o.applyState then (m.insertEntity (action.leaves next)).entities else m.entities }

def recounted (m : MemoryStore) (id : Int64) : MemoryStore :=
  { m with
    recomputed := m.recomputed.push id
    changesets := m.changesets.modify id (m.recount id) }

def recountedAll (m : MemoryStore) (ids : List Int64) : MemoryStore := ids.foldl recounted m

variable (m : MemoryStore) (u : User) (c : Changeset) (id : Int64)

@[simp] theorem entities_withUser : (m.withUser u).entities = m.entities := by
  unfold withUser
  split <;> rfl

@[simp] theorem changes_withUser : (m.withUser u).changes = m.changes := by
  unfold withUser
  split <;> rfl

@[simp] theorem changesets_withUser : (m.withUser u).changesets = m.changesets := by
  unfold withUser
  split <;> rfl

@[simp] theorem recomputed_withUser : (m.withUser u).recomputed = m.recomputed := by
  unfold withUser
  split <;> rfl

theorem users_withUser :
    (m.withUser u).users[id]? = if u.id = id then some u else m.users[id]? := by
  unfold withUser
  split
  · next h =>
    split
    · next e => rw [← e, h]
    · rfl
  · simp [putUser, Std.ExtTreeMap.getElem?_insert]

/-- A user that is stored as given already is not written again. -/
theorem userWrites_withUser :
    (m.withUser u).userWrites = m.userWrites + if m.users[u.id]? = some u then 0 else 1 := by
  unfold withUser
  split <;> rfl

@[simp] theorem entities_withChangeset : (m.withChangeset c).entities = m.entities := by
  unfold withChangeset
  split <;> rfl

@[simp] theorem changes_withChangeset : (m.withChangeset c).changes = m.changes := by
  unfold withChangeset
  split <;> rfl

@[simp] theorem users_withChangeset : (m.withChangeset c).users = m.users := by
  unfold withChangeset
  split <;> rfl

@[simp] theorem recomputed_withChangeset : (m.withChangeset c).recomputed = m.recomputed := by
  unfold withChangeset
  split <;> rfl

@[simp] theorem userWrites_withChangeset : (m.withChangeset c).userWrites = m.userWrites := by
  unfold withChangeset
  split <;> rfl

theorem changesets_insertChangeset :
    (m.insertChangeset c).changesets[id]? = if c.id = id then some c else m.changesets[id]? := by
  simp [insertChangeset, Std.ExtTreeMap.getElem?_insert]

theorem changesets_withChangeset :
    (m.withChangeset c).changesets[id]? =
      m.changesets[id]?.or (if c.id = id then some c else none) := by
  unfold withChangeset
  by_cases h : m.changesets.contains c.id
  · rw [if_pos h]
    by_cases e : c.id = id
    · subst e
      obtain ⟨d, hd⟩ := Option.isSome_iff_exists.1
        (Std.ExtTreeMap.mem_iff_isSome_getElem?.1 (Std.ExtTreeMap.mem_iff_contains.2 h))
      rw [hd, Option.some_or]
    · simp [e]
  · rw [if_neg h, changesets_insertChangeset]
    by_cases e : c.id = id
    · subst e
      have hn : m.changesets[c.id]? = none :=
        Std.ExtTreeMap.getElem?_eq_none (mt Std.ExtTreeMap.mem_iff_contains.1 h)
      rw [hn, if_pos rfl, Option.none_or]
    · simp [e]

section written
variable (o : Options) (action : Action) (previous : Option Snapshot) (next : Snapshot)

@[simp] theorem changes_written :
    (m.written o action previous next).changes = m.changes.push (.build action previous next) :=
  rfl

@[simp] theorem users_written : (m.written o action previous next).users = m.users := rfl

@[simp] theorem changesets_written :
    (m.written o action previous next).changesets = m.changesets := rfl

@[simp] theorem recomputed_written :
    (m.written o action previous next).recomputed = m.recomputed := rfl

@[simp] theorem userWrites_written :
    (m.written o action previous next).userWrites = m.userWrites := rfl

theorem entities_written (key : EntityKey) :
    (m.written o action previous next).entities[key]? =
      if o.applyState = true ∧ next.key = key then some (action.leaves next)
      else m.entities[key]? := by
  unfold written
  by_cases h : o.applyState = true
  · simp [h, insertEntity, Std.ExtHashMap.getElem?_insert]
  · simp [h]

theorem entities_written_of_apply (ho : o.applyState = true) (key : EntityKey) :
    (m.written o action previous next).entities[key]? =
      if next.key = key then some (action.leaves next) else m.entities[key]? := by
  rw [entities_written]
  simp [ho]

end written

@[simp] theorem changes_recounted : (m.recounted id).changes = m.changes := rfl

theorem changesets_recounted (x : Int64) :
    (m.recounted id).changesets[x]? =
      if id = x then m.changesets[x]?.map (m.recount x) else m.changesets[x]? := by
  unfold recounted
  dsimp only
  rw [Std.ExtTreeMap.getElem?_modify]
  by_cases h : id = x
  · subst h
    simp
  · simp [h]

theorem mem_changesets_recounted {x : Int64} :
    x ∈ (m.recounted id).changesets ↔ x ∈ m.changesets := by
  rw [Std.ExtTreeMap.mem_iff_isSome_getElem?, Std.ExtTreeMap.mem_iff_isSome_getElem?,
    changesets_recounted]
  split <;> simp

@[simp] theorem entities_recountedAll (ids : List Int64) :
    (m.recountedAll ids).entities = m.entities := by
  induction ids generalizing m with
  | nil => rfl
  | cons id ids ih => exact ih (m.recounted id)

@[simp] theorem changes_recountedAll (ids : List Int64) :
    (m.recountedAll ids).changes = m.changes := by
  induction ids generalizing m with
  | nil => rfl
  | cons id ids ih => exact ih (m.recounted id)

@[simp] theorem users_recountedAll (ids : List Int64) :
    (m.recountedAll ids).users = m.users := by
  induction ids generalizing m with
  | nil => rfl
  | cons id ids ih => exact ih (m.recounted id)

@[simp] theorem userWrites_recountedAll (ids : List Int64) :
    (m.recountedAll ids).userWrites = m.userWrites := by
  induction ids generalizing m with
  | nil => rfl
  | cons id ids ih => exact ih (m.recounted id)

/-- Every changeset is recounted once, in the order given. -/
theorem recomputed_recountedAll (ids : List Int64) :
    (m.recountedAll ids).recomputed.toList = m.recomputed.toList ++ ids := by
  induction ids generalizing m with
  | nil => exact (List.append_nil _).symm
  | cons id ids ih =>
    have hstep : (m.recounted id).recomputed.toList = m.recomputed.toList ++ [id] :=
      Array.toList_push
    have hrest := ih (m.recounted id)
    rw [hstep, List.append_assoc, List.singleton_append] at hrest
    exact hrest

theorem recount_congr {m m' : MemoryStore} (h : m.changes = m'.changes) (id : Int64) :
    m.recount id = m'.recount id := by
  funext c
  simp only [recount, changesOf, h]

/-- Counting twice is counting once. -/
theorem recount_recount (m m' : MemoryStore) (id : Int64) (c : Changeset) :
    m.recount id (m'.recount id c) = m.recount id c := rfl

theorem changesets_recountedAll (ids : List Int64) (x : Int64) :
    (m.recountedAll ids).changesets[x]? =
      if x ∈ ids then m.changesets[x]?.map (m.recount x) else m.changesets[x]? := by
  induction ids generalizing m with
  | nil => simp [recountedAll]
  | cons id ids ih =>
    have hstep := ih (m.recounted id)
    rw [recount_congr (m.changes_recounted id) x, changesets_recounted] at hstep
    rw [show m.recountedAll (id :: ids) = (m.recounted id).recountedAll ids from rfl, hstep]
    by_cases e : id = x
    · subst e
      cases m.changesets[id]? <;> simp [recount_recount]
    · simp [e, Ne.symm e]

end MemoryStore

/-- Bringing an author up to date never fails. -/
theorem MemoryStore.bringUpToDate_eq (m : MemoryStore) (u : User) :
    ∃ write, Authors.bringUpToDate u m = .ok write (m.withUser u) := by
  have hget : Store.getUser u.id m = .ok m.users[u.id]? m := rfl
  unfold Authors.bringUpToDate MemoryStore.withUser
  rw [bind_of_ok _ hget]
  cases h : m.users[u.id]? with
  | none => exact ⟨.added, rfl⟩
  | some stored =>
    by_cases e : stored = u
    · exact ⟨.unchanged, by simp [e]; rfl⟩
    · exact ⟨.updated, by simp [e]; rfl⟩

namespace RunState
variable (s : RunState MemoryStore)

/-- The author of a change is brought up to date, once in a run. -/
def withAuthor : Option User → RunState MemoryStore
  | none => s
  | some u =>
    if s.authors.seen.contains u.id then s
    else { s with store := s.store.withUser u, authors := { seen := s.authors.seen.insert u.id } }

/-- The changeset of a change is made sure of, unless the window answers for it. -/
def withChangeset (c : Changeset) : RunState MemoryStore :=
  if s.ledger.window.contains c.id then s
  else
    let (evicted, window) := s.ledger.window.insert c.id
    { s with
      store := s.store.withChangeset c
      ledger := { s.ledger with window }
      events := evicted.elim s.events fun id => s.events.push (.evicted id) }

def enrolled (next : Snapshot) (time : Instant) : RunState MemoryStore :=
  let s := (s.withAuthor next.user).withChangeset (next.opened time)
  { s with ledger := s.ledger.touch next.changesetId }

def recorded (o : Options) (action : Action) (previous : Option Snapshot) (next : Snapshot) :
    RunState MemoryStore :=
  { s with
    store := s.store.written o action previous next
    stats := { s.stats with processed := s.stats.processed + 1 } }

variable (user : Option User) (c : Changeset) (next : Snapshot) (time : Instant)

/-- Nothing but the store and the authors changes. -/
theorem withAuthor_eq :
    s.withAuthor user =
      { s with store := (s.withAuthor user).store, authors := (s.withAuthor user).authors } := by
  unfold withAuthor
  split
  · rfl
  · split <;> rfl

@[simp] theorem ledger_withAuthor : (s.withAuthor user).ledger = s.ledger := by
  unfold withAuthor
  split
  · rfl
  · split <;> rfl

@[simp] theorem entities_withAuthor : (s.withAuthor user).store.entities = s.store.entities := by
  unfold withAuthor
  split
  · rfl
  · split
    · rfl
    · exact s.store.entities_withUser _

@[simp] theorem changes_withAuthor : (s.withAuthor user).store.changes = s.store.changes := by
  unfold withAuthor
  split
  · rfl
  · split
    · rfl
    · exact s.store.changes_withUser _

@[simp] theorem changesets_withAuthor :
    (s.withAuthor user).store.changesets = s.store.changesets := by
  unfold withAuthor
  split
  · rfl
  · split
    · rfl
    · exact s.store.changesets_withUser _

@[simp] theorem recomputed_withAuthor :
    (s.withAuthor user).store.recomputed = s.store.recomputed := by
  unfold withAuthor
  split
  · rfl
  · split
    · rfl
    · exact s.store.recomputed_withUser _

@[simp] theorem stats_withAuthor : (s.withAuthor user).stats = s.stats := by
  rw [withAuthor_eq]

@[simp] theorem stats_withChangeset : (s.withChangeset c).stats = s.stats := by
  unfold withChangeset
  split <;> rfl

@[simp] theorem authors_withChangeset : (s.withChangeset c).authors = s.authors := by
  unfold withChangeset
  split <;> rfl

@[simp] theorem touched_withChangeset :
    (s.withChangeset c).ledger.touched = s.ledger.touched := by
  unfold withChangeset
  split <;> rfl

@[simp] theorem entities_withChangeset :
    (s.withChangeset c).store.entities = s.store.entities := by
  unfold withChangeset
  split
  · rfl
  · exact s.store.entities_withChangeset c

@[simp] theorem changes_withChangeset : (s.withChangeset c).store.changes = s.store.changes := by
  unfold withChangeset
  split
  · rfl
  · exact s.store.changes_withChangeset c

@[simp] theorem users_withChangeset : (s.withChangeset c).store.users = s.store.users := by
  unfold withChangeset
  split
  · rfl
  · exact s.store.users_withChangeset c

@[simp] theorem recomputed_withChangeset :
    (s.withChangeset c).store.recomputed = s.store.recomputed := by
  unfold withChangeset
  split
  · rfl
  · exact s.store.recomputed_withChangeset c

@[simp] theorem userWrites_withChangeset :
    (s.withChangeset c).store.userWrites = s.store.userWrites := by
  unfold withChangeset
  split
  · rfl
  · exact s.store.userWrites_withChangeset c

section recorded
variable (o : Options) (action : Action) (previous : Option Snapshot)

@[simp] theorem store_recorded :
    (s.recorded o action previous next).store = s.store.written o action previous next := rfl

@[simp] theorem ledger_recorded : (s.recorded o action previous next).ledger = s.ledger := rfl

@[simp] theorem authors_recorded : (s.recorded o action previous next).authors = s.authors := rfl

end recorded

@[simp] theorem entities_enrolled :
    (s.enrolled next time).store.entities = s.store.entities := by
  simp [enrolled]

@[simp] theorem changes_enrolled : (s.enrolled next time).store.changes = s.store.changes := by
  simp [enrolled]

@[simp] theorem stats_enrolled : (s.enrolled next time).stats = s.stats := by
  simp [enrolled]

@[simp] theorem recomputed_enrolled :
    (s.enrolled next time).store.recomputed = s.store.recomputed := by
  simp [enrolled]

end RunState

namespace Run
variable (s : RunState MemoryStore) (next : Snapshot) (time : Instant)

theorem authors_ensure_eq (user : Option User) :
    ∃ write, s.authors.ensure user s.store =
      .ok (write, (s.withAuthor user).authors) (s.withAuthor user).store := by
  unfold RunState.withAuthor
  cases user with
  | none => exact ⟨_, rfl⟩
  | some u =>
    unfold Authors.ensure
    dsimp only
    split
    · exact ⟨_, rfl⟩
    · obtain ⟨write, hw⟩ := MemoryStore.bringUpToDate_eq s.store u
      exact ⟨write, bind_of_ok _ hw⟩

theorem ensureAuthor_eq (user : Option User) :
    ensureAuthor user s = .ok () (s.withAuthor user) := by
  obtain ⟨write, h⟩ := authors_ensure_eq s user
  rw [s.withAuthor_eq user]
  exact ensureAuthor_of_ok h

/-- A changeset outside the window is found or created, and remembered. -/
theorem ledger_ensure_eq (l : Ledger) (m : MemoryStore) (c : Int64) (u : Int64)
    (h : l.window.contains c = false) :
    l.ensure c u time m =
      .ok (if m.changesets.contains c then .confirmed else .created, (l.window.insert c).1,
          { l with window := (l.window.insert c).2 })
        (m.withChangeset { id := c, userId := u, createdAt := time }) := by
  have hexists : Store.changesetExists c m =
      .ok (m.changesets.contains c) { m with existsChecks := m.existsChecks + 1 } := rfl
  unfold Ledger.ensure MemoryStore.withChangeset
  simp only [h, Bool.false_eq_true, if_false]
  rw [bind_of_ok _ hexists]
  by_cases hc : m.changesets.contains c
  · simp only [hc, if_true]
    rfl
  · have hcreate (d : Changeset) (hd : d.id = c) :
        Store.createChangeset d { m with existsChecks := m.existsChecks + 1 } =
          .ok () ({ m with existsChecks := m.existsChecks + 1 }.insertChangeset d) := by
      change MemoryStore.createChangeset d _ = _
      unfold MemoryStore.createChangeset
      rw [if_neg (by rw [hd]; exact hc)]
    simp only [hc, Bool.false_eq_true, if_false]
    exact bind_of_ok _ (hcreate { id := c, userId := u, createdAt := time } rfl)

theorem ensureChangeset_eq :
    ensureChangeset next time s = .ok () (s.withChangeset (next.opened time)) := by
  unfold RunState.withChangeset
  by_cases h : s.ledger.window.contains (next.opened time).id
  · rw [if_pos h]
    exact ensureChangeset_of_contains h time
  · have he := ledger_ensure_eq time s.ledger s.store next.changesetId
      (next.user.elim anonymousUserId (·.id)) (Bool.eq_false_iff.2 h)
    rw [if_neg h]
    exact ensureChangeset_of_ok he

theorem enroll_eq :
    enroll next time s = .ok s.store.entities[next.key]? (s.enrolled next time) := by
  have hlookup : onStore (Store.lookup next.key) (s.enrolled next time) =
      .ok (s.enrolled next time).store.entities[next.key]? (s.enrolled next time) := rfl
  unfold enroll
  rw [bind_of_ok _ (ensureAuthor_eq s next.user), bind_of_ok _ (ensureChangeset_eq _ next time)]
  rw [RunState.entities_enrolled] at hlookup
  exact hlookup

theorem record_eq (o : Options) (action : Action) (previous : Option Snapshot)
    (invalid : Option InvalidAction) :
    record o action previous next invalid s =
      .ok (.recorded (.build action previous next) invalid)
        (s.recorded o action previous next) := by
  unfold record RunState.recorded MemoryStore.written
  cases h : o.applyState with
  | false => rfl
  | true => rfl

section process
variable {plan : Plan} {action : Action} {next : Snapshot} {time : Instant}
  {s : RunState MemoryStore}

theorem process_of_skip {stored : Int64} (hc : check next = .ok time)
    (hv : plan.options.verdict action s.store.entities[next.key]? next = .skip stored) :
    process plan action next s =
      .ok (.skipped next.key next.version stored)
        ((s.enrolled next time).skipped next stored) := by
  rw [process_of_enroll hc (enroll_eq s next time)]
  simp only [mapFailure, settle, hv]

theorem process_of_refuse {i : InvalidAction} (hc : check next = .ok time)
    (hv : plan.options.verdict action s.store.entities[next.key]? next = .refuse i) :
    process plan action next s =
      .error (inContext plan.runId next (Refusal.invalidAction i).toFailure)
        ((s.enrolled next time).flagged plan.options.policy (some i)) := by
  rw [process_of_enroll hc (enroll_eq s next time)]
  simp only [mapFailure, settle, hv]

theorem process_of_record {i : Option InvalidAction} (hc : check next = .ok time)
    (hv : plan.options.verdict action s.store.entities[next.key]? next = .record i) :
    process plan action next s =
      .ok (.recorded (.build action s.store.entities[next.key]? next) i)
        (((s.enrolled next time).flagged plan.options.policy i).recorded plan.options action
          s.store.entities[next.key]? next) := by
  rw [process_of_enroll hc (enroll_eq s next time)]
  simp only [mapFailure, settle, hv, record_eq]

/-- What may become of a change. -/
theorem process_cases (plan : Plan) (action : Action) (next : Snapshot)
    (s : RunState MemoryStore) :
    (∃ f, check next = .error f ∧
      process plan action next s = .error (inContext plan.runId next f) s) ∨
    ∃ time, check next = .ok time ∧
      ((∃ stored,
        plan.options.verdict action s.store.entities[next.key]? next = .skip stored ∧
        process plan action next s =
          .ok (.skipped next.key next.version stored)
            ((s.enrolled next time).skipped next stored)) ∨
      (∃ i,
        plan.options.verdict action s.store.entities[next.key]? next = .refuse i ∧
        process plan action next s =
          .error (inContext plan.runId next (Refusal.invalidAction i).toFailure)
            ((s.enrolled next time).flagged plan.options.policy (some i))) ∨
      (∃ i,
        plan.options.verdict action s.store.entities[next.key]? next = .record i ∧
        process plan action next s =
          .ok (.recorded (.build action s.store.entities[next.key]? next) i)
            (((s.enrolled next time).flagged plan.options.policy i).recorded plan.options action
              s.store.entities[next.key]? next))) := by
  cases hc : check next with
  | error f => exact .inl ⟨f, rfl, process_of_check_error hc s⟩
  | ok time =>
    refine .inr ⟨time, rfl, ?_⟩
    cases hv : plan.options.verdict action s.store.entities[next.key]? next with
    | skip stored => exact .inl ⟨stored, rfl, process_of_skip hc hv⟩
    | refuse i => exact .inr (.inl ⟨i, rfl, process_of_refuse hc hv⟩)
    | record i => exact .inr (.inr ⟨i, rfl, process_of_record hc hv⟩)

end process

theorem recompute_eq (m : MemoryStore) (id : Int64) (h : id ∈ m.changesets) :
    Ledger.naming id (Store.recompute id) m = .ok () (m.recounted id) := by
  obtain ⟨c, hc⟩ := Option.isSome_iff_exists.1 (Std.ExtTreeMap.mem_iff_isSome_getElem?.1 h)
  -- The changeset is there, so to write its recount is to modify it.
  have hinsert : m.changesets.insert id (m.recount id c) =
      m.changesets.modify id (m.recount id) := by
    apply Std.ExtTreeMap.ext_getElem?
    intro x
    rw [Std.ExtTreeMap.getElem?_insert, Std.ExtTreeMap.getElem?_modify]
    split
    · next e =>
      rw [hc]
      rfl
    · rfl
  have hstep : Store.recompute id m = .ok () (m.recounted id) := by
    change MemoryStore.recompute id m = _
    unfold MemoryStore.recompute MemoryStore.recounted
    simp only [hc]
    rw [← hinsert]
    rfl
  unfold Ledger.naming
  rw [hstep]

/-- Counting again succeeds as long as the changesets are there. -/
theorem recompute_all_eq (ids : List Int64) (m : MemoryStore)
    (h : ∀ id ∈ ids, id ∈ m.changesets) :
    (ids.forM fun id => Ledger.naming id (Store.recompute id) : Step MemoryStore Unit) m =
      .ok () (m.recountedAll ids) := by
  induction ids generalizing m with
  | nil => rfl
  | cons id ids ih =>
    have hstep := recompute_eq m id (h id List.mem_cons_self)
    refine (bind_of_ok _ hstep).trans (ih _ fun x hx => ?_)
    exact (m.mem_changesets_recounted id).2 (h x (List.mem_cons_of_mem _ hx))

/-- The end of a run whose touched changesets are all there. -/
theorem finalize_eq (plan : Plan) (s : RunState MemoryStore)
    (h : ∀ id ∈ s.ledger.touched.toList, id ∈ s.store.changesets) :
    finalize plan s =
      .ok { runId := plan.runId, stats := s.stats, changesets := s.ledger.touched.toList }
        { s with
          store := s.store.recountedAll s.ledger.touched.toList
          ledger := { s.ledger with touched := .empty } } := by
  have hget : (get : Run MemoryStore _) s = .ok s s := rfl
  have hledger : s.ledger.finalize s.store =
      .ok (s.ledger.touched.toList, { s.ledger with touched := .empty })
        (s.store.recountedAll s.ledger.touched.toList) :=
    bind_of_ok _ (recompute_all_eq _ _ h)
  exact mapFailure_of_ok ((bind_of_ok _ hget).trans (bind_of_ok _ (onStore_of_ok hledger)))

end Run

end MapAudit
