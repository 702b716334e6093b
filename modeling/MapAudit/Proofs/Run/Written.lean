import MapAudit.Proofs.Database.Writes
import MapAudit.Proofs.Run.Committed

namespace MapAudit
open Database

/-- What a part of a run that goes through has done to the database are granted writes. -/
def Run.Writes (run : Run Database α) : Prop :=
  ∀ s a s', run s = .ok a s' → ∃ ws, Write.all ws s.store = .ok () s'.store

namespace Run

section writes
variable {α β : Type}

theorem writes_of_store {run : Run Database α}
    (h : ∀ s a s', run s = .ok a s' → s'.store = s.store) : Writes run := by
  intro s a s' hrun
  exact ⟨[], congrArg (EStateM.Result.ok ()) (h s a s' hrun).symm⟩

theorem writes_pure (a : α) : Writes (pure a) := by
  refine writes_of_store fun s b s' h => ?_
  cases h
  rfl

theorem writes_get : Writes get := by
  refine writes_of_store fun s b s' h => ?_
  cases h
  rfl

theorem writes_modify {f : RunState Database → RunState Database}
    (h : ∀ s, (f s).store = s.store) : Writes (modify f) := by
  refine writes_of_store fun s b s' hf => ?_
  cases hf
  exact h s

theorem Writes.bind {x : Run Database α} {f : α → Run Database β} (hx : Writes x)
    (hf : ∀ a, Writes (f a)) : Writes (x >>= f) := by
  intro s b s' h
  obtain ⟨a, s₁, hok, h⟩ := bind_eq_ok h
  obtain ⟨ws, hws⟩ := hx s a s₁ hok
  obtain ⟨ws', hws'⟩ := hf a s₁ b s' h
  exact ⟨ws ++ ws', Write.all_append hws hws'⟩

theorem writes_onStore {step : Step Database α} (h : step.Writes) : Writes (onStore step) := by
  intro s a s' hrun
  obtain ⟨db, hstep, rfl⟩ := onStore_eq_ok hrun
  exact h s.store a db hstep

end writes

theorem writes_ensureAuthor (user : Option User) : Writes (ensureAuthor user) := by
  refine writes_get.bind fun s => ?_
  refine (writes_onStore (Step.writes_authors s.authors user)).bind fun r => ?_
  exact writes_modify fun _ => rfl

theorem writes_ensureChangeset (next : Snapshot) (time : Time.Instant) :
    Writes (ensureChangeset next time) := by
  refine writes_get.bind fun s => ?_
  refine (writes_onStore (Step.writes_ledger s.ledger _ _ time)).bind ?_
  rintro ⟨ensured, evicted, ledger⟩
  have hledger : Writes (modify fun s => { s with ledger }) := writes_modify fun _ => rfl
  refine hledger.bind fun _ => ?_
  cases evicted with
  | none => exact writes_pure _
  | some id => exact writes_modify fun _ => rfl

theorem writes_record (o : Options) (action : Action) (previous : Option Snapshot)
    (next : Snapshot) (invalid : Option InvalidAction) :
    Writes (record o action previous next invalid) := by
  have hcount : Writes (count fun n => { n with processed := n.processed + 1 }) :=
    writes_modify fun _ => rfl
  refine (writes_onStore (Step.writes_step (.persist _))).bind fun _ => ?_
  split
  · refine (writes_onStore (Step.writes_step (.save _))).bind fun _ => ?_
    exact hcount.bind fun _ => writes_pure _
  · exact hcount.bind fun _ => writes_pure _

theorem writes_settle (o : Options) (action : Action) (next : Snapshot)
    (previous : Option Snapshot) : Writes (settle o action next previous) := by
  intro s outcome s' h
  unfold settle at h
  split at h
  · cases h
    exact ⟨[], rfl⟩
  · cases h
  · next i _ =>
    have hrecord := writes_record o action previous next i _ _ _ h
    rwa [RunState.store_flagged] at hrecord

end Run

/-- The remembered and the touched changesets are in the database. -/
structure RunState.Held (s : RunState Database) : Prop where
  window : ∀ id ∈ s.ledger.window.toList, s.store.Has id
  touched : ∀ id ∈ s.ledger.touched.toList, s.store.Has id

namespace RunState.Held
variable {s s' : RunState Database}

theorem start (plan : Plan) (db : Database) : (plan.start db).Held where
  window id h := by cases h
  touched id h := by cases h

/-- Writes lose no changeset, so the same ledger still holds. -/
theorem of_writes (h : s.Held) {ws : List Write} (hws : Write.all ws s.store = .ok () s'.store)
    (hl : s'.ledger = s.ledger) : s'.Held where
  window id hid := (h.window id (hl ▸ hid)).all hws
  touched id hid := (h.touched id (hl ▸ hid)).all hws

end RunState.Held

/-- A ledger that makes sure of a changeset remembers only what the database has. -/
theorem Ledger.ensure_has {l : Ledger} {id userId : Int64} {time : Time.Instant}
    {db db' : Database} {r : Ensured × Option Int64 × Ledger}
    (h : l.ensure id userId time db = .ok r db')
    (hwindow : ∀ x ∈ l.window.toList, db.Has x) :
    db'.Has id ∧ (∀ x ∈ r.2.2.window.toList, db'.Has x) ∧ r.2.2.touched = l.touched := by
  have hinsert (hid : db'.Has id) (hkeep : ∀ x, db.Has x → db'.Has x) :
      ∀ x ∈ (l.window.insert id).2.toList, db'.Has x := by
    intro x hx
    rcases Window.mem_of_mem_insert hx with hx | rfl
    · exact hkeep x (hwindow x hx)
    · exact hid
  -- The window answers, or the store has the changeset, or it is created.
  unfold ensure at h
  split at h
  · next hc =>
    cases h
    exact ⟨hwindow id (Window.contains_iff_mem.1 hc), hwindow, rfl⟩
  · obtain ⟨found, db₁, hexists, h⟩ := bind_eq_ok h
    obtain ⟨hfound, rfl⟩ := asking_eq_ok hexists
    cases found with
    | true =>
      cases h
      have hid := has_of_hasChangeset (Except.mapError_eq_ok hfound)
      exact ⟨hid, hinsert hid fun _ hx => hx, rfl⟩
    | false =>
      obtain ⟨_, db₂, hcreate, h⟩ := bind_eq_ok h
      cases h
      have hgranted := granted_createChangeset hcreate
      have hid := has_of_createChangeset hgranted
      exact ⟨hid, hinsert hid fun _ hx => hx.granted hgranted, rfl⟩

namespace Run
variable {s s' : RunState Database} {next : Snapshot} {time : Time.Instant}

theorem ledger_ensureAuthor {user : Option User} {u : Unit}
    (h : ensureAuthor user s = .ok u s') : s'.ledger = s.ledger := by
  obtain ⟨s₀, s₁, hget, h⟩ := bind_eq_ok h
  cases hget
  obtain ⟨⟨write, authors⟩, s₁, hensure, h⟩ := bind_eq_ok h
  cases h
  obtain ⟨db, -, rfl⟩ := onStore_eq_ok hensure
  rfl

/-- What making sure of a changeset has done to the run. -/
theorem ensureChangeset_eq_ok {u : Unit} (h : ensureChangeset next time s = .ok u s') :
    ∃ ensured evicted ledger,
      s.ledger.ensure next.changesetId (next.user.elim anonymousUserId (·.id)) time s.store =
        .ok (ensured, evicted, ledger) s'.store ∧ s'.ledger = ledger := by
  obtain ⟨s₀, s₁, hget, h⟩ := bind_eq_ok h
  cases hget
  obtain ⟨⟨ensured, evicted, ledger⟩, s₁, hensure, h⟩ := bind_eq_ok h
  obtain ⟨db, hstep, rfl⟩ := onStore_eq_ok hensure
  obtain ⟨_, s₁, hmodify, h⟩ := bind_eq_ok h
  cases hmodify
  refine ⟨ensured, evicted, ledger, ?_⟩
  cases evicted <;> cases h <;> exact ⟨hstep, rfl⟩

theorem held_enroll {previous : Option Snapshot} (h : enroll next time s = .ok previous s')
    (hs : s.Held) : s'.Held := by
  obtain ⟨_, s₁, hauthor, h⟩ := bind_eq_ok h
  obtain ⟨_, s₂, hchangeset, h⟩ := bind_eq_ok h
  obtain ⟨_, s₃, htouch, h⟩ := bind_eq_ok h
  cases htouch
  obtain ⟨db, hlookup, rfl⟩ := onStore_eq_ok h
  obtain ⟨-, rfl⟩ := asking_eq_ok hlookup
  obtain ⟨ws, hws⟩ := writes_ensureAuthor next.user s _ s₁ hauthor
  have hs₁ := hs.of_writes hws (ledger_ensureAuthor hauthor)
  obtain ⟨ws', hws'⟩ := writes_ensureChangeset next time s₁ _ s₂ hchangeset
  obtain ⟨ensured, evicted, ledger, hensure, rfl⟩ := ensureChangeset_eq_ok hchangeset
  obtain ⟨hid, hwindow, htouched⟩ := Ledger.ensure_has hensure hs₁.window
  refine ⟨hwindow, fun id hmem => ?_⟩
  rcases IdQueue.mem_insert.1 hmem with hmem | rfl
  · rw [htouched] at hmem
    exact (hs₁.touched id hmem).all hws'
  · exact hid

theorem ledger_record {o : Options} {action : Action} {previous : Option Snapshot}
    {invalid : Option InvalidAction} {outcome : Outcome}
    (h : record o action previous next invalid s = .ok outcome s') : s'.ledger = s.ledger := by
  obtain ⟨_, s₁, hpersist, h⟩ := bind_eq_ok h
  obtain ⟨db, -, rfl⟩ := onStore_eq_ok hpersist
  split at h
  · obtain ⟨_, s₂, hsave, h⟩ := bind_eq_ok h
    obtain ⟨db', -, rfl⟩ := onStore_eq_ok hsave
    cases h
    rfl
  · cases h
    rfl

theorem ledger_settle {o : Options} {action : Action} {previous : Option Snapshot}
    {outcome : Outcome} (h : settle o action next previous s = .ok outcome s') :
    s'.ledger = s.ledger := by
  unfold settle at h
  split at h
  · cases h
    rfl
  · cases h
  · rw [ledger_record h, RunState.ledger_flagged]

theorem held_process {plan : Plan} {action : Action} {outcome : Outcome}
    (h : process plan action next s = .ok outcome s') (hs : s.Held) : s'.Held := by
  rw [process_eq] at h
  have hrun := mapFailure_eq_ok h
  split at hrun
  · cases hrun
  · obtain ⟨previous, s₁, henroll, hsettle⟩ := bind_eq_ok hrun
    obtain ⟨ws, hws⟩ := writes_settle plan.options action next previous s₁ _ s' hsettle
    exact (held_enroll henroll hs).of_writes hws (ledger_settle hsettle)

theorem held_items {plan : Plan} {is : List Stream.Item} {u : Unit}
    (h : items plan is s = .ok u s') (hs : s.Held) : s'.Held := by
  induction is generalizing s with
  | nil =>
    cases h
    exact hs
  | cons item is ih =>
    cases item with
    | error f => cases h
    | ok c =>
      obtain ⟨outcome, s₁, hprocess, h⟩ := bind_eq_ok h
      exact ih h (held_process hprocess hs)

/-- A changeset that is there can be recounted. -/
theorem recompute_of_has {db : Database} {log : ChangeLog} {id : Int64} (h : db.Has id)
    (hl : db.changes = some log) :
    ∃ db', Ledger.naming id (Store.recompute id) db = .ok () db' ∧
      db.Granted (.recompute id) db' ∧ db'.changes = some log := by
  obtain ⟨changesets, ht, hid⟩ := h
  obtain ⟨row, hrow⟩ := Option.isSome_iff_exists.1 (Std.ExtTreeMap.mem_iff_isSome_getElem?.1 hid)
  have hrecount : db.recount id =
      .ok { db with changesets := some (changesets.insert id (recountRow log row)) } := by
    rw [recount_eq ht hl, hrow]
  have hstep : Store.recompute id db =
      .ok () { db with changesets := some (changesets.insert id (recountRow log row)) } := by
    refine writing_of_ok ?_
    rw [hrecount]
    rfl
  refine ⟨_, ?_, .recompute ht hl hrow, hl⟩
  unfold Ledger.naming
  rw [hstep]

theorem recompute_all_of_has {ids : List Int64} {db : Database} {log : ChangeLog}
    (h : ∀ id ∈ ids, db.Has id) (hl : db.changes = some log) :
    ∃ db', (ids.forM fun id => Ledger.naming id (Store.recompute id) : Step Database Unit) db =
      .ok () db' := by
  induction ids generalizing db with
  | nil => exact ⟨db, rfl⟩
  | cons id ids ih =>
    obtain ⟨db₁, hstep, hgranted, hl₁⟩ := recompute_of_has (h id List.mem_cons_self) hl
    have hrest : ∀ x ∈ ids, db₁.Has x := fun x hx =>
      (h x (List.mem_cons_of_mem id hx)).granted hgranted
    obtain ⟨db', hall⟩ := ih hrest hl₁
    exact ⟨db', (bind_of_ok _ hstep).trans hall⟩

/-- What a run has touched is there in its end, so it can be finalized. -/
theorem exists_finalize_eq_ok (plan : Plan) (hs : s.Held) {log : ChangeLog}
    (hl : s.store.changes = some log) : ∃ report s', finalize plan s = .ok report s' := by
  obtain ⟨db, hall⟩ := recompute_all_of_has hs.touched hl
  have hget : (get : Run Database _) s = .ok s s := rfl
  have hledger : s.ledger.finalize s.store =
      .ok (s.ledger.touched.toList, { s.ledger with touched := .empty }) db :=
    bind_of_ok _ hall
  exact ⟨_, _, mapFailure_of_ok ((bind_of_ok _ hget).trans (bind_of_ok _ (onStore_of_ok hledger)))⟩

end Run

end MapAudit
