import MapAudit.Proofs.Database.Statement
import MapAudit.Proofs.Run.Stages

namespace MapAudit

inductive Write where
  | save (s : Snapshot)
  | createChangeset (c : Changeset)
  | recompute (id : Int64)
  | persist (r : ChangeRecord)
  | addUser (u : User)
  | updateUser (u : User)

namespace Write

def step [Store σ] : Write → Step σ Unit
  | save s => Store.save s
  | createChangeset c => Store.createChangeset c
  | recompute id => Store.recompute id
  | persist r => Store.persist r
  | addUser u => Store.addUser u
  | updateUser u => Store.updateUser u

def all [Store σ] (ws : List Write) : Step σ Unit := ws.forM step

section all
variable {σ : Type} [Store σ] {w : Write} {ws ws' : List Write} {s s' : σ} {u : Unit}

theorem all_cons_eq_ok (h : all (w :: ws) s = .ok u s') :
    ∃ s₁, w.step s = .ok () s₁ ∧ all ws s₁ = .ok () s' := by
  obtain ⟨_, s₁, hw, hws⟩ := bind_eq_ok h
  exact ⟨s₁, hw, hws⟩

theorem all_cons_of_ok {s₁ : σ} (h : w.step s = .ok () s₁) (ws : List Write) :
    all (w :: ws) s = all ws s₁ :=
  bind_of_ok _ h

theorem all_singleton (h : w.step s = .ok () s') : all [w] s = .ok () s' :=
  all_cons_of_ok h []

theorem all_append {s₁ : σ} (h : all ws s = .ok () s₁) (h' : all ws' s₁ = .ok () s') :
    all (ws ++ ws') s = .ok () s' := by
  induction ws generalizing s with
  | nil =>
    cases h
    exact h'
  | cons w ws ih =>
    obtain ⟨s₂, hw, hws⟩ := all_cons_eq_ok h
    rw [List.cons_append, all_cons_of_ok hw]
    exact ih hws

/-- What a granted write keeps is kept by all. -/
theorem keeps_all {P : σ → Prop} (hkeep : ∀ (w : Write) (s s' : σ), w.step s = .ok () s' → P s → P s')
    (h : all ws s = .ok u s') (hs : P s) : P s' := by
  induction ws generalizing s with
  | nil =>
    cases h
    exact hs
  | cons w ws ih =>
    obtain ⟨s₁, hw, hws⟩ := all_cons_eq_ok h
    exact ih hws (hkeep w s s₁ hw hs)

/-- What each granted write may add to a list is added by all, in their order. -/
theorem adds_all {α : Type} {P : List α → σ → Prop} (added? : Write → Option α)
    (hadd : ∀ (as : List α) (w : Write) (s s' : σ), w.step s = .ok () s' → P as s →
      P (as ++ (added? w).toList) s')
    (h : all ws s = .ok u s') {as : List α} (hs : P as s) : P (as ++ ws.filterMap added?) s' := by
  induction ws generalizing s as with
  | nil =>
    cases h
    rw [List.filterMap_nil, List.append_nil]
    exact hs
  | cons w ws ih =>
    obtain ⟨s₁, hw, hws⟩ := all_cons_eq_ok h
    have hrest := ih hws (hadd as w s s₁ hw hs)
    have hcons : (w :: ws).filterMap added? = (added? w).toList ++ ws.filterMap added? := by
      rw [List.filterMap_cons]
      cases added? w <;> rfl
    rw [hcons, ← List.append_assoc]
    exact hrest

end all

/-- Makes writes one after another, whether they are granted or not. Those that were granted go along. -/
def attempt [Store σ] (s : σ) : List Write → List Write × σ
  | [] => ([], s)
  | w :: ws =>
    match w.step s with
    | .ok _ s' => (w :: (attempt s' ws).1, (attempt s' ws).2)
    | .error _ s' => attempt s' ws

end Write

namespace Database
variable {db db' : Database}

/-- What a granted write has done to the tables, under the conditions on which it is granted. -/
inductive Granted (db : Database) : Write → Database → Prop where
  | save {s : Snapshot} {entities : EntityTable} (ht : db.entities = some entities)
      (hversion : ¬s.version < 1) :
      Granted db (.save s) { db with entities := some (entities.save s.key (.ofSnapshot s)) }
  | createChangeset {c : Changeset} {changesets : Std.ExtTreeMap Int64 ChangesetRow}
      (ht : db.changesets = some changesets) (hnew : c.id ∉ changesets) :
      Granted db (.createChangeset c)
        { db with changesets := some (changesets.insert c.id (.ofChangeset c)) }
  | recompute {id : Int64} {changesets : Std.ExtTreeMap Int64 ChangesetRow} {log : ChangeLog}
      {row : ChangesetRow} (ht : db.changesets = some changesets) (hl : db.changes = some log)
      (hrow : changesets[id]? = some row) :
      Granted db (.recompute id)
        { db with changesets := some (changesets.insert id (recountRow log row)) }
  | persist {r : ChangeRecord} {time : Time.Instant}
      {changesets : Std.ExtTreeMap Int64 ChangesetRow} {log : ChangeLog} {number : Int}
      (ht : db.changesets = some changesets) (hl : db.changes = some log)
      (htime : r.timestamp = some time) (hnumber : log.nextId? = some number)
      (href : r.changesetId ∈ changesets) :
      Granted db (.persist r)
        { db with changes := some (log.append (.ofRecord number r time)) }
  | addUser {u : User} {users : Std.ExtTreeMap Int64 String} (ht : db.users = some users)
      (hnew : u.id ∉ users) :
      Granted db (.addUser u) { db with users := some (users.insert u.id u.name) }
  | updateUser {u : User} {users : Std.ExtTreeMap Int64 String} (ht : db.users = some users) :
      Granted db (.updateUser u) { db with users := some (users.modify u.id fun _ => u.name) }

theorem table_eq_ok {α : Type} {name : String} {t : Option α} {a : α}
    (h : table name t = .ok a) : t = some a := by
  cases t with
  | none => cases h
  | some b =>
    cases h
    rfl

theorem timeOf_eq_ok {r : ChangeRecord} {time : Time.Instant} (h : timeOf r = .ok time) :
    r.timestamp = some time := by
  unfold timeOf at h
  split at h
  · next t ht =>
    cases h
    exact ht
  · cases h

section granted
variable {u : Unit}

theorem granted_save {s : Snapshot} (h : Store.save s db = .ok u db') :
    db.Granted (.save s) db' := by
  have hs : db.saveEntity s = .ok db' := Except.mapError_eq_ok (writing_eq_ok h)
  obtain ⟨entities, ht, -⟩ := Except.bind_eq_ok hs
  have ht := table_eq_ok ht
  rw [saveEntity_eq ht] at hs
  split at hs
  · cases hs
  · next hversion =>
    cases hs
    exact .save ht hversion

theorem granted_createChangeset {c : Changeset} (h : Store.createChangeset c db = .ok u db') :
    db.Granted (.createChangeset c) db' := by
  have hs : db.addChangeset c = .ok db' := Except.mapError_eq_ok (writing_eq_ok h)
  obtain ⟨changesets, ht, -⟩ := Except.bind_eq_ok hs
  have ht := table_eq_ok ht
  rw [addChangeset_eq ht] at hs
  split at hs
  · cases hs
  · next hnew =>
    cases hs
    exact .createChangeset ht hnew

theorem granted_recompute {id : Int64} (h : Store.recompute id db = .ok u db') :
    db.Granted (.recompute id) db' := by
  have hs : db.recount id = .ok db' := Except.mapError_eq_ok (writing_eq_ok h)
  obtain ⟨changesets, ht, hrest⟩ := Except.bind_eq_ok hs
  obtain ⟨log, hl, -⟩ := Except.bind_eq_ok hrest
  have ht := table_eq_ok ht
  have hl := table_eq_ok hl
  rw [recount_eq ht hl] at hs
  split at hs
  · next row hrow =>
    cases hs
    exact .recompute ht hl hrow
  · cases hs

theorem granted_persist {r : ChangeRecord} (h : Store.persist r db = .ok u db') :
    db.Granted (.persist r) db' := by
  obtain ⟨time, htime, hs⟩ := Except.bind_eq_ok (writing_eq_ok h)
  have hs : db.addChange r time = .ok db' := Except.mapError_eq_ok hs
  obtain ⟨log, hl, hrest⟩ := Except.bind_eq_ok hs
  obtain ⟨number, -, hrest⟩ := Except.bind_eq_ok hrest
  obtain ⟨_, -, hrest⟩ := Except.bind_eq_ok hrest
  obtain ⟨_, -, hrest⟩ := Except.bind_eq_ok hrest
  obtain ⟨_, hreference, -⟩ := Except.bind_eq_ok hrest
  obtain ⟨changesets, ht, -⟩ := Except.bind_eq_ok hreference
  have ht := table_eq_ok ht
  have hl := table_eq_ok hl
  rw [addChange_eq ht hl] at hs
  split at hs
  · cases hs
  · next hnumber =>
    split at hs
    · next href =>
      cases hs
      exact .persist ht hl (timeOf_eq_ok htime) hnumber href
    · cases hs

theorem granted_addUser {user : User} (h : Store.addUser user db = .ok u db') :
    db.Granted (.addUser user) db' := by
  have hs : db.addUser user = .ok db' := writing_eq_ok h
  obtain ⟨users, ht, -⟩ := Except.bind_eq_ok hs
  have ht := table_eq_ok ht
  rw [addUser_eq ht] at hs
  split at hs
  · cases hs
  · next hnew =>
    cases hs
    exact .addUser ht hnew

theorem granted_updateUser {user : User} (h : Store.updateUser user db = .ok u db') :
    db.Granted (.updateUser user) db' := by
  have hs : db.renameUser user = .ok db' := writing_eq_ok h
  obtain ⟨users, ht, -⟩ := Except.bind_eq_ok hs
  have ht := table_eq_ok ht
  rw [renameUser_eq ht] at hs
  cases hs
  exact .updateUser ht

theorem granted_of_step {w : Write} (h : w.step db = .ok u db') : db.Granted w db' := by
  cases w with
  | save s => exact granted_save h
  | createChangeset c => exact granted_createChangeset h
  | recompute id => exact granted_recompute h
  | persist r => exact granted_persist h
  | addUser user => exact granted_addUser h
  | updateUser user => exact granted_updateUser h

end granted

/-- A write that is refused leaves the database as it is. -/
theorem eq_of_step_eq_error {w : Write} {f : Failure} (h : w.step db = .error f db') : db' = db := by
  obtain ⟨statement, hstep⟩ : ∃ statement, w.step = writing statement := by
    cases w <;> exact ⟨_, rfl⟩
  rw [hstep] at h
  exact writing_error_eq h

/-- The granted ones among any writes are granted without the others too. -/
theorem all_attempt (db : Database) (ws : List Write) :
    Write.all (Write.attempt db ws).1 db = .ok () (Write.attempt db ws).2 := by
  induction ws generalizing db with
  | nil => rfl
  | cons w ws ih =>
    unfold Write.attempt
    split
    · next hw =>
      rw [Write.all_cons_of_ok hw]
      exact ih _
    · next hw =>
      rw [eq_of_step_eq_error hw]
      exact ih db

def Has (db : Database) (id : Int64) : Prop :=
  ∃ changesets, db.changesets = some changesets ∧ id ∈ changesets

theorem Has.congr {id : Int64} (h : db.Has id) (hc : db'.changesets = db.changesets) :
    db'.Has id := by
  obtain ⟨changesets, ht, hid⟩ := h
  exact ⟨changesets, hc.trans ht, hid⟩

theorem Has.insert {id : Int64} (h : db.Has id)
    {changesets : Std.ExtTreeMap Int64 ChangesetRow} (ht : db.changesets = some changesets)
    (x : Int64) (row : ChangesetRow) :
    { db with changesets := some (changesets.insert x row) }.Has id := by
  obtain ⟨changesets', ht', hid⟩ := h
  rw [ht] at ht'
  cases ht'
  exact ⟨_, rfl, Std.ExtTreeMap.mem_insert.2 (.inr hid)⟩

/-- No write loses a changeset. -/
theorem Has.granted {id : Int64} (h : db.Has id) {w : Write} (hw : db.Granted w db') :
    db'.Has id := by
  cases hw with
  | save | persist | addUser | updateUser => exact h.congr rfl
  | createChangeset ht => exact h.insert ht _ _
  | recompute ht => exact h.insert ht _ _

theorem has_of_hasChangeset {id : Int64} (h : db.hasChangeset id = .ok true) : db.Has id := by
  obtain ⟨changesets, ht, -⟩ := Except.bind_eq_ok h
  have ht := table_eq_ok ht
  rw [hasChangeset_eq ht] at h
  exact ⟨changesets, ht, Std.ExtTreeMap.mem_iff_contains.2 (Except.ok.inj h)⟩

theorem has_of_createChangeset {c : Changeset} (h : db.Granted (.createChangeset c) db') :
    db'.Has c.id := by
  cases h
  exact ⟨_, rfl, Std.ExtTreeMap.mem_insert_self⟩

theorem Has.all {id : Int64} (h : db.Has id) {ws : List Write} {u : Unit}
    (hws : Write.all ws db = .ok u db') : db'.Has id :=
  Write.keeps_all (P := (·.Has id)) (fun _ _ _ hw h => h.granted (granted_of_step hw)) hws h

end Database

/-- What a step that goes through has done to the database are granted writes. -/
def Step.Writes (step : Step Database α) : Prop :=
  ∀ db a db', step db = .ok a db' → ∃ ws, Write.all ws db = .ok () db'

namespace Step
variable {α β : Type}
open Database

theorem writes_pure (a : α) : Writes (pure a) := by
  intro db b db' h
  cases h
  exact ⟨[], rfl⟩

theorem writes_asking (f : Database → Except Failure α) : Writes (asking f) := by
  intro db a db' h
  obtain ⟨-, rfl⟩ := asking_eq_ok h
  exact ⟨[], rfl⟩

theorem writes_step (w : Write) : Writes w.step :=
  fun _ _ _ h => ⟨[w], Write.all_singleton h⟩

theorem Writes.bind {x : Step Database α} {f : α → Step Database β} (hx : Writes x)
    (hf : ∀ a, Writes (f a)) : Writes (x >>= f) := by
  intro db b db' h
  obtain ⟨a, db₁, hok, h⟩ := bind_eq_ok h
  obtain ⟨ws, hws⟩ := hx db a db₁ hok
  obtain ⟨ws', hws'⟩ := hf a db₁ b db' h
  exact ⟨ws ++ ws', Write.all_append hws hws'⟩

theorem writes_bringUpToDate (u : User) : Writes (Authors.bringUpToDate u) := by
  refine Writes.bind (writes_asking _) fun stored => ?_
  cases stored with
  | none => exact Writes.bind (writes_step (.addUser u)) fun _ => writes_pure _
  | some stored =>
    dsimp only
    split
    · exact writes_pure _
    · exact Writes.bind (writes_step (.updateUser u)) fun _ => writes_pure _

theorem writes_authors (authors : Authors) (user : Option User) : Writes (authors.ensure user) := by
  cases user with
  | none => exact writes_pure _
  | some u =>
    unfold Authors.ensure
    dsimp only
    split
    · exact writes_pure _
    · exact Writes.bind (writes_bringUpToDate u) fun _ => writes_pure _

theorem writes_ledger (l : Ledger) (id userId : Int64) (time : Time.Instant) :
    Writes (l.ensure id userId time) := by
  unfold Ledger.ensure
  split
  · exact writes_pure _
  · refine Writes.bind (writes_asking _) fun found => ?_
    cases found with
    | true => exact Writes.bind (writes_pure _) fun _ => writes_pure _
    | false =>
      refine Writes.bind (writes_step (.createChangeset ⟨id, userId, time, none, 0⟩)) fun _ => ?_
      exact Writes.bind (writes_pure _) fun _ => writes_pure _

end Step

end MapAudit
