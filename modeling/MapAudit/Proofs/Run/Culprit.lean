import MapAudit.Proofs.Change.Record
import MapAudit.Proofs.Database.Failures
import MapAudit.Proofs.Run.Faults
import MapAudit.Proofs.Run.Written

namespace MapAudit
open Time Database

namespace Failure

/-- The two tell of the same, whatever else they name. -/
structure Same (f g : Failure) : Prop where
  kind : f.kind = g.kind
  operation : f.operation = g.operation
  message : f.message = g.message
  causes : f.causes = g.causes

/-- The failure `g`, told with the entity, the changeset and the run that are given. -/
structure Tells (f g : Failure) (entity : Option EntityKey) (changesetId : Option Int64)
    (runId : RunId) : Prop extends Same f g where
  entity : f.entity = entity
  changesetId : f.changesetId = changesetId
  runId : f.runId = some runId

/-- A failure that names no entity and no changeset but those of the change. -/
structure Fits (f : Failure) (next : Snapshot) : Prop where
  entity : f.entity = none ∨ f.entity = some next.key
  changesetId : f.changesetId = none ∨ f.changesetId = some next.changesetId

namespace Fits
variable {f : Failure} {next : Snapshot}

theorem of_bare (h : f.Bare) (next : Snapshot) : f.Fits next := ⟨.inl h.entity, .inl h.changesetId⟩

theorem withEntity (h : f.Fits next) {key : EntityKey} (hkey : key = next.key) :
    (f.withEntity key).Fits next :=
  ⟨.inr (congrArg some hkey), h.changesetId⟩

theorem withChangeset (h : f.Fits next) {id : Int64} (hid : id = next.changesetId) :
    (f.withChangeset id).Fits next :=
  ⟨h.entity, .inr (congrArg some hid)⟩

/-- The context names what the failure does not name itself, and the run. -/
theorem tells_inContext (h : f.Fits next) {g : Failure} (hsame : f.Same g) (runId : RunId) :
    (Run.inContext runId next f).Tells g (some next.key) (some next.changesetId) runId where
  kind := hsame.kind
  operation := hsame.operation
  message := hsame.message
  causes := hsame.causes
  entity := by
    change (f.entity <|> some next.key) = some next.key
    rcases h.entity with e | e <;> rw [e] <;> rfl
  changesetId := by
    change (f.changesetId <|> some next.changesetId) = some next.changesetId
    rcases h.changesetId with e | e <;> rw [e] <;> rfl
  runId := rfl

end Fits

end Failure

/-- No refusal of input names a changeset. -/
theorem Refusal.changesetId_toFailure (r : Refusal) : r.toFailure.changesetId = none := by
  cases r <;> rfl

namespace Stream
variable {reason : String → String}

/-- What the reader fails of names no changeset. -/
theorem changesetId_of_parse {number : Nat} {text : String} {f : Failure}
    (h : parse reason number text = .error f) : f.changesetId = none := by
  unfold parse at h
  split at h
  · cases h
    rfl
  · split at h
    · cases h
    · next r _ =>
      cases h
      exact r.changesetId_toFailure

theorem changesetId_of_step {p : Progress} {line : Bytes} {f : Failure}
    (hp : ∀ g, .error g ∈ p.items → g.changesetId = none)
    (h : .error f ∈ (p.step reason line).items) : f.changesetId = none := by
  unfold Progress.step at h
  split at h
  · rcases List.mem_cons.1 h with h | h
    · cases h
      rfl
    · exact hp f h
  · dsimp only at h
    split at h
    · exact hp f h
    · rcases List.mem_cons.1 h with h | h
      · exact changesetId_of_parse h.symm
      · exact hp f h

theorem changesetId_of_mem_items {bs : Bytes} {f : Failure} (h : .error f ∈ items bs reason) :
    f.changesetId = none := by
  have hfold (ls : List Bytes) (p : Progress)
      (hp : ∀ g, .error g ∈ p.items → g.changesetId = none) :
      ∀ g, .error g ∈ (ls.foldl (Progress.step reason) p).items → g.changesetId = none := by
    induction ls generalizing p with
    | nil => exact hp
    | cons line ls ih => exact ih (p.step reason line) fun g hg => changesetId_of_step hp hg
  exact hfold (lines bs) {} (fun g hg => by cases hg) f (List.mem_reverse.1 h)

end Stream

/-- What a change is rejected for, and where: in one of the checks, or in one of the steps that are made
for it, all steps before having gone through. The failure is given as it arises there, before anything
is added to it. -/
inductive Run.Trips (o : Options) (action : Action) (next : Snapshot) (s : RunState Database) :
    Failure → Prop where
  | check {g : Failure} (h : check next = .error g) : Trips o action next s g
  | author {time : Instant} {u : User} {g : Failure} {db : Database} (hc : check next = .ok time)
      (hu : next.user = some u) (hnew : ¬s.authors.seen.contains u.id = true)
      (h : Authors.bringUpToDate u s.store = .error g db) : Trips o action next s g
  | changeset {time : Instant} {s₁ : RunState Database} {g : Failure} (hc : check next = .ok time)
      (ha : ensureAuthor next.user s = .ok () s₁)
      (hw : ¬s₁.ledger.window.contains next.changesetId = true)
      (h : s₁.store.hasChangeset next.changesetId = .error g) : Trips o action next s g
  | opened {time : Instant} {s₁ : RunState Database} {g : Failure} (hc : check next = .ok time)
      (ha : ensureAuthor next.user s = .ok () s₁)
      (hw : ¬s₁.ledger.window.contains next.changesetId = true)
      (hnew : s₁.store.hasChangeset next.changesetId = .ok false)
      (h : s₁.store.addChangeset (next.opened time) = .error g) : Trips o action next s g
  | lookup {time : Instant} {s₁ s₂ : RunState Database} {g : Failure} (hc : check next = .ok time)
      (ha : ensureAuthor next.user s = .ok () s₁)
      (hchangeset : ensureChangeset next time s₁ = .ok () s₂)
      (h : s₂.store.entity? next.key = .error g) : Trips o action next s g
  | conflict {time : Instant} {s₁ : RunState Database} {previous : Option Snapshot}
      {i : InvalidAction} (hc : check next = .ok time) (he : enroll next time s = .ok previous s₁)
      (hp : o.policy = .stop) (h : invalid? action previous next = some i) :
      Trips o action next s (Refusal.invalidAction i).toFailure
  | persist {time : Instant} {s₁ : RunState Database} {previous : Option Snapshot}
      {i : Option InvalidAction} {g : Failure} (hc : check next = .ok time)
      (he : enroll next time s = .ok previous s₁)
      (hv : o.verdict action previous next = .record i)
      (h : s₁.store.addChange (.build action previous next) time = .error g) :
      Trips o action next s g
  | save {time : Instant} {s₁ : RunState Database} {previous : Option Snapshot}
      {i : Option InvalidAction} {g : Failure} {db : Database} (hc : check next = .ok time)
      (he : enroll next time s = .ok previous s₁)
      (hv : o.verdict action previous next = .record i)
      (hp : s₁.store.addChange (.build action previous next) time = .ok db)
      (happly : o.applyState = true) (h : db.saveEntity (action.leaves next) = .error g) :
      Trips o action next s g

namespace Run
variable {o : Options} {plan : Plan} {action : Action} {next : Snapshot} {time : Instant}
  {s s' : RunState Database} {f : Failure}

theorem ensureAuthor_eq_error {user : Option User} (h : ensureAuthor user s = .error f s') :
    ∃ u db, user = some u ∧ ¬s.authors.seen.contains u.id = true ∧
      Authors.bringUpToDate u s.store = .error f db := by
  rcases bind_eq_error h with h | ⟨s₀, s₁, hget, h⟩
  · cases h
  · cases hget
    rcases bind_eq_error h with h | ⟨_, _, -, h⟩
    · obtain ⟨db, hensure⟩ := onStore_eq_error h
      cases user with
      | none => cases hensure
      | some u =>
        unfold Authors.ensure at hensure
        dsimp only at hensure
        split at hensure
        · cases hensure
        · next hnew =>
          rcases bind_eq_error hensure with hup | ⟨_, _, -, hup⟩
          · exact ⟨u, db, rfl, hnew, hup⟩
          · cases hup
    · cases h

theorem ensureChangeset_eq_error (h : ensureChangeset next time s = .error f s') :
    ∃ g, f = g.withChangeset next.changesetId ∧
      ¬s.ledger.window.contains next.changesetId = true ∧
      (s.store.hasChangeset next.changesetId = .error g ∨
        s.store.hasChangeset next.changesetId = .ok false ∧
          s.store.addChangeset (next.opened time) = .error g) := by
  rcases bind_eq_error h with h | ⟨s₀, s₁, hget, h⟩
  · cases h
  · cases hget
    rcases bind_eq_error h with h | ⟨r, _, -, h⟩
    · obtain ⟨db, hensure⟩ := onStore_eq_error h
      unfold Ledger.ensure at hensure
      split at hensure
      · cases hensure
      · next hw =>
        rcases bind_eq_error hensure with hexists | ⟨found, db₁, hexists, hensure⟩
        · obtain ⟨g, hg, rfl⟩ := Except.mapError_eq_error (asking_eq_error hexists)
          exact ⟨g, rfl, hw, .inl hg⟩
        · obtain ⟨hfound, rfl⟩ := asking_eq_ok hexists
          cases found with
          | true => cases hensure
          | false =>
            rcases bind_eq_error hensure with hcreate | ⟨_, _, -, hensure⟩
            · obtain ⟨g, hg, rfl⟩ := Except.mapError_eq_error (writing_eq_error hcreate)
              exact ⟨g, rfl, hw, .inr ⟨Except.mapError_eq_ok hfound, hg⟩⟩
            · cases hensure
    · -- The store has answered: what follows is in the books alone and cannot fail.
      rcases bind_eq_error h with h | ⟨_, _, -, h⟩
      · cases h
      · obtain ⟨ensured, evicted, ledger⟩ := r
        cases evicted <;> cases h

theorem enroll_eq_error (hc : check next = .ok time) (h : enroll next time s = .error f s') :
    ∃ g, Trips o action next s g ∧ f.Fits next ∧ f.Same g := by
  rcases bind_eq_error h with h | ⟨_, s₁, ha, h⟩
  · obtain ⟨u, db, hu, hnew, hup⟩ := ensureAuthor_eq_error h
    exact ⟨f, .author hc hu hnew hup, .of_bare (Authors.bare_bringUpToDate hup) next,
      ⟨rfl, rfl, rfl, rfl⟩⟩
  rcases bind_eq_error h with h | ⟨_, s₂, hchangeset, h⟩
  · obtain ⟨g, rfl, hw, hg⟩ := ensureChangeset_eq_error h
    have hbare : g.Bare := by
      rcases hg with hg | ⟨-, hg⟩
      · exact bare_hasChangeset _ _ g hg
      · exact bare_addChangeset _ _ g hg
    refine ⟨g, ?_, (Failure.Fits.of_bare hbare next).withChangeset rfl, ⟨rfl, rfl, rfl, rfl⟩⟩
    rcases hg with hg | ⟨hnew, hg⟩
    · exact .changeset hc ha hw hg
    · exact .opened hc ha hw hnew hg
  rcases bind_eq_error h with h | ⟨_, s₃, htouch, h⟩
  · cases h
  · cases htouch
    obtain ⟨db, hlookup⟩ := onStore_eq_error h
    obtain ⟨g, hg, rfl⟩ := Except.mapError_eq_error (asking_eq_error hlookup)
    have hbare : g.Bare := bare_entity? _ _ g hg
    exact ⟨g, .lookup hc ha hchangeset hg, (Failure.Fits.of_bare hbare next).withEntity rfl,
      ⟨rfl, rfl, rfl, rfl⟩⟩

theorem record_eq_error {previous : Option Snapshot} {i : Option InvalidAction}
    (ht : next.timestamp = some time) (h : record o action previous next i s = .error f s') :
    ∃ g, f.Fits next ∧ f.Same g ∧
      (s.store.addChange (.build action previous next) time = .error g ∨
        ∃ db, s.store.addChange (.build action previous next) time = .ok db ∧
          o.applyState = true ∧ db.saveEntity (action.leaves next) = .error g) := by
  have htime : timeOf (.build action previous next) = .ok time := by
    unfold timeOf
    rw [ChangeRecord.timestamp_build, ht]
  rcases bind_eq_error h with h | ⟨_, s₁, hpersist, h⟩
  · obtain ⟨db, hpersist⟩ := onStore_eq_error h
    rcases Except.bind_eq_error (writing_eq_error hpersist) with hwrite | ⟨time', htime', hwrite⟩
    · rw [htime] at hwrite
      cases hwrite
    · -- The time was there already when the change was checked.
      rw [htime] at htime'
      cases htime'
      obtain ⟨g, hg, rfl⟩ := Except.mapError_eq_error hwrite
      have hfits : g.Fits next := .of_bare (bare_addChange _ _ _ g hg) next
      refine ⟨g, ?_, ⟨rfl, rfl, rfl, rfl⟩, .inl hg⟩
      exact (hfits.withEntity (ChangeRecord.key_build _ _ _)).withChangeset
        (ChangeRecord.changesetId_build _ _ _)
  · obtain ⟨db, hstep, rfl⟩ := onStore_eq_ok hpersist
    obtain ⟨time', htime', hwrite⟩ := Except.bind_eq_ok (writing_eq_ok hstep)
    rw [htime] at htime'
    cases htime'
    have hadd := Except.mapError_eq_ok hwrite
    split at h
    · next happly =>
      rcases bind_eq_error h with h | ⟨_, s₂, -, h⟩
      · obtain ⟨db', hsave⟩ := onStore_eq_error h
        obtain ⟨g, hg, rfl⟩ := Except.mapError_eq_error (writing_eq_error hsave)
        have hfits : g.Fits next := .of_bare (bare_saveEntity _ _ g hg) next
        exact ⟨g, hfits.withEntity (action.key_leaves next), ⟨rfl, rfl, rfl, rfl⟩,
          .inr ⟨db, hadd, happly, hg⟩⟩
      · cases h
    · cases h

theorem settle_eq_error {s₁ : RunState Database} {previous : Option Snapshot}
    (hc : check next = .ok time) (he : enroll next time s = .ok previous s₁)
    (h : settle o action next previous s₁ = .error f s') :
    ∃ g, Trips o action next s g ∧ f.Fits next ∧ f.Same g := by
  unfold settle at h
  split at h
  · cases h
  · next i hv =>
    cases h
    obtain ⟨hp, hi⟩ := Options.conflict_of_refuse hv
    have hkey : i.key = next.key := by
      obtain ⟨conflict, -, rfl⟩ := Option.map_eq_some_iff.1 hi
      rfl
    exact ⟨_, .conflict hc he hp hi, ⟨.inr (congrArg some hkey), .inl rfl⟩, ⟨rfl, rfl, rfl, rfl⟩⟩
  · next i hv =>
    obtain ⟨g, hfits, hsame, hg⟩ := record_eq_error (check_eq_ok hc).1 h
    rw [RunState.store_flagged] at hg
    refine ⟨g, ?_, hfits, hsame⟩
    rcases hg with hg | ⟨db, hadd, happly, hg⟩
    · exact .persist hc he hv hg
    · exact .save hc he hv hadd happly hg

/-- The recount at the end of a run goes through, so a run fails at an item. -/
theorem items_of_stream_error {is : List Stream.Item} (hs : s.Summarized) (hheld : s.Held)
    (h : stream plan is s = .error f s') : items plan is s = .error f s' := by
  rcases bind_eq_error h with hitems | ⟨_, s₁, hitems, hfinal⟩
  · exact hitems
  · obtain ⟨changesets, log, -, hl, -⟩ := (items_summarized hitems hs).audited
    obtain ⟨report, s₂, hok⟩ := exists_finalize_eq_ok plan (held_items hitems hheld) hl
    rw [hok] at hfinal
    cases hfinal

/-- A change is rejected for what it trips over, told with its entity, its changeset and the run. -/
theorem process_eq_error (h : process plan action next s = .error f s') :
    ∃ g, Trips plan.options action next s g ∧
      f.Tells g (some next.key) (some next.changesetId) plan.runId := by
  rw [process_eq] at h
  obtain ⟨f₀, hrun, rfl⟩ := mapFailure_eq_error h
  suffices hg : ∃ g, Trips plan.options action next s g ∧ f₀.Fits next ∧ f₀.Same g by
    obtain ⟨g, htrips, hfits, hsame⟩ := hg
    exact ⟨g, htrips, hfits.tells_inContext hsame plan.runId⟩
  split at hrun
  · next g hcheck =>
    cases hrun
    refine ⟨f₀, .check hcheck, ?_, ⟨rfl, rfl, rfl, rfl⟩⟩
    rcases check_eq_error hcheck with ⟨-, rfl⟩ | ⟨-, rfl⟩
    · exact ⟨.inr rfl, .inl rfl⟩
    · exact ⟨.inr rfl, .inl rfl⟩
  · next time hcheck =>
    rcases bind_eq_error hrun with henroll | ⟨previous, s₁, henroll, hsettle⟩
    · exact enroll_eq_error hcheck henroll
    · exact settle_eq_error hcheck henroll hsettle

end Run

/-- A failed run points at its first bad item. Whatever runs have left in the database, the failure
names this run and is that of the first item that could not be read or that is rejected, all items
before it having gone through and none after it having a say. If the item could not be read, the failure
is that of the reader, which names no changeset. If it is a change, the failure is what the change trips
over, told with the entity and the changeset of the change. -/
theorem failed_run_points_at_first_bad_item (runs : List (Plan × Bool × List Stream.Item))
    (plan : Plan) (dryRun : Bool) (is : List Stream.Item) {f : Failure}
    (h : (plan.apply (Database.fresh.afterRuns runs) dryRun is).result = .error f) :
    f.runId = some plan.runId ∧
      ∃ before item after s, is = before ++ item :: after ∧
        Run.items plan before (plan.start (Database.fresh.afterRuns runs)) = .ok () s ∧
        (∀ after', (plan.apply (Database.fresh.afterRuns runs) dryRun
          (before ++ item :: after')).result = .error f) ∧
        ((∃ g, item = .error g ∧ f.Tells g g.entity g.changesetId plan.runId ∧
            ∀ bs reason, item ∈ Stream.items bs reason → f.changesetId = none) ∨
          ∃ action next s' g, item = .ok (action, next) ∧
            Run.process plan action next s = .error f s' ∧
            Run.Trips plan.options action next s g ∧
            f.Tells g (some next.key) (some next.changesetId) plan.runId) := by
  have hsummarized := Database.Summarized.fresh.afterRuns runs
  generalize Database.fresh.afterRuns runs = db at h hsummarized ⊢
  obtain ⟨s', hstream⟩ := Plan.stream_of_apply_error h
  have hitems := Run.items_of_stream_error (s := plan.start db) hsummarized (.start plan db) hstream
  obtain ⟨before, item, after, s, rfl, hbefore, hfails, hculprit⟩ := Run.items_eq_error hitems
  have hafter (after' : List Stream.Item) :
      (plan.apply db dryRun (before ++ item :: after')).result = .error f := by
    have hagain := hfails after'
    rw [← Run.items_append_of_ok hbefore] at hagain
    exact (Plan.apply_of_error dryRun (Run.stream_of_items_error hagain)).1
  rcases hculprit with ⟨g, rfl, rfl⟩ | ⟨action, next, rfl, hp⟩
  · refine ⟨rfl, before, _, after, s, rfl, hbefore, hafter, .inl ⟨g, rfl, ?_, fun bs reason hg => ?_⟩⟩
    · exact ⟨⟨rfl, rfl, rfl, rfl⟩, rfl, rfl, rfl⟩
    · have hnone : g.changesetId = none := Stream.changesetId_of_mem_items hg
      exact hnone
  · obtain ⟨g, htrips, htells⟩ := Run.process_eq_error hp
    exact ⟨htells.runId, before, _, after, s, rfl, hbefore, hafter,
      .inr ⟨action, next, s', g, rfl, hp, htrips, htells⟩⟩

/-- After a run that creates a line, a run with a version 0 of it points at that version, its line and
its changeset. -/
theorem failed_run_points_at_version_zero :
    ∃ f, (Plan.apply ⟨{}, ⟨"second"⟩⟩ (Database.fresh.afterRuns
        [(⟨{}, ⟨"first"⟩⟩, false, [.ok (.create, .shortLine 1)])]) false
          [.ok (.modify, .shortLine 0)]).result = .error f ∧
      f.runId = some ⟨"second"⟩ ∧ f.entity = some ⟨.line, 7⟩ ∧ f.changesetId = some 500 := by
  have hcheck : Run.check (.shortLine 0) =
      .error (Refusal.invalidVersion (Snapshot.shortLine 0).key 0).toFailure := rfl
  have hprocess : Run.process ⟨{}, ⟨"second"⟩⟩ .modify (.shortLine 0)
      (Plan.start ⟨{}, ⟨"second"⟩⟩ (Database.fresh.afterRuns
        [(⟨{}, ⟨"first"⟩⟩, false, [.ok (.create, .shortLine 1)])])) = .error _ _ :=
    Run.process_of_check_error hcheck _
  obtain ⟨hresult, -⟩ := Plan.apply_of_error false
    (Run.stream_of_items_error (Run.items_cons_of_error hprocess []))
  obtain ⟨hrun, before, item, after, s, his, -, -, hculprit⟩ :=
    failed_run_points_at_first_bad_item _ ⟨{}, ⟨"second"⟩⟩ false [.ok (.modify, .shortLine 0)] hresult
  have hitem : item = .ok (.modify, .shortLine 0) := by
    refine List.mem_singleton.1 ?_
    rw [his]
    exact List.mem_append_right _ List.mem_cons_self
  refine ⟨_, hresult, hrun, ?_⟩
  rcases hculprit with ⟨g, hg, -⟩ | ⟨action, next, s', g, hc, -, -, htells⟩
  · rw [hitem] at hg
    cases hg
  · rw [hitem] at hc
    cases hc
    exact ⟨htells.entity, htells.changesetId⟩

end MapAudit
