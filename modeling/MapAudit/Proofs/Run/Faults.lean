import MapAudit.Proofs.Run.Committed
import MapAudit.Proofs.Run.Refinement
import MapAudit.Proofs.Run.Rehearsal

namespace MapAudit

/-- An item that stops a run, and the failure that tells of it. -/
inductive Plan.Refuses (plan : Plan) : Stream.Item → Failure → Prop where
  | unread (f : Failure) : plan.Refuses (.error f) (f.withRun plan.runId)
  | untimed {action : Action} {next : Snapshot} (h : next.timestamp = none) :
      plan.Refuses (.ok (action, next))
        (Run.inContext plan.runId next (Refusal.missingTimestamp next.key).toFailure)
  | unversioned {action : Action} {next : Snapshot} (h : next.version < 1) :
      plan.Refuses (.ok (action, next))
        (Run.inContext plan.runId next (Refusal.invalidVersion next.key next.version).toFailure)
  | conflicting {action : Action} {previous : Option Snapshot} {next : Snapshot}
      {i : InvalidAction} (hp : plan.options.policy = .stop)
      (h : invalid? action previous next = some i) :
      plan.Refuses (.ok (action, next))
        (Run.inContext plan.runId next (Refusal.invalidAction i).toFailure)

/-- A change is refused for its time, for its version or for a conflict, and for nothing else. -/
theorem Plan.Refuses.kind {plan : Plan} {c : Action × Snapshot} {f : Failure}
    (h : plan.Refuses (.ok c) f) :
    (f.kind = .missingField ∧ c.2.timestamp = none) ∨
      (f.kind = .invalidInput ∧ c.2.version < 1) ∨
      (f.kind = .invalidAction ∧ plan.options.policy = .stop) := by
  cases h with
  | untimed h => exact .inl ⟨rfl, h⟩
  | unversioned h => exact .inr (.inl ⟨rfl, h⟩)
  | conflicting hp h => exact .inr (.inr ⟨rfl, hp⟩)

namespace Run

section items
variable {σ : Type} [Store σ] {plan : Plan} {action : Action} {next : Snapshot} {s s' : RunState σ}
  {f : Failure}

theorem items_cons_of_ok {outcome : Outcome} (h : process plan action next s = .ok outcome s')
    (is : List Stream.Item) : items plan (.ok (action, next) :: is) s = items plan is s' :=
  bind_of_ok _ h

theorem items_cons_of_error (h : process plan action next s = .error f s')
    (is : List Stream.Item) : items plan (.ok (action, next) :: is) s = .error f s' :=
  bind_of_error _ h

theorem items_append_of_ok {is : List Stream.Item} {u : Unit} (h : items plan is s = .ok u s')
    (rest : List Stream.Item) : items plan (is ++ rest) s = items plan rest s' := by
  induction is generalizing s with
  | nil =>
    cases h
    rfl
  | cons item is ih =>
    cases item with
    | error g => cases h
    | ok c =>
      obtain ⟨outcome, s₁, hprocess, h⟩ := bind_eq_ok h
      rw [List.cons_append, items_cons_of_ok hprocess]
      exact ih h

/-- The items fail at the first one that could not be read or that is rejected, whatever comes after
it. -/
theorem items_eq_error {is : List Stream.Item} (h : items plan is s = .error f s') :
    ∃ before item after t, is = before ++ item :: after ∧ items plan before s = .ok () t ∧
      (∀ after', items plan (item :: after') t = .error f s') ∧
      ((∃ g, item = .error g ∧ f = g.withRun plan.runId) ∨
        ∃ action next, item = .ok (action, next) ∧ process plan action next t = .error f s') := by
  induction is generalizing s with
  | nil => cases h
  | cons item is ih =>
    cases item with
    | error g =>
      cases h
      exact ⟨[], .error g, is, _, rfl, rfl, fun _ => rfl, .inl ⟨g, rfl, rfl⟩⟩
    | ok c =>
      obtain ⟨action, next⟩ := c
      rcases bind_eq_error h with hp | ⟨outcome, s₁, hp, h⟩
      · exact ⟨[], .ok (action, next), is, s, rfl, rfl, items_cons_of_error hp,
          .inr ⟨action, next, rfl, hp⟩⟩
      · obtain ⟨before, item, after, t, rfl, hbefore, hfailed⟩ := ih h
        refine ⟨.ok (action, next) :: before, item, after, t, rfl, ?_, hfailed⟩
        rw [items_cons_of_ok hp]
        exact hbefore

theorem stream_of_items_ok {is : List Stream.Item} {u : Unit} (h : items plan is s = .ok u s') :
    stream plan is s = finalize plan s' :=
  bind_of_ok _ h

theorem stream_of_items_error {is : List Stream.Item} (h : items plan is s = .error f s') :
    stream plan is s = .error f s' :=
  bind_of_error _ h

end items

variable {plan : Plan} {s s' : RunState MemoryStore} {f : Failure}

theorem refuses_of_check {action : Action} {next : Snapshot} (h : check next = .error f) :
    plan.Refuses (.ok (action, next)) (inContext plan.runId next f) := by
  rcases check_eq_error h with ⟨ht, rfl⟩ | ⟨hv, rfl⟩
  · exact .untimed ht
  · exact .unversioned hv

theorem refuses_of_process {action : Action} {next : Snapshot}
    (h : process plan action next s = .error f s') : plan.Refuses (.ok (action, next)) f := by
  rcases process_cases plan action next s with
    ⟨g, hcheck, hp⟩ | ⟨time, -, ⟨stored, -, hp⟩ | ⟨i, hverdict, hp⟩ | ⟨i, -, hp⟩⟩
  · rw [hp] at h
    cases h
    exact refuses_of_check hcheck
  · rw [hp] at h
    cases h
  · rw [hp] at h
    cases h
    obtain ⟨hpolicy, hi⟩ := Options.conflict_of_refuse hverdict
    exact .conflicting hpolicy hi
  · rw [hp] at h
    cases h

/-- A run through a stream fails at the first item that is refused. -/
theorem refuses_of_items {is : List Stream.Item} (h : items plan is s = .error f s') :
    ∃ before item after, is = before ++ item :: after ∧ plan.Refuses item f := by
  obtain ⟨before, item, after, t, his, -, -, hfailed⟩ := items_eq_error h
  refine ⟨before, item, after, his, ?_⟩
  rcases hfailed with ⟨g, rfl, rfl⟩ | ⟨action, next, rfl, hp⟩
  · exact .unread g
  · exact refuses_of_process hp

/-- The recount at the end of a run never fails, so a run fails at an item. -/
theorem refuses_of_stream {is : List Stream.Item} (hk : Known s)
    (h : stream plan is s = .error f s') :
    ∃ before item after, is = before ++ item :: after ∧ plan.Refuses item f := by
  cases hi : items plan is s with
  | error g t =>
    rw [stream_of_items_error hi] at h
    cases h
    exact refuses_of_items hi
  | ok u t =>
    have ht : Known t := by
      obtain ⟨changes, rfl⟩ := changes_of_items hi
      rw [items_map_ok] at hi
      obtain ⟨os, _, hos, hpure⟩ := bind_eq_ok hi
      cases hpure
      exact known_outcomes hk hos
    rw [stream_of_items_ok hi, ht.finalize_eq] at h
    cases h

end Run

/-- A run on a database and the same run on a store in memory that it mirrors. -/
def RunState.Mirrored (s : RunState MemoryStore) (t : RunState Database) : Prop :=
  s.Sound ∧ ∃ db, t = s.over db ∧ Mirrors s.store db

/-- A stream whose changes can be held by rows. -/
def Stream.Storable (is : List Stream.Item) : Prop :=
  ∀ action next, .ok (action, next) ∈ is → next.Storable

namespace Run
variable (plan : Plan)

theorem Alike.ends {r : EStateM.Result Failure (RunState MemoryStore) α}
    {r' : EStateM.Result Failure (RunState Database) α} (h : Alike r r') :
    Ends RunState.Mirrored Eq Eq r r' := by
  cases h with
  | ok a hs h => exact .ok rfl ⟨hs, _, rfl, h⟩
  | error f hs h => exact .error rfl ⟨hs, _, rfl, h⟩

theorem items_mirrored {is : List Stream.Item} (his : Stream.Storable is) :
    Abreast RunState.Mirrored Eq Eq (items plan is) (items plan is) := by
  induction is with
  | nil => exact abreast_pure rfl
  | cons item is ih =>
    cases item with
    | error f => exact abreast_throw rfl
    | ok c =>
      have hprocess : Abreast RunState.Mirrored Eq Eq
          (process plan c.1 c.2) (process plan c.1 c.2) := by
        rintro s _ ⟨hs, db, rfl, h⟩
        exact (process_alike plan c.1 hs h (his c.1 c.2 List.mem_cons_self)).ends
      have hrest : Stream.Storable is := fun action next hmem =>
        his action next (List.mem_cons_of_mem _ hmem)
      exact hprocess.bind fun _ _ _ => ih hrest

theorem stream_mirrored {is : List Stream.Item} (his : Stream.Storable is) :
    Abreast RunState.Mirrored Eq Eq (stream plan is) (stream plan is) := by
  refine (items_mirrored plan his).bind fun _ _ _ => ?_
  rintro s _ ⟨hs, db, rfl, h⟩
  exact (finalize_alike plan hs h).ends

end Run

/-- A database that mirrors a well kept store in memory. -/
def Database.Sound (db : Database) : Prop :=
  ∃ m : MemoryStore, m.WellKept ∧ Mirrors m db

namespace Database.Sound
variable {db : Database} {is : List Stream.Item}

theorem fresh : Database.fresh.Sound := ⟨.empty, .empty, .empty⟩

/-- A stream is applied to a sound database as it is to the store that the database mirrors. -/
theorem stream_cases (h : db.Sound) (plan : Plan) (his : Stream.Storable is) :
    (∃ report s, Run.stream plan is (plan.start db) = .ok report s ∧ s.store.Sound) ∨
      ∃ f s, Run.stream plan is (plan.start db) = .error f s ∧
        ∃ before item after, is = before ++ item :: after ∧ plan.Refuses item f := by
  obtain ⟨m, hm, hmirrors⟩ := h
  have hends := Run.stream_mirrored plan his (plan.start m) (plan.start db)
    ⟨.start plan hm, db, rfl, hmirrors⟩
  cases hr : Run.stream plan is (plan.start m) with
  | ok report s =>
    rw [hr] at hends
    obtain ⟨_, _, hr', rfl, hs, db', rfl, hmirrors'⟩ := hends.of_ok
    exact .inl ⟨report, _, hr', s.store, hs.kept, hmirrors'⟩
  | error f s =>
    rw [hr] at hends
    obtain ⟨_, t, hr', rfl, -⟩ := hends.of_error
    exact .inr ⟨f, t, hr', Run.refuses_of_stream (.start plan m) hr⟩

theorem apply (h : db.Sound) (plan : Plan) (dryRun : Bool) (his : Stream.Storable is) :
    (plan.apply db dryRun is).store.Sound := by
  rcases h.stream_cases plan his with ⟨report, s, hr, hs⟩ | ⟨f, s, hr, -⟩
  · rw [(Plan.apply_of_ok dryRun hr).2]
    cases dryRun
    · exact hs
    · exact h
  · rw [(Plan.apply_of_error dryRun hr).2]
    exact h

theorem refuses_of_apply (h : db.Sound) {plan : Plan} {dryRun : Bool} (his : Stream.Storable is)
    {f : Failure} (hf : (plan.apply db dryRun is).result = .error f) :
    ∃ before item after, is = before ++ item :: after ∧ plan.Refuses item f := by
  rcases h.stream_cases plan his with ⟨report, s, hr, -⟩ | ⟨g, s, hr, hrefused⟩
  · rw [(Plan.apply_of_ok dryRun hr).1] at hf
    cases hf
  · rw [(Plan.apply_of_error dryRun hr).1] at hf
    cases hf
    exact hrefused

theorem afterRuns (h : db.Sound) {runs : List (Plan × Bool × List Stream.Item)}
    (hruns : ∀ run ∈ runs, Stream.Storable run.2.2) : (db.afterRuns runs).Sound := by
  induction runs generalizing db with
  | nil => exact h
  | cons run runs ih =>
    exact ih (h.apply run.1 run.2.1 (hruns run List.mem_cons_self)) fun r hr =>
      hruns r (List.mem_cons_of_mem _ hr)

theorem readable (h : db.Sound) : db.Readable := by
  obtain ⟨m, hm, hmirrors⟩ := h
  exact (hmirrors.restores hm).readable

end Database.Sound

/-- Runs never fail of the database that earlier runs have left. Every failure is that of an item of
the stream: one that could not be read, a change without a time, one with a version below one, or, in a
strict run, one in conflict. No failure tells of a broken constraint, of a row that cannot be read or of
a missing changeset, and whatever is asked for afterwards is read. Every row
that is written is put to the constraints. Only the numbers of the audit log are taken never to run out,
which they would after the greatest one of 64 bits. -/
theorem runs_fail_only_of_their_streams {runs : List (Plan × Bool × List Stream.Item)}
    (hruns : ∀ run ∈ runs, Stream.Storable run.2.2) (plan : Plan) (dryRun : Bool)
    {is : List Stream.Item} (his : Stream.Storable is) :
    (Database.fresh.afterRuns runs).Readable ∧
      ∀ f, (plan.apply (Database.fresh.afterRuns runs) dryRun is).result = .error f →
        ∃ before item after, is = before ++ item :: after ∧ plan.Refuses item f ∧
          ∀ c, item = .ok c →
            (f.kind = .missingField ∧ c.2.timestamp = none) ∨
              (f.kind = .invalidInput ∧ c.2.version < 1) ∨
              (f.kind = .invalidAction ∧ plan.options.policy = .stop) := by
  have hsound := Database.Sound.fresh.afterRuns hruns
  refine ⟨hsound.readable, fun f hf => ?_⟩
  obtain ⟨before, item, after, his', hrefused⟩ := hsound.refuses_of_apply his hf
  refine ⟨before, item, after, his', hrefused, ?_⟩
  rintro c rfl
  exact hrefused.kind

theorem Snapshot.storable_shortLine (version : Int64) : (shortLine version).Storable := by
  refine ⟨fun t ht => ?_, fun p hp => ?_⟩
  · cases ht
    rfl
  · obtain rfl : p = ⟨1.5, 2.5⟩ := List.mem_singleton.1 hp
    exact ⟨by decide +kernel, by decide +kernel⟩

/-- After a run that creates a line, a run with a version 0 of it fails, and of that version. -/
theorem run_fails_of_version_zero :
    ∃ f, (Plan.apply ⟨{}, ⟨"second"⟩⟩ (Database.fresh.afterRuns
        [(⟨{}, ⟨"first"⟩⟩, false, [.ok (.create, .shortLine 1)])]) false
          [.ok (.modify, .shortLine 0)]).result = .error f ∧ f.kind = .invalidInput := by
  have hstorable (action : Action) (version : Int64) :
      Stream.Storable [.ok (action, .shortLine version)] := by
    intro a next hmem
    cases List.mem_singleton.1 hmem
    exact Snapshot.storable_shortLine version
  have hruns : ∀ run ∈ [((⟨{}, ⟨"first"⟩⟩, false, [.ok (.create, .shortLine 1)]) :
      Plan × Bool × List Stream.Item)], Stream.Storable run.2.2 := by
    intro run hrun
    cases List.mem_singleton.1 hrun
    exact hstorable .create 1
  obtain ⟨-, hfails⟩ := runs_fail_only_of_their_streams hruns ⟨{}, ⟨"second"⟩⟩ false
    (hstorable .modify 0)
  generalize Database.fresh.afterRuns _ = db at hfails ⊢
  have hcheck : Run.check (.shortLine 0) =
      .error (Refusal.invalidVersion (Snapshot.shortLine 0).key 0).toFailure := rfl
  have hprocess : Run.process ⟨{}, ⟨"second"⟩⟩ .modify (.shortLine 0)
      (Plan.start ⟨{}, ⟨"second"⟩⟩ db) = .error _ _ := Run.process_of_check_error hcheck _
  obtain ⟨hresult, -⟩ := Plan.apply_of_error false
    (Run.stream_of_items_error (Run.items_cons_of_error hprocess []))
  refine ⟨_, hresult, ?_⟩
  obtain ⟨before, item, after, his, -, hkind⟩ := hfails _ hresult
  have hitem : item ∈ [.ok (.modify, .shortLine 0)] := by
    rw [his]
    exact List.mem_append_right _ List.mem_cons_self
  rcases hkind _ (List.mem_singleton.1 hitem) with ⟨-, ht⟩ | ⟨hkind, -⟩ | ⟨-, hp⟩
  · cases ht
  · exact hkind
  · cases hp

end MapAudit
