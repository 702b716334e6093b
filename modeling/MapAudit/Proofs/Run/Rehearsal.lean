import MapAudit.Database.Statement
import MapAudit.Proofs.Run.Abreast
import MapAudit.Proofs.Run.Effect
import MapAudit.Run.Apply

namespace MapAudit

/-- One failure, told with either of two runs. -/
def Failure.ToldBy (first second : RunId) (f g : Failure) : Prop :=
  ∃ h : Failure, f = h.withRun first ∧ g = h.withRun second

def RunReport.ToldBy (first second : RunId) (r r' : RunReport) : Prop :=
  ∃ stats changesets, r = ⟨first, stats, changesets⟩ ∧ r' = ⟨second, stats, changesets⟩

namespace Run
variable {σ : Type} [Store σ] (o : Options) (first second : RunId)

theorem process_toldBy (action : Action) (next : Snapshot) :
    Abreast (σ := σ) Eq (Failure.ToldBy first second) Eq
      (process ⟨o, first⟩ action next) (process ⟨o, second⟩ action next) := by
  rw [process_eq, process_eq]
  refine (abreast_refl _).mapFailure ?_
  rintro f _ rfl
  -- The context names the run, whatever run the failure named before.
  exact ⟨inContext first next f, rfl, rfl⟩

theorem finalize_toldBy :
    Abreast (σ := σ) Eq (Failure.ToldBy first second) (RunReport.ToldBy first second)
      (finalize ⟨o, first⟩) (finalize ⟨o, second⟩) := by
  unfold finalize
  refine Abreast.mapFailure (F := Eq) ?_ ?_
  · refine abreast_get.bind ?_
    rintro s _ rfl
    refine (abreast_refl _).bind ?_
    rintro ⟨changesets, ledger⟩ _ rfl
    refine (abreast_refl _).bind ?_
    rintro _ _ -
    exact abreast_pure ⟨s.stats, changesets, rfl, rfl⟩
  · rintro f _ rfl
    exact ⟨f, rfl, rfl⟩

theorem items_toldBy (is : List Stream.Item) :
    Abreast (σ := σ) Eq (Failure.ToldBy first second) Eq
      (items ⟨o, first⟩ is) (items ⟨o, second⟩ is) := by
  induction is with
  | nil => exact abreast_pure rfl
  | cons item is ih =>
    cases item with
    | error f => exact abreast_throw ⟨f, rfl, rfl⟩
    | ok c => exact (process_toldBy o first second c.1 c.2).bind fun _ _ _ => ih

theorem stream_toldBy (is : List Stream.Item) :
    Abreast (σ := σ) Eq (Failure.ToldBy first second) (RunReport.ToldBy first second)
      (stream ⟨o, first⟩ is) (stream ⟨o, second⟩ is) :=
  (items_toldBy o first second is).bind fun _ _ _ => finalize_toldBy o first second

variable {plan : Plan} {s s' : RunState σ}

/-- A run comes to the same under every name. -/
theorem stream_anonymous (o : Options) (is : List Stream.Item) (s : RunState σ) :
    (∃ stats changesets s', ∀ id, stream ⟨o, id⟩ is s = .ok ⟨id, stats, changesets⟩ s') ∨
      ∃ (f : Failure) (s' : RunState σ), ∀ id, stream ⟨o, id⟩ is s = .error (f.withRun id) s' := by
  have hends (id : RunId) := stream_toldBy o ⟨""⟩ id is s s rfl
  cases h : stream ⟨o, ⟨""⟩⟩ is s with
  | ok report s' =>
    refine .inl ⟨report.stats, report.changesets, s', fun id => ?_⟩
    have hok := hends id
    rw [h] at hok
    obtain ⟨_, _, hr, ⟨stats, changesets, rfl, rfl⟩, rfl⟩ := hok.of_ok
    exact hr
  | error f s' =>
    refine .inr ⟨f, s', fun id => ?_⟩
    have herror := hends id
    rw [h] at herror
    obtain ⟨_, _, hr, ⟨g, rfl, rfl⟩, rfl⟩ := herror.of_error
    exact hr

theorem items_map_ok (plan : Plan) (changes : List (Action × Snapshot)) :
    items (σ := σ) plan (changes.map .ok) = outcomes plan changes >>= fun _ => pure () := by
  induction changes with
  | nil => rfl
  | cons c changes ih =>
    change (process plan c.1 c.2 >>= fun _ => items plan (changes.map .ok)) = _
    rw [ih]
    simp only [outcomes, bind_assoc, pure_bind]

/-- A stream without failures is run as its changes are. -/
theorem stream_map_ok (plan : Plan) (changes : List (Action × Snapshot)) :
    stream (σ := σ) plan (changes.map .ok) = all plan changes := by
  unfold stream
  rw [items_map_ok, all_eq]
  simp only [bind_assoc, pure_bind]

/-- A stream that goes through consists of changes. -/
theorem changes_of_items {is : List Stream.Item} {u : Unit} (h : items plan is s = .ok u s') :
    ∃ changes : List (Action × Snapshot), is = changes.map .ok := by
  induction is generalizing s with
  | nil => exact ⟨[], rfl⟩
  | cons item is ih =>
    cases item with
    | error f => cases h
    | ok c =>
      obtain ⟨o, s₁, -, hrest⟩ := bind_eq_ok h
      obtain ⟨changes, rfl⟩ := ih hrest
      exact ⟨c :: changes, rfl⟩

end Run

namespace Plan
variable {σ : Type} [Store σ] {plan : Plan} {store : σ} {is : List Stream.Item} {s : RunState σ}

theorem apply_of_ok (dryRun : Bool) {report : RunReport}
    (h : Run.stream plan is (plan.start store) = .ok report s) :
    (plan.apply store dryRun is).result = .ok report ∧
      (plan.apply store dryRun is).store = if dryRun then store else s.store := by
  unfold apply
  rw [h]
  exact ⟨rfl, rfl⟩

theorem apply_of_error (dryRun : Bool) {f : Failure}
    (h : Run.stream plan is (plan.start store) = .error f s) :
    (plan.apply store dryRun is).result = .error f ∧
      (plan.apply store dryRun is).store = store := by
  unfold apply
  rw [h]
  exact ⟨rfl, rfl⟩

/-- What is told of a failed run is the failure of the stream. -/
theorem stream_of_apply_error {dryRun : Bool} {f : Failure}
    (h : (plan.apply store dryRun is).result = .error f) :
    ∃ s, Run.stream plan is (plan.start store) = .error f s := by
  cases hr : Run.stream plan is (plan.start store) with
  | ok report s =>
    rw [(apply_of_ok dryRun hr).1] at h
    cases h
  | error g s =>
    rw [(apply_of_error dryRun hr).1] at h
    cases h
    exact ⟨s, rfl⟩

end Plan

/-- Applying a stream is all or nothing, and a dry run foretells it. After a failure and after a dry
run the database is what it was, down to the number of the next audit record. The real run and the dry
one go through or fail together, with the same counters and changesets or with the same failure, but
for the name of the run; and what the real one leaves is what a run of the changes leaves. -/
theorem apply_all_or_nothing (o : Options) (db : Database) (is : List Stream.Item)
    (real dry direct : RunId) :
    let applied := Plan.apply ⟨o, real⟩ db false is
    let rehearsed := Plan.apply ⟨o, dry⟩ db true is
    rehearsed.store = db ∧
      ((∃ stats changesets changes s,
        applied.result = .ok ⟨real, stats, changesets⟩ ∧
        rehearsed.result = .ok ⟨dry, stats, changesets⟩ ∧
        is = changes.map .ok ∧
        Run.all ⟨o, direct⟩ changes (Plan.start ⟨o, direct⟩ db) =
          .ok ⟨direct, stats, changesets⟩ s ∧
        applied.store = s.store) ∨
      ∃ f : Failure,
        applied.result = .error (f.withRun real) ∧
        rehearsed.result = .error (f.withRun dry) ∧
        applied.store = db ∧
        ∀ changes, is = changes.map .ok →
          ∃ s, Run.all ⟨o, direct⟩ changes (Plan.start ⟨o, direct⟩ db) =
            .error (f.withRun direct) s) := by
  intro applied rehearsed
  have hall (changes : List (Action × Snapshot)) (h : is = changes.map .ok) :
      Run.all ⟨o, direct⟩ changes (Plan.start ⟨o, direct⟩ db) =
        Run.stream ⟨o, direct⟩ is (Plan.start ⟨o, direct⟩ db) := by
    rw [h, Run.stream_map_ok]
  rcases Run.stream_anonymous o is (Plan.start ⟨o, direct⟩ db) with
    ⟨stats, changesets, s, h⟩ | ⟨f, s, h⟩
  · obtain ⟨hresult, hstore⟩ := Plan.apply_of_ok false (h real)
    obtain ⟨hresult', hstore'⟩ := Plan.apply_of_ok true (h dry)
    -- A stream that goes through has changes alone.
    obtain ⟨u, t, hitems, -⟩ := bind_eq_ok (h direct)
    obtain ⟨changes, hchanges⟩ := Run.changes_of_items hitems
    exact ⟨hstore', .inl ⟨stats, changesets, changes, s, hresult, hresult', hchanges,
      (hall changes hchanges).trans (h direct), hstore⟩⟩
  · obtain ⟨hresult, hstore⟩ := Plan.apply_of_error false (h real)
    obtain ⟨hresult', hstore'⟩ := Plan.apply_of_error true (h dry)
    exact ⟨hstore', .inr ⟨f, hresult, hresult', hstore, fun changes hchanges =>
      ⟨s, (hall changes hchanges).trans (h direct)⟩⟩⟩

end MapAudit
