import MapAudit.Proofs.Run.Replay

namespace MapAudit

namespace Run

/-- A whole run by a fresh processor, of which the report and the store are kept. -/
def once [Store σ] (plan : Plan) (changes : List (Action × Snapshot)) : Step σ RunReport := fun m =>
  match all plan changes (plan.start m) with
  | .ok report s => .ok report s.store
  | .error f s => .error f s.store

def series [Store σ] : List (Plan × List (Action × Snapshot)) → Step σ (List RunReport)
  | [] => return []
  | run :: runs => do
    let report ← once run.1 run.2
    return report :: (← series runs)

section ok
variable [Store σ] {m m' : σ}

theorem once_eq_ok {plan : Plan} {changes : List (Action × Snapshot)} {report : RunReport} :
    once plan changes m = .ok report m' ↔
      ∃ s, all plan changes (plan.start m) = .ok report s ∧ s.store = m' := by
  unfold once
  cases all plan changes (plan.start m) with
  | ok r s =>
    constructor
    · intro h
      cases h
      exact ⟨s, rfl, rfl⟩
    · rintro ⟨_, h, rfl⟩
      cases h
      rfl
  | error f s =>
    constructor
    · intro h
      cases h
    · rintro ⟨_, h, -⟩
      cases h

theorem series_nil_eq_ok {reports : List RunReport} :
    series [] m = .ok reports m' ↔ reports = [] ∧ m' = m := by
  constructor
  · intro h
    cases h
    exact ⟨rfl, rfl⟩
  · rintro ⟨rfl, rfl⟩
    rfl

theorem series_cons_eq_ok {run : Plan × List (Action × Snapshot)}
    {runs : List (Plan × List (Action × Snapshot))} {reports : List RunReport} :
    series (run :: runs) m = .ok reports m' ↔
      ∃ report s reports', all run.1 run.2 (run.1.start m) = .ok report s ∧
        series runs s.store = .ok reports' m' ∧ reports = report :: reports' := by
  constructor
  · intro h
    obtain ⟨report, m₁, hrun, h⟩ := bind_eq_ok h
    obtain ⟨reports', m₂, hruns, h⟩ := bind_eq_ok h
    cases h
    obtain ⟨s, hall, rfl⟩ := once_eq_ok.1 hrun
    exact ⟨report, s, reports', hall, hruns, rfl⟩
  · rintro ⟨report, s, reports', hall, hruns, rfl⟩
    exact (bind_of_ok _ (once_eq_ok.2 ⟨s, hall, rfl⟩)).trans (bind_of_ok _ hruns)

end ok

/-- Where conflicts do not stop any run and all changes pass the check, a series goes through. -/
theorem series_of_checked (runs : List (Plan × List (Action × Snapshot)))
    (hpolicy : ∀ run ∈ runs, run.1.options.policy ≠ .stop)
    (hchecks : ∀ run ∈ runs, ∀ c ∈ run.2, ∃ time, check c.2 = .ok time) (m : MemoryStore) :
    ∃ reports m', series runs m = .ok reports m' := by
  induction runs generalizing m with
  | nil => exact ⟨[], m, rfl⟩
  | cons run runs ih =>
    obtain ⟨os, s, hos⟩ := outcomes_of_checked run.1 (s := run.1.start m)
      (hpolicy run List.mem_cons_self) run.2 (hchecks run List.mem_cons_self)
    obtain ⟨reports, m', hruns⟩ := ih (fun r hr => hpolicy r (List.mem_cons_of_mem run hr))
      (fun r hr => hchecks r (List.mem_cons_of_mem run hr)) s.finalized.store
    have hall := all_of_outcomes (.start run.1 m) hos
    exact ⟨_, m', series_cons_eq_ok.2 ⟨_, _, reports, hall, hruns, rfl⟩⟩

end Run

namespace Session

def after [Store σ] (x : Session σ) (calls : List Call) : Session σ :=
  calls.foldl (fun x call => (x.ask call).2) x

def stores [Store σ] (x : Session σ) (calls : List Call) : List σ :=
  x.state.store :: (x.trace calls).map (·.2.state.store)

/-- The calls of a run, from its beginning to its end. -/
def Call.ofRun (run : Plan × List (Action × Snapshot)) : List Call :=
  .start run.1 :: (run.2.map fun c => .process c.1 c.2) ++ [.finalize]

variable [Store σ] {plan : Plan}

theorem stores_cons (x : Session σ) (call : Call) (calls : List Call) :
    x.stores (call :: calls) = x.state.store :: (x.ask call).2.stores calls := rfl

/-- The last store is the one after all calls. -/
theorem getLast?_stores (x : Session σ) (calls : List Call) :
    (x.stores calls).getLast? = some (x.after calls).state.store := by
  induction calls generalizing x with
  | nil => rfl
  | cons call calls ih =>
    have hlast := ih (x.ask call).2
    rw [stores_cons]
    exact List.getLast?_cons_cons.trans hlast

theorem after_cons (x : Session σ) (call : Call) (calls : List Call) :
    x.after (call :: calls) = (x.ask call).2.after calls := rfl

theorem after_append (x : Session σ) (calls calls' : List Call) :
    x.after (calls ++ calls') = (x.after calls).after calls' :=
  List.foldl_append

theorem after_of_outcomes {changes : List (Action × Snapshot)} {os : List Outcome}
    {s s' : RunState σ} (h : Run.outcomes plan changes s = .ok os s') :
    (Session.mk plan s).after (changes.map fun c => .process c.1 c.2) = ⟨plan, s'⟩ := by
  induction changes generalizing s os with
  | nil =>
    obtain ⟨-, rfl⟩ := Run.outcomes_nil_eq_ok.1 h
    rfl
  | cons c changes ih =>
    obtain ⟨o, s₁, os', ho, hos, -⟩ := Run.outcomes_cons_eq_ok.1 h
    have hask : ((Session.mk plan s).ask (.process c.1 c.2)).2 = ⟨plan, s₁⟩ := by
      rw [ask_process_of_ok (x := ⟨plan, s⟩) ho]
    rw [List.map_cons, after_cons, hask]
    exact ih hos

/-- A whole run is the calls of it. -/
theorem after_of_all {x : Session σ} {changes : List (Action × Snapshot)} {report : RunReport}
    {s : RunState σ} (h : Run.all plan changes (plan.start x.state.store) = .ok report s) :
    x.after (Call.ofRun (plan, changes)) = ⟨plan, s⟩ := by
  obtain ⟨os, s₁, hos, hfinal⟩ := Run.all_eq_ok.1 h
  have hask : ((Session.mk plan s₁).ask .finalize).2 = ⟨plan, s⟩ := by
    rw [ask_finalize_of_ok (x := ⟨plan, s₁⟩) hfinal]
  rw [Call.ofRun, after_append]
  change ((Session.mk plan (plan.start x.state.store)).after _).after [.finalize] = _
  rw [after_of_outcomes hos, after_cons, hask]
  rfl

/-- A series of runs is the calls of all of them. -/
theorem after_of_series {x : Session σ} {runs : List (Plan × List (Action × Snapshot))}
    {reports : List RunReport} {m' : σ} (h : Run.series runs x.state.store = .ok reports m') :
    (x.after (runs.flatMap Call.ofRun)).state.store = m' := by
  induction runs generalizing x reports with
  | nil =>
    obtain ⟨-, rfl⟩ := Run.series_nil_eq_ok.1 h
    rfl
  | cons run runs ih =>
    obtain ⟨report, s, reports', hall, hruns, -⟩ := Run.series_cons_eq_ok.1 h
    have hafter : x.after (Call.ofRun run) = ⟨run.1, s⟩ := after_of_all hall
    rw [List.flatMap_cons, after_append, hafter]
    exact ih hruns

end Session

end MapAudit
