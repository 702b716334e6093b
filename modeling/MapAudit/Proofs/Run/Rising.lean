import MapAudit.Proofs.Run.Lifecycle

namespace MapAudit

namespace Lifecycle
variable {rs : List ChangeRecord}

/-- All but deletions raise the version. -/
theorem rises (h : Lifecycle rs) :
    rs.IsChain fun before r => r.action ≠ .delete → before.version < r.version := by
  refine h.stepwise.imp_of_mem_tail_imp fun before r _ hr hstep hkeep => ?_
  -- Only the first record may be a creation, and it has none before it.
  have hmodify : r.action = .modify := (h.once r hr).resolve_right hkeep
  rw [Int64.lt_iff_toInt_lt, hstep hmodify]
  exact Int.lt_succ _

/-- Versions rise throughout if and only if the deletions raise them too. -/
theorem pairwise_version_iff (h : Lifecycle rs) :
    (rs.map (·.version)).Pairwise (· < ·) ↔
      rs.IsChain fun before r => r.action = .delete → before.version < r.version := by
  have htrans : Trans (α := Int64) (· < ·) (· < ·) (· < ·) := ⟨Int64.lt_trans⟩
  rw [← List.isChain_iff_pairwise, List.isChain_map]
  constructor
  · exact fun hall => hall.imp fun before r hlt _ => hlt
  · intro hdeletions
    have hrises := h.rises
    rw [List.isChain_iff_getElem] at hdeletions hrises ⊢
    intro i hi
    by_cases hdelete : rs[i + 1].action = .delete
    · exact hdeletions i hi hdelete
    · exact hrises i hi hdelete

end Lifecycle

namespace Run
variable {plan : Plan}

/-- A change that is in no conflict with what is stored goes on with the records of its entity. -/
theorem process_of_fitting_version (hplan : plan.options.Strict)
    (hskip : plan.options.skipApplied = false) (s : RunState MemoryStore) (action : Action)
    (next : Snapshot) {time : Time.Instant} {previous : Option Snapshot}
    (hcheck : check next = .ok time) (hprevious : s.store.entities[next.key]? = previous)
    (hfits : invalid? action previous next = none) :
    ∃ o s', process plan action next s = .ok o s' ∧
      s'.store.entities[next.key]? = some (action.leaves next) ∧
      (s'.store.recordsOf next.key).map (·.version) =
        (s.store.recordsOf next.key).map (·.version) ++ [next.version] := by
  have hverdict : plan.options.verdict action s.store.entities[next.key]? next = .record none := by
    simp [Options.verdict, hskip, hprevious, hfits]
  refine ⟨_, _, process_of_record hcheck hverdict, ?_, ?_⟩
  · rw [RunState.store_recorded, MemoryStore.entities_written_of_apply _ _ _ _ _ hplan.applies,
      if_pos rfl]
  · rw [RunState.store_recorded, Chained.recordsOf_written, if_pos rfl, List.map_append]
    simp [MemoryStore.recordsOf]

/-- A line that is created and deleted, with any version, in a run that conflicts would stop. -/
theorem series_create_delete (version : Int64) (hversion : 1 ≤ version) :
    ∃ reports m',
      series [(⟨{ policy := .stop }, ⟨"run"⟩⟩,
        [(.create, .shortLine 1), (.delete, .shortLine version)])] MemoryStore.empty =
          .ok reports m' ∧
      (m'.recordsOf (Snapshot.shortLine 1).key).map (·.version) = [1, version] := by
  let plan : Plan := ⟨{ policy := .stop }, ⟨"run"⟩⟩
  have hplan : plan.options.Strict := ⟨rfl, rfl⟩
  have habsent : (plan.start MemoryStore.empty).store.entities[(Snapshot.shortLine 1).key]? =
      none := by simp [Plan.start, MemoryStore.empty]
  obtain ⟨time, hcheck⟩ : ∃ time, check (.shortLine version) = .ok time :=
    exists_check_eq_ok rfl hversion
  obtain ⟨o₁, s₁, h₁, he₁, hr₁⟩ := process_of_fitting_version hplan rfl
    (plan.start MemoryStore.empty) .create (.shortLine 1) rfl habsent rfl
  obtain ⟨o₂, s₂, h₂, -, hr₂⟩ := process_of_fitting_version hplan rfl s₁ .delete
    (.shortLine version) hcheck he₁ rfl
  have hos : outcomes plan [(.create, .shortLine 1), (.delete, .shortLine version)]
      (plan.start MemoryStore.empty) = .ok [o₁, o₂] s₂ :=
    outcomes_cons_eq_ok.2 ⟨o₁, s₁, [o₂], h₁, outcomes_cons_eq_ok.2 ⟨o₂, s₂, [], h₂, rfl, rfl⟩, rfl⟩
  refine ⟨_, _, series_cons_eq_ok.2 ⟨_, _, [], all_of_outcomes (.start _ _) hos, rfl, rfl⟩, ?_⟩
  have hrecords : (s₂.store.recordsOf (Snapshot.shortLine 1).key).map (·.version) = [1, version] :=
    hr₂.trans (congrArg (· ++ [version]) hr₁)
  unfold MemoryStore.recordsOf at hrecords ⊢
  rwa [RunState.changes_finalized]

end Run

/-- Where conflicts stop runs and the stored state is kept up to date, every record of an entity but
the deletions has a greater version than the record before it. The versions of its records rise
throughout, so that no two records share one, if and only if each deletion has a greater version than
the record before it too. -/
theorem strict_runs_raise_versions (runs : List (Plan × List (Action × Snapshot)))
    (hruns : ∀ run ∈ runs, run.1.options.policy = .stop ∧ run.1.options.applyState = true)
    (m' : MemoryStore) (reports : List RunReport)
    (h : Run.series runs MemoryStore.empty = .ok reports m') (key : EntityKey) :
    (m'.recordsOf key).IsChain (fun before r => r.action ≠ .delete → before.version < r.version) ∧
      (((m'.recordsOf key).IsChain fun before r => r.action = .delete → before.version < r.version) ↔
        ((m'.recordsOf key).map (·.version)).Pairwise (· < ·)) ∧
      (((m'.recordsOf key).IsChain fun before r => r.action = .delete → before.version < r.version) →
        ((m'.recordsOf key).map (·.version)).Nodup) := by
  have hstrict : ∀ run ∈ runs, run.1.options.Strict := fun run hrun =>
    ⟨(hruns run hrun).1, (hruns run hrun).2⟩
  have hlifecycle := (Run.lawful_series hstrict .empty h).lifecycle key
  exact ⟨hlifecycle.rises, hlifecycle.pairwise_version_iff.symm,
    fun hdeletions => (hlifecycle.pairwise_version_iff.2 hdeletions).imp Int64.ne_of_lt⟩

/-- A line whose deletion has a greater version than its creation. -/
theorem versions_of_deleted_line_rise :
    ∃ reports m',
      Run.series [(⟨{ policy := .stop }, ⟨"run"⟩⟩,
        [(.create, .shortLine 1), (.delete, .shortLine 8)])] MemoryStore.empty =
          .ok reports m' ∧
      ((m'.recordsOf (Snapshot.shortLine 1).key).map (·.version)).Nodup := by
  obtain ⟨reports, m', hseries, hversions⟩ := Run.series_create_delete 8 (by decide)
  obtain ⟨-, hrising, hnodup⟩ := strict_runs_raise_versions _ (by simp) m' reports hseries
    (Snapshot.shortLine 1).key
  refine ⟨reports, m', hseries, hnodup (hrising.2 ?_)⟩
  rw [hversions]
  decide

/-- A deletion of the version that is stored. -/
theorem deletion_repeats_version :
    ∃ reports m',
      Run.series [(⟨{ policy := .stop }, ⟨"run"⟩⟩,
        [(.create, .shortLine 1), (.delete, .shortLine 1)])] MemoryStore.empty =
          .ok reports m' ∧
      (m'.recordsOf (Snapshot.shortLine 1).key).map (·.version) = [1, 1] ∧
      ¬((m'.recordsOf (Snapshot.shortLine 1).key).map (·.version)).Pairwise (· < ·) := by
  obtain ⟨reports, m', hseries, hversions⟩ := Run.series_create_delete 1 (by decide)
  refine ⟨reports, m', hseries, hversions, ?_⟩
  rw [hversions]
  decide

end MapAudit
