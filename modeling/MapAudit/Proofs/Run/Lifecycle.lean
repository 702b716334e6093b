import MapAudit.Proofs.Run.Versions

namespace MapAudit

/-- The records of one entity, in the order of writing, are a lifecycle. -/
structure Lifecycle (rs : List ChangeRecord) : Prop where
  created : ∀ r ∈ rs.head?, r.action = .create
  once : ∀ r ∈ rs.tail, r.action = .modify ∨ r.action = .delete
  /-- A modification brings the version that follows the one before it. -/
  stepwise : rs.IsChain fun before r =>
    r.action = .modify → r.version.toInt = before.version.toInt + 1

namespace Lifecycle
variable {rs : List ChangeRecord} {r : ChangeRecord}

theorem nil : Lifecycle [] where
  created r hr := by cases hr
  once r hr := by cases hr
  stepwise := .nil

/-- A lifecycle begins with a creation. -/
theorem singleton (h : r.action = .create) : Lifecycle [r] where
  created r' hr := by
    obtain rfl : r = r' := Option.some.inj hr
    exact h
  once r' hr := by cases hr
  stepwise := .singleton r

/-- A lifecycle goes on with any record that is no creation and comes in step with the latest. -/
theorem append (h : Lifecycle rs) {before : ChangeRecord} (hbefore : rs.getLast? = some before)
    (haction : r.action ≠ .create)
    (hversion : r.action = .modify → r.version.toInt = before.version.toInt + 1) :
    Lifecycle (rs ++ [r]) := by
  have hne : rs ≠ [] := by
    rintro rfl
    cases hbefore
  refine ⟨fun x hx => ?_, fun x hx => ?_, ?_⟩
  · rw [List.head?_append_of_ne_nil rs hne] at hx
    exact h.created x hx
  · rw [List.tail_append_of_ne_nil hne] at hx
    rcases List.mem_append.1 hx with hx | hx
    · exact h.once x hx
    · obtain rfl := List.mem_singleton.1 hx
      cases hr : x.action with
      | create => exact absurd hr haction
      | modify => exact .inl rfl
      | delete => exact .inr rfl
  · refine List.isChain_append.2 ⟨h.stepwise, .singleton r, ?_⟩
    intro x hx y hy hmodify
    obtain rfl : before = x := Option.some.inj (hbefore.symm.trans hx)
    obtain rfl : r = y := Option.some.inj hy
    exact hversion hmodify

end Lifecycle

/-- What an action needs of the stored version to be in no conflict with it. -/
theorem conflict?_eq_none {action : Action} {stored : Option Int64} {new : Int64} :
    conflict? action stored new = none ↔
      (action = .create ∧ stored = none) ∨
        ∃ v, stored = some v ∧ action ≠ .create ∧
          (action = .modify → new.toInt = v.toInt + 1) := by
  cases action with
  | create => cases stored <;> simp [conflict?]
  | modify =>
    cases stored with
    | none => simp [conflict?]
    | some v => simp [conflict?, eq_comm]
  | delete => cases stored <;> simp [conflict?]

/-- Conflicts stop the run, and the stored state is kept up to date. -/
structure Options.Strict (o : Options) : Prop where
  stops : o.policy = .stop
  applies : o.applyState = true

/-- A strict run records no change in spite of a conflict. -/
theorem Options.Strict.invalid?_of_record {o : Options} (ho : o.Strict) {action : Action}
    {previous : Option Snapshot} {next : Snapshot} {i : Option InvalidAction}
    (h : o.verdict action previous next = .record i) : invalid? action previous next = none := by
  unfold Options.verdict at h
  split at h
  · cases h
  · split at h
    · assumption
    · rw [if_pos ho.stops] at h
      cases h

namespace MemoryStore

/-- What is stored of each entity is the version of its latest record, and its records are a
lifecycle. -/
structure Lawful (m : MemoryStore) : Prop where
  latest : ∀ key, m.version? key = (m.recordsOf key).getLast?.map (·.version)
  lifecycle : ∀ key, Lifecycle (m.recordsOf key)

namespace Lawful
variable {m m' : MemoryStore}

theorem empty : Lawful .empty where
  latest key := by simp [version?_eq, recordsOf, MemoryStore.empty]
  lifecycle key := by simpa [recordsOf, MemoryStore.empty] using Lifecycle.nil

/-- Only entities and records count. -/
theorem congr (h : Lawful m) (he : m'.entities = m.entities) (hc : m'.changes = m.changes) :
    Lawful m' := by
  have hrecords (key : EntityKey) : m'.recordsOf key = m.recordsOf key := by
    unfold recordsOf
    rw [hc]
  refine ⟨fun key => ?_, fun key => ?_⟩
  · rw [version?_congr he, hrecords]
    exact h.latest key
  · rw [hrecords]
    exact h.lifecycle key

/-- A change without conflict goes on with the lifecycle of its entity. -/
theorem lifecycle_append (h : Lawful m) {action : Action} {next : Snapshot}
    (hfits : invalid? action m.entities[next.key]? next = none) :
    Lifecycle (m.recordsOf next.key ++ [.build action m.entities[next.key]? next]) := by
  have hconflict : conflict? action (m.version? next.key) next.version = none := by
    rw [version?_eq]
    exact Option.map_eq_none_iff.1 hfits
  -- The stored version is that of the latest record, which the new one has to fit.
  rw [h.latest, conflict?_eq_none] at hconflict
  rcases hconflict with ⟨hcreate, hnone⟩ | ⟨v, hv, hcreate, hmodify⟩
  · rw [Option.map_eq_none_iff, List.getLast?_eq_none_iff] at hnone
    rw [hnone]
    exact .singleton (by rw [ChangeRecord.action_build, hcreate])
  · obtain ⟨before, hbefore, rfl⟩ := Option.map_eq_some_iff.1 hv
    refine (h.lifecycle next.key).append hbefore ?_ fun ha => ?_
    · rwa [ChangeRecord.action_build]
    · rw [ChangeRecord.action_build] at ha
      rw [ChangeRecord.version_build]
      exact hmodify ha

/-- A change without conflict is written lawfully. -/
theorem written (h : Lawful m) {o : Options} (ho : o.applyState = true) {action : Action}
    {next : Snapshot} (hfits : invalid? action m.entities[next.key]? next = none) :
    Lawful (m.written o action m.entities[next.key]? next) := by
  refine ⟨fun key => ?_, fun key => ?_⟩
  · rw [version?_written ho, Chained.recordsOf_written]
    split
    · rw [List.getLast?_concat, Option.map_some, ChangeRecord.version_build]
    · exact h.latest key
  · rw [Chained.recordsOf_written]
    split
    · next hkey =>
      subst hkey
      exact h.lifecycle_append hfits
    · exact h.lifecycle key

end Lawful

end MemoryStore

namespace Run
open MemoryStore
variable {plan : Plan} {s s' : RunState MemoryStore}

theorem lawful_process (hplan : plan.options.Strict) (hs : Lawful s.store) {action : Action}
    {next : Snapshot} {o : Outcome} (h : process plan action next s = .ok o s') :
    Lawful s'.store := by
  rcases process_ok_cases h with ⟨-, -, -, he, hc⟩ | ⟨i, m, hv, -, rfl, he, hc⟩
  · exact hs.congr he hc
  · exact (hs.written hplan.applies (hplan.invalid?_of_record hv)).congr he hc

theorem lawful_outcomes (hplan : plan.options.Strict) (hs : Lawful s.store)
    {changes : List (Action × Snapshot)} {os : List Outcome}
    (h : outcomes plan changes s = .ok os s') : Lawful s'.store := by
  induction changes generalizing s os with
  | nil =>
    obtain ⟨-, rfl⟩ := outcomes_nil_eq_ok.1 h
    exact hs
  | cons c changes ih =>
    obtain ⟨o, s₁, os', ho, hos, -⟩ := outcomes_cons_eq_ok.1 h
    exact ih (lawful_process hplan hs ho) hos

/-- Strict runs, one after the other, keep a store lawful. -/
theorem lawful_series {runs : List (Plan × List (Action × Snapshot))}
    (hruns : ∀ run ∈ runs, run.1.options.Strict) {m m' : MemoryStore} (hm : Lawful m)
    {reports : List RunReport} (h : series runs m = .ok reports m') : Lawful m' := by
  induction runs generalizing m reports with
  | nil =>
    obtain ⟨-, rfl⟩ := series_nil_eq_ok.1 h
    exact hm
  | cons run runs ih =>
    obtain ⟨report, s, reports', hall, hseries, -⟩ := series_cons_eq_ok.1 h
    obtain ⟨os, s₁, hos, hfinal⟩ := all_eq_ok.1 hall
    rw [(known_outcomes (.start run.1 m) hos).finalize_eq] at hfinal
    cases hfinal
    have hrun := lawful_outcomes (hruns run List.mem_cons_self) hm hos
    have hend := hrun.congr RunState.entities_finalized RunState.changes_finalized
    exact ih (fun r hr => hruns r (List.mem_cons_of_mem run hr)) hend hseries

/-- A change that is newer than what is stored, if that counts, and in no conflict with it goes
through and is stored. -/
theorem process_of_fitting (hplan : plan.options.Strict) (s : RunState MemoryStore)
    (action : Action) (next : Snapshot) {time : Time.Instant} {previous : Option Snapshot}
    (hcheck : check next = .ok time) (hprevious : s.store.entities[next.key]? = previous)
    (hnew : applied? previous next = none) (hfits : invalid? action previous next = none) :
    ∃ o s', process plan action next s = .ok o s' ∧
      s'.store.entities[next.key]? = some (action.leaves next) := by
  have hverdict : plan.options.verdict action s.store.entities[next.key]? next = .record none := by
    unfold Options.verdict
    rw [hprevious, hnew, hfits, ite_self]
  refine ⟨_, _, process_of_record hcheck hverdict, ?_⟩
  rw [RunState.store_recorded, entities_written_of_apply _ _ _ _ _ hplan.applies, if_pos rfl]

end Run

/-- Where conflicts stop runs and the stored state is kept up to date, the records of every entity
are a lifecycle, over all runs that went through: the entity is created once and first of all, also
if it is deleted later, and a modification brings the version that directly follows the one before
it. So the greatest version of all is never modified. -/
theorem strict_runs_write_lifecycles (runs : List (Plan × List (Action × Snapshot)))
    (hruns : ∀ run ∈ runs, run.1.options.policy = .stop ∧ run.1.options.applyState = true)
    (m' : MemoryStore) (reports : List RunReport)
    (h : Run.series runs MemoryStore.empty = .ok reports m') (key : EntityKey) :
    Lifecycle (m'.recordsOf key) ∧
      (m'.recordsOf key).IsChain fun before r =>
        before.version = Int64.maxValue → r.action ≠ .modify := by
  have hstrict : ∀ run ∈ runs, run.1.options.Strict := fun run hrun =>
    ⟨(hruns run hrun).1, (hruns run hrun).2⟩
  have hlifecycle := (Run.lawful_series hstrict .empty h).lifecycle key
  refine ⟨hlifecycle, hlifecycle.stepwise.imp ?_⟩
  intro before r hstep hmax hmodify
  have hversion := hstep hmodify
  have hle := r.version.toInt_le
  rw [hmax] at hversion
  omega

/-- A line that is created and modified in one run, and deleted in another that skips what was
applied. -/
theorem strict_runs_write_lifecycle_of_line :
    ∃ reports m',
      Run.series
        [(⟨{ policy := .stop }, ⟨"first"⟩⟩, [(.create, .shortLine 4), (.modify, .shortLine 5)]),
          (⟨{ policy := .stop, skipApplied := true }, ⟨"second"⟩⟩, [(.delete, .shortLine 8)])]
        MemoryStore.empty = .ok reports m' ∧
      Lifecycle (m'.recordsOf ⟨.line, 7⟩) := by
  let first : Plan := ⟨{ policy := .stop }, ⟨"first"⟩⟩
  let second : Plan := ⟨{ policy := .stop, skipApplied := true }, ⟨"second"⟩⟩
  have hfirstStrict : first.options.Strict := ⟨rfl, rfl⟩
  have hsecondStrict : second.options.Strict := ⟨rfl, rfl⟩
  have habsent : (first.start MemoryStore.empty).store.entities[(Snapshot.shortLine 4).key]? =
      none := by simp [Plan.start, MemoryStore.empty]
  obtain ⟨o₁, s₁, h₁, he₁⟩ := Run.process_of_fitting hfirstStrict
    (first.start MemoryStore.empty) .create (.shortLine 4) rfl habsent rfl rfl
  obtain ⟨o₂, s₂, h₂, he₂⟩ := Run.process_of_fitting hfirstStrict s₁ .modify (.shortLine 5)
    rfl he₁ rfl rfl
  have hfirst : Run.outcomes first [(.create, .shortLine 4), (.modify, .shortLine 5)]
      (first.start MemoryStore.empty) = .ok [o₁, o₂] s₂ :=
    Run.outcomes_cons_eq_ok.2 ⟨o₁, s₁, [o₂], h₁,
      Run.outcomes_cons_eq_ok.2 ⟨o₂, s₂, [], h₂, rfl, rfl⟩, rfl⟩
  have hstored : s₂.finalized.store.entities[(Snapshot.shortLine 8).key]? =
      some (.shortLine 5) := by
    rw [RunState.entities_finalized]
    exact he₂
  obtain ⟨o₃, s₃, h₃, -⟩ := Run.process_of_fitting hsecondStrict
    (second.start s₂.finalized.store) .delete (.shortLine 8) rfl hstored rfl rfl
  have hsecond : Run.outcomes second [(.delete, .shortLine 8)]
      (second.start s₂.finalized.store) = .ok [o₃] s₃ :=
    Run.outcomes_cons_eq_ok.2 ⟨o₃, s₃, [], h₃, rfl, rfl⟩
  obtain ⟨reports, hseries⟩ : ∃ reports,
      Run.series [(first, [(.create, .shortLine 4), (.modify, .shortLine 5)]),
        (second, [(.delete, .shortLine 8)])] MemoryStore.empty =
          .ok reports s₃.finalized.store :=
    ⟨_, Run.series_cons_eq_ok.2 ⟨_, _, _, Run.all_of_outcomes (.start _ _) hfirst,
      Run.series_cons_eq_ok.2 ⟨_, _, [], Run.all_of_outcomes (.start _ _) hsecond, rfl, rfl⟩, rfl⟩⟩
  have hlifecycle := strict_runs_write_lifecycles _ (by simp [first, second]) _ _ hseries ⟨.line, 7⟩
  exact ⟨reports, _, hseries, hlifecycle.1⟩

end MapAudit
