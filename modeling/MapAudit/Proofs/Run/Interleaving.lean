import MapAudit.Proofs.Run.Accounts
import MapAudit.Proofs.Run.Chain

namespace MapAudit

def changesTo (key : EntityKey) (changes : List (Action × Snapshot)) : List (Action × Snapshot) :=
  changes.filter (·.2.key = key)

theorem mem_changesTo {key : EntityKey} {changes : List (Action × Snapshot)}
    {c : Action × Snapshot} : c ∈ changesTo key changes ↔ c ∈ changes ∧ c.2.key = key := by
  simp [changesTo]

namespace MemoryStore

/-- Two stores tell the same of an entity: the same version and the same records. -/
structure SameFor (key : EntityKey) (m m' : MemoryStore) : Prop where
  entity : m.entities[key]? = m'.entities[key]?
  records : m.recordsOf key = m'.recordsOf key

namespace SameFor
variable {key : EntityKey} {m m' m₁ m₂ : MemoryStore}

theorem refl (key : EntityKey) (m : MemoryStore) : SameFor key m m := ⟨rfl, rfl⟩

theorem symm (h : SameFor key m m') : SameFor key m' m := ⟨h.entity.symm, h.records.symm⟩

theorem trans (h : SameFor key m m₁) (h' : SameFor key m₁ m₂) : SameFor key m m₂ :=
  ⟨h.entity.trans h'.entity, h.records.trans h'.records⟩

theorem of_eq (he : m.entities = m'.entities) (hc : m.changes = m'.changes) : SameFor key m m' where
  entity := by rw [he]
  records := by
    unfold recordsOf
    rw [hc]

/-- What is written of one entity is nothing to another. -/
theorem written_of_ne {next : Snapshot} (hne : next.key ≠ key) (m : MemoryStore) (o : Options)
    (action : Action) (previous : Option Snapshot) :
    SameFor key (m.written o action previous next) m where
  entity := by
    rw [entities_written, if_neg]
    intro h
    exact hne h.2
  records := by rw [Chained.recordsOf_written, if_neg hne]

/-- What is written of an entity depends on nothing else in the store. -/
theorem written (h : SameFor key m m') (o : Options) (action : Action) (previous : Option Snapshot)
    (next : Snapshot) :
    SameFor key (m.written o action previous next) (m'.written o action previous next) where
  entity := by rw [entities_written, entities_written, h.entity]
  records := by rw [Chained.recordsOf_written, Chained.recordsOf_written, h.records]

end SameFor

end MemoryStore

namespace Run
open MemoryStore
variable {plan : Plan} {s s' t : RunState MemoryStore} {key : EntityKey}

/-- A change of one entity leaves the others alone. -/
theorem sameFor_process_of_ne {action : Action} {next : Snapshot} {o : Outcome}
    (h : process plan action next s = .ok o s') (hne : next.key ≠ key) :
    SameFor key s'.store s.store := by
  rcases process_ok_cases h with ⟨-, -, -, he, hc⟩ | ⟨-, -, -, -, rfl, he, hc⟩
  · exact .of_eq he hc
  · exact (SameFor.of_eq he hc).trans (.written_of_ne hne _ _ _ _)

/-- A change does the same to its entity in all stores that tell the same of it. -/
theorem sameFor_process (plan' : Plan) {action : Action} {next : Snapshot} {o : Outcome}
    (h : process plan action next s = .ok o s') (hopt : plan'.options = plan.options)
    (hsame : SameFor next.key s.store t.store) :
    ∃ t', process plan' action next t = .ok o t' ∧ SameFor next.key s'.store t'.store := by
  obtain ⟨t', h'⟩ := process_ok_of_entity (t := t) plan' h hopt hsame.entity.symm
  refine ⟨t', h', ?_⟩
  rcases process_ok_cases h with ⟨stored, -, ho, hse, hsc⟩ | ⟨i, m, -, ho, rfl, hse, hsc⟩
  · rcases process_ok_cases h' with ⟨-, -, -, hte, htc⟩ | ⟨j, -, -, ho', -⟩
    · exact (SameFor.of_eq hse hsc).trans (hsame.trans (.of_eq hte.symm htc.symm))
    · rw [ho] at ho'
      cases ho'
  · rcases process_ok_cases h' with ⟨stored, -, ho', -⟩ | ⟨-, m, -, -, hm, hte, htc⟩
    · rw [ho] at ho'
      cases ho'
    · rw [hopt, ← hsame.entity] at hm
      have hwritten := hsame.written plan.options action s.store.entities[next.key]? next
      rw [← hm] at hwritten
      exact (SameFor.of_eq hse hsc).trans (hwritten.trans (.of_eq hte.symm htc.symm))

/-- The changes of an entity do alone what they do among others. -/
theorem sameFor_outcomes (plan' : Plan) {changes : List (Action × Snapshot)} {os : List Outcome}
    (h : outcomes plan changes s = .ok os s') (hopt : plan'.options = plan.options)
    (hsame : SameFor key s.store t.store) :
    ∃ os' t', outcomes plan' (changesTo key changes) t = .ok os' t' ∧
      SameFor key s'.store t'.store := by
  induction changes generalizing s t os with
  | nil =>
    obtain ⟨-, rfl⟩ := outcomes_nil_eq_ok.1 h
    exact ⟨[], t, rfl, hsame⟩
  | cons c changes ih =>
    obtain ⟨o, s₁, os', ho, hos, -⟩ := outcomes_cons_eq_ok.1 h
    by_cases hkey : c.2.key = key
    · have hcons : changesTo key (c :: changes) = c :: changesTo key changes := by
        simp [changesTo, hkey]
      subst hkey
      obtain ⟨t₁, ho', hsame₁⟩ := sameFor_process plan' ho hopt hsame
      obtain ⟨os', t', hos', hsame'⟩ := ih hos hsame₁
      rw [hcons]
      exact ⟨o :: os', t', outcomes_cons_eq_ok.2 ⟨o, t₁, os', ho', hos', rfl⟩, hsame'⟩
    · have hcons : changesTo key (c :: changes) = changesTo key changes := by
        simp [changesTo, hkey]
      have hother := sameFor_process_of_ne ho hkey
      rw [hcons]
      exact ih hos (hother.trans hsame)

/-- A run over the changes of one entity has records of that entity alone. -/
theorem recordsOf_outcomes {changes : List (Action × Snapshot)} {os : List Outcome}
    (hkeys : ∀ c ∈ changes, c.2.key = key) (h : outcomes plan changes s = .ok os s') :
    ∃ written, s'.store.changes.toList = s.store.changes.toList ++ written ∧
      s'.store.recordsOf key = s.store.recordsOf key ++ written := by
  obtain ⟨ts, -, rfl, -, hacc⟩ := turns_of_outcomes h
  refine ⟨Turn.records plan.options ts, hacc.changes, ?_⟩
  unfold MemoryStore.recordsOf
  rw [hacc.changes, List.filter_append]
  congr 1
  rw [List.filter_eq_self]
  intro r hr
  obtain ⟨c, hc, previous, rfl⟩ := Turn.exists_of_mem_records hr
  simpa using hkeys c hc

end Run

/-- Entities do not interfere. Where conflicts do not stop a run and all changes pass the check, a run
has of each entity the records that a run over the changes of this entity alone writes, and leaves the
same version of it. So all interleavings of the same changes of each entity give every entity the same
records and leave the same version of it; two entities may share an id if their kinds differ. -/
theorem entities_do_not_interfere (o : Options) (hpolicy : o.policy ≠ .stop) (m : MemoryStore)
    (changes : List (Action × Snapshot))
    (hchecked : ∀ c ∈ changes, c.2.timestamp.isSome = true ∧ 1 ≤ c.2.version) (whole : RunId) :
    ∃ report s, Run.all ⟨o, whole⟩ changes (Plan.start ⟨o, whole⟩ m) = .ok report s ∧
      (∀ key (alone : RunId), ∃ report' t written,
        Run.all ⟨o, alone⟩ (changesTo key changes) (Plan.start ⟨o, alone⟩ m) = .ok report' t ∧
        t.store.changes.toList = m.changes.toList ++ written ∧
        s.store.recordsOf key = m.recordsOf key ++ written ∧
        s.store.entities[key]? = t.store.entities[key]?) ∧
      ∀ changes' (other : RunId), (∀ key, changesTo key changes' = changesTo key changes) →
        ∃ report' s', Run.all ⟨o, other⟩ changes' (Plan.start ⟨o, other⟩ m) = .ok report' s' ∧
          ∀ key, MemoryStore.SameFor key s.store s'.store := by
  have hchecks : ∀ c ∈ changes, ∃ time, Run.check c.2 = .ok time := by
    intro c hc
    exact Run.exists_check_eq_ok (hchecked c hc).1 (hchecked c hc).2
  obtain ⟨os, s, hs⟩ := Run.outcomes_of_checked ⟨o, whole⟩ (s := Plan.start ⟨o, whole⟩ m) hpolicy
    changes hchecks
  have hfinal (s : RunState MemoryStore) (key : EntityKey) :
      MemoryStore.SameFor key s.finalized.store s.store :=
    .of_eq RunState.entities_finalized RunState.changes_finalized
  refine ⟨_, _, Run.all_of_outcomes (.start _ m) hs, ?_, ?_⟩
  · intro key alone
    obtain ⟨os', t, ht, hsame⟩ := Run.sameFor_outcomes (t := Plan.start ⟨o, alone⟩ m)
      ⟨o, alone⟩ hs rfl (MemoryStore.SameFor.refl key m)
    obtain ⟨written, hlog, hrecords⟩ := Run.recordsOf_outcomes
      (fun c hc => (mem_changesTo.1 hc).2) ht
    have hsame' := (hfinal s key).trans hsame
    refine ⟨_, t.finalized, written, Run.all_of_outcomes (.start _ m) ht, ?_, ?_, ?_⟩
    · rw [RunState.changes_finalized]
      exact hlog
    · exact hsame'.records.trans hrecords
    · rw [RunState.entities_finalized (s := t)]
      exact hsame'.entity
  · intro changes' other hinterleaved
    have hchecks' : ∀ c ∈ changes', ∃ time, Run.check c.2 = .ok time := by
      intro c hc
      have hown : c ∈ changesTo c.2.key changes' := mem_changesTo.2 ⟨hc, rfl⟩
      rw [hinterleaved] at hown
      exact hchecks c (mem_changesTo.1 hown).1
    obtain ⟨os', s', hs'⟩ := Run.outcomes_of_checked ⟨o, other⟩ (s := Plan.start ⟨o, other⟩ m)
      hpolicy changes' hchecks'
    refine ⟨_, _, Run.all_of_outcomes (.start _ m) hs', fun key => ?_⟩
    -- Both runs do to the entity what one and the same run over its own changes does.
    obtain ⟨os₁, t, ht, hsame⟩ := Run.sameFor_outcomes (t := Plan.start ⟨o, whole⟩ m)
      ⟨o, whole⟩ hs rfl (MemoryStore.SameFor.refl key m)
    obtain ⟨os₂, t', ht', hsame'⟩ := Run.sameFor_outcomes (t := Plan.start ⟨o, whole⟩ m)
      ⟨o, whole⟩ hs' rfl (MemoryStore.SameFor.refl key m)
    rw [hinterleaved, ht] at ht'
    cases ht'
    exact ((hfinal s key).trans hsame).trans ((hfinal s' key).trans hsame').symm

/-- The versions of a point that shares its id with the line. -/
def Snapshot.samePoint (version : Int64) : Snapshot := { shortLine version with kind := .point }

/-- A line and a point of one id, their versions by turns and one entity after the other. -/
theorem line_and_point_do_not_interfere :
    ∃ report s report' s',
      Run.all ⟨{}, ⟨"turns"⟩⟩
          [(.create, .shortLine 1), (.create, .samePoint 1), (.modify, .shortLine 2),
            (.delete, .samePoint 2)]
          (Plan.start ⟨{}, ⟨"turns"⟩⟩ MemoryStore.empty) = .ok report s ∧
        Run.all ⟨{}, ⟨"apart"⟩⟩
          [(.create, .samePoint 1), (.delete, .samePoint 2), (.create, .shortLine 1),
            (.modify, .shortLine 2)]
          (Plan.start ⟨{}, ⟨"apart"⟩⟩ MemoryStore.empty) = .ok report' s' ∧
        ∀ key, MemoryStore.SameFor key s.store s'.store := by
  obtain ⟨report, s, hs, -, hother⟩ := entities_do_not_interfere {} (by decide) MemoryStore.empty
    [(.create, .shortLine 1), (.create, .samePoint 1), (.modify, .shortLine 2),
      (.delete, .samePoint 2)] (by
      intro c hc
      simp only [List.mem_cons, List.not_mem_nil, or_false] at hc
      obtain rfl | rfl | rfl | rfl := hc <;> exact ⟨rfl, by decide⟩) ⟨"turns"⟩
  obtain ⟨report', s', hs', hsame⟩ := hother
    [(.create, .samePoint 1), (.delete, .samePoint 2), (.create, .shortLine 1),
      (.modify, .shortLine 2)] ⟨"apart"⟩ (by
      intro key
      have hline (version : Int64) : (Snapshot.shortLine version).key = ⟨.line, 7⟩ := rfl
      have hpoint (version : Int64) : (Snapshot.samePoint version).key = ⟨.point, 7⟩ := rfl
      by_cases hkey : ⟨.line, 7⟩ = key
      · subst hkey
        simp [changesTo, hline, hpoint]
      · simp [changesTo, List.filter_cons, hline, hpoint, hkey])
  exact ⟨report, s, report', s', hs, hs', hsame⟩

end MapAudit
