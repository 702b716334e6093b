import Mathlib.Data.List.Forall2
import MapAudit.Proofs.Run.Effect

namespace MapAudit
open Time

/-- What is stored of an entity is a version that is no older. -/
def Snapshot.CoveredBy (next : Snapshot) (stored : Option Snapshot) : Prop :=
  ∃ p, stored = some p ∧ next.version ≤ p.version

namespace MemoryStore

/-- The entities, the audit log, the changesets and the users of two stores are the same. -/
structure SameTables (m m' : MemoryStore) : Prop where
  entities : m.entities = m'.entities
  changes : m.changes = m'.changes
  changesets : m.changesets = m'.changesets
  users : m.users = m'.users

theorem SameTables.trans {m₁ m₂ m₃ : MemoryStore} (h : m₁.SameTables m₂) (h' : m₂.SameTables m₃) :
    m₁.SameTables m₃ :=
  ⟨h.entities.trans h'.entities, h.changes.trans h'.changes, h.changesets.trans h'.changesets,
    h.users.trans h'.users⟩

end MemoryStore

namespace Run

theorem applied?_eq_some {previous : Option Snapshot} {next : Snapshot} {stored : Int64} :
    applied? previous next = some stored ↔
      ∃ p, previous = some p ∧ next.version ≤ p.version ∧ p.version = stored := by
  unfold applied?
  cases previous with
  | none => simp
  | some p =>
    rw [Option.filter_some]
    by_cases h : next.version ≤ p.version <;> simp [h]

theorem applied?_eq_none {p next : Snapshot} (h : applied? (some p) next = none) :
    p.version < next.version := by
  unfold applied? at h
  rw [Option.filter_some] at h
  by_cases hle : next.version ≤ p.version
  · simp [hle] at h
  · exact Int64.not_le.1 hle

end Run

namespace Options
variable {o : Options} {action : Action} {previous : Option Snapshot} {next : Snapshot}

theorem verdict_of_applied (ho : o.skipApplied = true) {stored : Int64}
    (h : Run.applied? previous next = some stored) :
    o.verdict action previous next = .skip stored := by
  simp only [verdict, ho, if_true, h]

theorem verdict_ne_refuse (ho : o.policy ≠ .stop) {i : InvalidAction} :
    o.verdict action previous next ≠ .refuse i := by
  unfold verdict
  split
  · simp
  · split <;> simp [ho]

theorem applied?_of_skip {stored : Int64} (h : o.verdict action previous next = .skip stored) :
    Run.applied? previous next = some stored := by
  unfold verdict at h
  split at h
  · next hs =>
    split at hs
    · cases h
      exact hs
    · cases hs
  · split at h
    · cases h
    · split at h <;> cases h

theorem applied?_of_record (ho : o.skipApplied = true) {i : Option InvalidAction}
    (h : o.verdict action previous next = .record i) : Run.applied? previous next = none := by
  cases ha : Run.applied? previous next with
  | none => rfl
  | some stored =>
    rw [verdict_of_applied ho ha] at h
    cases h

end Options

namespace Run
variable {plan : Plan} {s s' : RunState MemoryStore}

/-- A change that has not been applied yet is newer than what it replaces, so it covers as much. -/
theorem coveredBy_leaves {n next : Snapshot} {previous : Option Snapshot}
    (h : n.CoveredBy previous) (hnone : applied? previous next = none) (action : Action) :
    n.CoveredBy (some (action.leaves next)) := by
  obtain ⟨p, rfl, hle⟩ := h
  refine ⟨_, rfl, Int64.le_trans hle ?_⟩
  rw [Action.version_leaves]
  exact Int64.le_of_lt (applied?_eq_none hnone)

section covers
variable (hskip : plan.options.skipApplied = true) (happly : plan.options.applyState = true)
include hskip happly

/-- A change that goes through is covered then, and what was covered stays covered. -/
theorem covers_process {action : Action} {next : Snapshot} {o : Outcome}
    (h : process plan action next s = .ok o s') :
    next.CoveredBy s'.store.entities[next.key]? ∧ ∀ n : Snapshot,
      n.CoveredBy s.store.entities[n.key]? → n.CoveredBy s'.store.entities[n.key]? := by
  rcases process_ok_cases h with ⟨stored, hv, -, he, -⟩ | ⟨i, m, hv, -, rfl, he, -⟩
  · obtain ⟨p, hp, hle, -⟩ := applied?_eq_some.1 (Options.applied?_of_skip hv)
    rw [he]
    exact ⟨⟨p, hp, hle⟩, fun n hn => hn⟩
  · have hentity (key : EntityKey) : s'.store.entities[key]? =
        if next.key = key then some (action.leaves next) else s.store.entities[key]? := by
      rw [he, MemoryStore.entities_written_of_apply _ _ _ _ _ happly]
    have hnone := Options.applied?_of_record hskip hv
    refine ⟨⟨action.leaves next, ?_, ?_⟩, fun n hn => ?_⟩
    · rw [hentity, if_pos rfl]
    · rw [Action.version_leaves]
      exact Int64.le_refl _
    · rw [hentity]
      split
      · next hk =>
        -- The change was not skipped, so its version is newer than the stored one.
        rw [hk] at hnone
        exact coveredBy_leaves hn hnone action
      · exact hn

/-- All changes of a run that goes through are covered at its end. -/
theorem covers_outcomes {changes : List (Action × Snapshot)} {os : List Outcome}
    (h : outcomes plan changes s = .ok os s') :
    (∀ c ∈ changes, c.2.CoveredBy s'.store.entities[c.2.key]?) ∧ ∀ n : Snapshot,
      n.CoveredBy s.store.entities[n.key]? → n.CoveredBy s'.store.entities[n.key]? := by
  induction changes generalizing s os with
  | nil =>
    obtain ⟨-, rfl⟩ := outcomes_nil_eq_ok.1 h
    exact ⟨fun c hc => absurd hc List.not_mem_nil, fun n hn => hn⟩
  | cons c changes ih =>
    obtain ⟨o, s₁, os', ho, hos, -⟩ := outcomes_cons_eq_ok.1 h
    obtain ⟨hc, hmono⟩ := covers_process hskip happly ho
    obtain ⟨hcs, hmono'⟩ := ih hos
    refine ⟨fun d hd => ?_, fun n hn => hmono' n (hmono n hn)⟩
    rcases List.mem_cons.1 hd with rfl | hd
    · exact hmono' _ hc
    · exact hcs d hd

end covers

theorem checked_outcomes {changes : List (Action × Snapshot)} {os : List Outcome}
    (h : outcomes plan changes s = .ok os s') : ∀ c ∈ changes, ∃ time, check c.2 = .ok time := by
  induction changes generalizing s os with
  | nil => intro c hc; cases hc
  | cons c changes ih =>
    obtain ⟨o, s₁, os', ho, hos, -⟩ := outcomes_cons_eq_ok.1 h
    obtain ⟨time, hcheck, -⟩ := process_ok_books ho
    intro d hd
    rcases List.mem_cons.1 hd with rfl | hd
    · exact ⟨time, hcheck⟩
    · exact ih hos d hd

def Skips (c : Action × Snapshot) (o : Outcome) : Prop :=
  ∃ stored, o = .skipped c.2.key c.2.version stored

/-- A covered change is skipped, which leaves records and entities alone. -/
theorem process_of_covered (plan : Plan) (hskip : plan.options.skipApplied = true)
    {c : Action × Snapshot} (hcheck : ∃ time, check c.2 = .ok time)
    (hcover : c.2.CoveredBy s.store.entities[c.2.key]?) :
    ∃ o s', process plan c.1 c.2 s = .ok o s' ∧ Skips c o ∧
      s'.store.entities = s.store.entities ∧ s'.store.changes = s.store.changes ∧
      s'.stats = { s.stats with skipped := s.stats.skipped + 1 } := by
  obtain ⟨time, hc⟩ := hcheck
  obtain ⟨p, hp, hle⟩ := hcover
  have hv : plan.options.verdict c.1 s.store.entities[c.2.key]? c.2 = .skip p.version :=
    Options.verdict_of_applied hskip (applied?_eq_some.2 ⟨p, hp, hle, rfl⟩)
  refine ⟨_, _, process_of_skip hc hv, ⟨p.version, rfl⟩, s.entities_enrolled c.2 time,
    s.changes_enrolled c.2 time, ?_⟩
  change { (s.enrolled c.2 time).stats with
    skipped := (s.enrolled c.2 time).stats.skipped + 1 } = _
  rw [RunState.stats_enrolled]

/-- Covered changes are skipped, one and all. -/
theorem outcomes_of_covered (plan : Plan) (hskip : plan.options.skipApplied = true)
    {changes : List (Action × Snapshot)} (hcheck : ∀ c ∈ changes, ∃ time, check c.2 = .ok time)
    (hcovers : ∀ c ∈ changes, c.2.CoveredBy s.store.entities[c.2.key]?) :
    ∃ os s', outcomes plan changes s = .ok os s' ∧ List.Forall₂ Skips changes os ∧
      s'.store.entities = s.store.entities ∧ s'.store.changes = s.store.changes ∧
      s'.stats = { s.stats with skipped := s.stats.skipped + changes.length } := by
  induction changes generalizing s with
  | nil => exact ⟨[], s, rfl, .nil, rfl, rfl, rfl⟩
  | cons c changes ih =>
    obtain ⟨o, s₁, ho, hskip₁, he, hch, hstats⟩ := process_of_covered plan hskip
      (hcheck c List.mem_cons_self) (hcovers c List.mem_cons_self)
    -- The stored versions are the same, so the rest is still covered.
    obtain ⟨os, s', hos, hskips, he', hch', hstats'⟩ :=
      ih (s := s₁) (fun d hd => hcheck d (List.mem_cons_of_mem _ hd)) fun d hd => by
        rw [he]
        exact hcovers d (List.mem_cons_of_mem _ hd)
    refine ⟨_, s', outcomes_cons_eq_ok.2 ⟨_, s₁, os, ho, hos, rfl⟩,
      .cons hskip₁ hskips, he'.trans he, hch'.trans hch, ?_⟩
    rw [hstats', hstats, List.length_cons]
    simp only [RunStats.mk.injEq, true_and, and_true]
    omega

/-- Where conflicts do not stop the run, changes that pass the check go through. -/
theorem outcomes_of_checked (plan : Plan) (hpolicy : plan.options.policy ≠ .stop)
    (changes : List (Action × Snapshot)) (hcheck : ∀ c ∈ changes, ∃ time, check c.2 = .ok time) :
    ∃ os s', outcomes plan changes s = .ok os s' := by
  induction changes generalizing s with
  | nil => exact ⟨[], s, rfl⟩
  | cons c changes ih =>
    obtain ⟨time, hc⟩ := hcheck c List.mem_cons_self
    have ho : ∃ o s₁, process plan c.1 c.2 s = .ok o s₁ := by
      cases hv : plan.options.verdict c.1 s.store.entities[c.2.key]? c.2 with
      | skip stored => exact ⟨_, _, process_of_skip hc hv⟩
      | refuse i => exact absurd hv (Options.verdict_ne_refuse hpolicy)
      | record i => exact ⟨_, _, process_of_record hc hv⟩
    obtain ⟨o, s₁, ho⟩ := ho
    obtain ⟨os, s', hos⟩ := ih (s := s₁) fun d hd => hcheck d (List.mem_cons_of_mem _ hd)
    exact ⟨_, s', outcomes_cons_eq_ok.2 ⟨o, s₁, os, ho, hos, rfl⟩⟩

/-- A run that goes through ends with a recount of what it touched. -/
theorem all_of_outcomes {changes : List (Action × Snapshot)} {os : List Outcome} (hk : Known s)
    (h : outcomes plan changes s = .ok os s') :
    all plan changes s =
      .ok { runId := plan.runId, stats := s'.stats, changesets := s'.ledger.touched.toList }
        s'.finalized :=
  all_eq_ok.2 ⟨os, s', h, (known_outcomes hk h).finalize_eq plan⟩

/-- A whole run that goes through is its changes going through, and what they leave finalized. -/
theorem outcomes_of_all {changes : List (Action × Snapshot)} {report : RunReport} (hk : Known s)
    (h : all plan changes s = .ok report s') :
    ∃ os t, outcomes plan changes s = .ok os t ∧ s' = t.finalized := by
  obtain ⟨os, t, hos, hfinal⟩ := all_eq_ok.1 h
  rw [(known_outcomes hk hos).finalize_eq] at hfinal
  cases hfinal
  exact ⟨os, t, hos, rfl⟩

end Run

section restart
variable {first second whole : Plan} {p q : List (Action × Snapshot)} {m : MemoryStore}
  {os₁ os₂ os₃ : List Outcome} {s t u : RunState MemoryStore}

/-- What a run leaves is settled by its changes and by the entities and records that it writes. -/
theorem sameTables_of_outcomes (hs : Run.outcomes whole p (whole.start m) = .ok os₁ s)
    (ht : Run.outcomes first p (first.start m) = .ok os₂ t)
    (he : t.store.entities = s.store.entities) (hc : t.store.changes = s.store.changes) :
    t.finalized.store.SameTables s.finalized.store where
  entities := by simpa using he
  changes := by simpa using hc
  changesets := by
    apply Std.ExtTreeMap.ext_getElem?
    intro id
    rw [Run.changesets_run hs, Run.changesets_run ht, MemoryStore.recount_congr hc]
  users := by
    apply Std.ExtTreeMap.ext_getElem?
    intro id
    rw [Run.users_run hs, Run.users_run ht]

theorem users_restart (hs : Run.outcomes whole (p ++ q) (whole.start m) = .ok os₁ s)
    (ht : Run.outcomes first p (first.start m) = .ok os₂ t)
    (hu : Run.outcomes second (p ++ q) (second.start t.finalized.store) = .ok os₃ u) :
    u.finalized.store.users = s.finalized.store.users := by
  apply Std.ExtTreeMap.ext_getElem?
  intro id
  rw [Run.users_run hs, Run.users_run hu, Run.users_run ht, firstUser_append]
  cases firstUser p id <;> cases firstUser q id <;> rfl

/-- Both runs open the same changesets, and the last recount sets right what it finds. -/
theorem changesets_restart (hs : Run.outcomes whole (p ++ q) (whole.start m) = .ok os₁ s)
    (ht : Run.outcomes first p (first.start m) = .ok os₂ t)
    (hu : Run.outcomes second (p ++ q) (second.start t.finalized.store) = .ok os₃ u)
    (hc : u.store.changes = s.store.changes) :
    u.finalized.store.changesets = s.finalized.store.changesets := by
  apply Std.ExtTreeMap.ext_getElem?
  intro id
  rw [Run.changesets_run hs, Run.changesets_run hu, Run.changesets_run ht,
    MemoryStore.recount_congr hc]
  by_cases hid : ∃ c ∈ p ++ q, c.2.changesetId = id
  · rw [if_pos hid, if_pos hid, firstChangeset_append]
    by_cases hid' : ∃ c ∈ p, c.2.changesetId = id
    · rw [if_pos hid']
      cases m.changesets[id]? <;> cases firstChangeset p id <;> cases firstChangeset q id <;>
        simp [MemoryStore.recount_recount]
    · rw [if_neg hid']
  · have hid' : ¬∃ c ∈ p, c.2.changesetId = id := fun ⟨c, hc, e⟩ =>
      hid ⟨c, List.mem_append_left q hc, e⟩
    rw [if_neg hid, if_neg hid, if_neg hid']

/-- What a first run has gone through, a second run skips. -/
theorem skips_restart {o : Options} (hskip : o.skipApplied = true) (happly : o.applyState = true)
    {first : RunId} (second : RunId)
    (ht : Run.outcomes ⟨o, first⟩ p (Plan.start ⟨o, first⟩ m) = .ok os₁ t) :
    ∃ os v, Run.outcomes ⟨o, second⟩ p (Plan.start ⟨o, second⟩ t.finalized.store) = .ok os v ∧
      List.Forall₂ Run.Skips p os ∧ v.store.entities = t.store.entities ∧
      v.store.changes = t.store.changes ∧ v.stats.processed = 0 := by
  have hcovered : ∀ c ∈ p, c.2.CoveredBy
      (Plan.start ⟨o, second⟩ t.finalized.store).store.entities[c.2.key]? := by
    intro c hc
    have hcover := (Run.covers_outcomes hskip happly ht).1 c hc
    rw [← RunState.entities_finalized (s := t)] at hcover
    exact hcover
  obtain ⟨os, v, hv, hskips, hentities, hchanges, hstats⟩ :=
    Run.outcomes_of_covered ⟨o, second⟩ hskip (Run.checked_outcomes ht) hcovered
  exact ⟨os, v, hv, hskips, hentities.trans RunState.entities_finalized,
    hchanges.trans RunState.changes_finalized, congrArg RunStats.processed hstats⟩

end restart

/-- Where applied changes are skipped, a stream may be started again from its beginning: a run of its
first part and then a run of the whole leave what one run of the whole leaves, and the second run
skips every change of the first. A mere repetition records nothing and changes no table. -/
theorem restart_from_beginning (o : Options) (hskip : o.skipApplied = true)
    (happly : o.applyState = true) (whole first second : RunId) (m : MemoryStore)
    (p q : List (Action × Snapshot)) (report : RunReport) (s : RunState MemoryStore)
    (h : Run.all ⟨o, whole⟩ (p ++ q) (Plan.start ⟨o, whole⟩ m) = .ok report s) :
    ∃ report₁ t report₂ u,
      Run.all ⟨o, first⟩ p (Plan.start ⟨o, first⟩ m) = .ok report₁ t ∧
      Run.all ⟨o, second⟩ (p ++ q) (Plan.start ⟨o, second⟩ t.store) = .ok report₂ u ∧
      u.store.SameTables s.store ∧
      (∃ os v, Run.outcomes ⟨o, second⟩ p (Plan.start ⟨o, second⟩ t.store) = .ok os v ∧
        List.Forall₂ Run.Skips p os) ∧
      (q = [] → report₂.stats.processed = 0 ∧ u.store.SameTables t.store) := by
  obtain ⟨os, s', hs, hfinal⟩ := Run.all_eq_ok.1 h
  rw [(Run.known_outcomes (.start _ m) hs).finalize_eq] at hfinal
  cases hfinal
  obtain ⟨os₁, s₁, os₂, hs₁, hs₂, -⟩ := Run.outcomes_append_eq_ok.1 hs
  -- The first run does to the first part what the whole run does.
  obtain ⟨t, ht, het, hct⟩ := Run.outcomes_congr (t := Plan.start ⟨o, first⟩ m)
    ⟨o, first⟩ hs₁ rfl rfl rfl
  -- The second run skips the first part, then does the rest as the whole run does.
  obtain ⟨os₃, v, hv, hskips, hev, hcv, hprocessed⟩ := skips_restart hskip happly second ht
  obtain ⟨u, hu, heu, hcu⟩ :=
    Run.outcomes_congr ⟨o, second⟩ hs₂ rfl (hev.trans het) (hcv.trans hct)
  have hwhole := Run.outcomes_append_eq_ok.2 ⟨os₃, v, os₂, hv, hu, rfl⟩
  have hsame : u.finalized.store.SameTables s'.finalized.store :=
    { entities := by simpa using heu
      changes := by simpa using hcu
      changesets := changesets_restart hs ht hwhole hcu
      users := users_restart hs ht hwhole }
  refine ⟨_, t.finalized, _, u.finalized, Run.all_of_outcomes (.start _ m) ht,
    Run.all_of_outcomes (.start _ _) hwhole, hsame, ⟨os₃, v, hv, hskips⟩, ?_⟩
  rintro rfl
  obtain ⟨-, rfl⟩ := Run.outcomes_nil_eq_ok.1 hu
  obtain ⟨-, rfl⟩ := Run.outcomes_nil_eq_ok.1 hs₂
  rw [List.append_nil] at hs
  exact ⟨hprocessed,
    hsame.trans (sameTables_of_outcomes ht hs het.symm hct.symm)⟩

/-- A run over two versions of a line, out of order, that was interrupted after the first. -/
theorem restart_after_first_version :
    ∃ report s, Run.all ⟨{ skipApplied := true }, ⟨"whole"⟩⟩
        ([(.create, .shortLine 2)] ++ [(.modify, .shortLine 1)])
        (Plan.start ⟨{ skipApplied := true }, ⟨"whole"⟩⟩ MemoryStore.empty) = .ok report s ∧
      ∃ report₁, ∃ t : RunState MemoryStore, ∃ report₂ u,
        Run.all ⟨{ skipApplied := true }, ⟨"first"⟩⟩ [(.create, .shortLine 2)]
          (Plan.start ⟨{ skipApplied := true }, ⟨"first"⟩⟩ MemoryStore.empty) = .ok report₁ t ∧
        Run.all ⟨{ skipApplied := true }, ⟨"second"⟩⟩
          ([(.create, .shortLine 2)] ++ [(.modify, .shortLine 1)])
          (Plan.start ⟨{ skipApplied := true }, ⟨"second"⟩⟩ t.store) = .ok report₂ u ∧
        u.store.SameTables s.store := by
  obtain ⟨os, s, hos⟩ := Run.outcomes_of_checked ⟨{ skipApplied := true }, ⟨"whole"⟩⟩
    (s := Plan.start ⟨{ skipApplied := true }, ⟨"whole"⟩⟩ MemoryStore.empty) (by decide)
    ([(.create, .shortLine 2)] ++ [(.modify, .shortLine 1)]) (by
      intro c hc
      simp only [List.cons_append, List.nil_append, List.mem_cons, List.not_mem_nil,
        or_false] at hc
      obtain rfl | rfl := hc <;> exact ⟨_, rfl⟩)
  have hall := Run.all_of_outcomes (.start _ _) hos
  obtain ⟨report₁, t, report₂, u, ht, hu, hsame, -⟩ :=
    restart_from_beginning { skipApplied := true } rfl rfl ⟨"whole"⟩ ⟨"first"⟩ ⟨"second"⟩ MemoryStore.empty
      _ _ _ _ hall
  exact ⟨_, _, hall, report₁, t, report₂, u, ht, hu, hsame⟩

end MapAudit
