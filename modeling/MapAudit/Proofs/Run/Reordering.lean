import MapAudit.Proofs.Run.Interleaving
import MapAudit.Proofs.Time.Millis

namespace MapAudit
open Time

namespace Time.Instant

/-- Of two different instants one comes first. -/
theorem eq_of_not_isLT {a b : Instant} (h : ¬(compare a b).isLT = true)
    (h' : ¬(compare b a).isLT = true) : a = b := by
  rw [isLT_compare_iff] at h h'
  obtain ⟨s, n⟩ := a
  obtain ⟨t, k⟩ := b
  dsimp only at h h'
  rw [Instant.mk.injEq]
  omega

theorem later_comm (a b : Instant) : later a b = later b a := by
  unfold later
  by_cases h : (compare a b).isLT = true
  · have h' : ¬(compare b a).isLT = true := by
      rw [isLT_compare_iff] at h ⊢
      omega
    rw [if_pos h, if_neg h']
  · by_cases h' : (compare b a).isLT = true
    · rw [if_neg h, if_pos h']
    · rw [if_neg h, if_neg h']
      exact eq_of_not_isLT h h'

theorem later_assoc (a b c : Instant) : later (later a b) c = later a (later b c) := by
  unfold later
  by_cases hab : (compare a b).isLT = true
  · rw [if_pos hab]
    by_cases hbc : (compare b c).isLT = true
    · have hac : (compare a c).isLT = true := by
        rw [isLT_compare_iff] at hab hbc ⊢
        omega
      rw [if_pos hbc, if_pos hac]
    · rw [if_neg hbc, if_pos hab]
  · rw [if_neg hab]
    by_cases hbc : (compare b c).isLT = true
    · rw [if_pos hbc]
    · have hac : ¬(compare a c).isLT = true := by
        rw [isLT_compare_iff] at hab hbc ⊢
        omega
      rw [if_neg hbc, if_neg hab, if_neg hac]

theorem laterOf_right_comm (a b c : Option Instant) :
    laterOf (laterOf a b) c = laterOf (laterOf a c) b := by
  cases a with
  | none =>
    cases b with
    | none => cases c <;> rfl
    | some b =>
      cases c with
      | none => rfl
      | some c => exact congrArg some (later_comm b c)
  | some a =>
    cases b with
    | none => cases c <;> rfl
    | some b =>
      cases c with
      | none => rfl
      | some c =>
        change some (later (later a b) c) = some (later (later a c) b)
        rw [later_assoc, later_assoc, later_comm b c]

end Time.Instant

namespace MemoryStore

theorem latest_perm {rs rs' : List ChangeRecord} (h : rs.Perm rs') : latest rs = latest rs' :=
  h.foldl_eq' (fun r _ r' _ t => Instant.laterOf_right_comm t r.timestamp r'.timestamp) none

def summary? (m : MemoryStore) (id : Int64) : Option (Int × Option Instant) :=
  m.changesets[id]?.map fun c => (c.numChanges, c.closedAt)

theorem entities_written_of_not_apply {o : Options} (ho : o.applyState = false) (m : MemoryStore)
    (action : Action) (previous : Option Snapshot) (next : Snapshot) :
    (m.written o action previous next).entities = m.entities := by
  simp [written, ho]

end MemoryStore

/-- The turn of a change, given what is stored of each entity. -/
def Turn.finding (found : EntityKey → Option Snapshot) (c : Action × Snapshot) : Turn :=
  ⟨c.1, c.2, found c.2.key⟩

section perm
variable {ts us : List Turn} (h : ts.Perm us) (o : Options)
include h

theorem RunStats.after_perm (stats : RunStats) : stats.after o ts = stats.after o us := by
  unfold after
  rw [h.countP_eq, h.countP_eq, h.countP_eq]

theorem Turn.records_perm : (Turn.records o ts).Perm (Turn.records o us) :=
  (h.filter _).map _

end perm

namespace Run
open MemoryStore
variable {plan : Plan} {s s' : RunState MemoryStore}

/-- Without entity state a change leaves the entities as they are. -/
theorem entities_process (hplan : plan.options.applyState = false) {action : Action}
    {next : Snapshot} {o : Outcome} (h : process plan action next s = .ok o s') :
    s'.store.entities = s.store.entities := by
  rcases process_ok_cases h with ⟨-, -, -, he, -⟩ | ⟨-, -, -, -, rfl, he, -⟩
  · exact he
  · exact he.trans (entities_written_of_not_apply hplan _ _ _ _)

/-- Without entity state every change finds what was stored before all of them. -/
theorem accounted_outcomes (hplan : plan.options.applyState = false)
    {changes : List (Action × Snapshot)} {os : List Outcome}
    (h : outcomes plan changes s = .ok os s') :
    s'.store.entities = s.store.entities ∧
      Accounted plan.options s s' (changes.map (.finding (s.store.entities[·]?))) := by
  induction changes generalizing s os with
  | nil =>
    obtain ⟨-, rfl⟩ := outcomes_nil_eq_ok.1 h
    exact ⟨rfl, .nil _ _⟩
  | cons c changes ih =>
    obtain ⟨o, s₁, os', ho, hos, -⟩ := outcomes_cons_eq_ok.1 h
    have hentities := entities_process hplan ho
    obtain ⟨-, hturn⟩ := process_ok_turn rfl ho
    obtain ⟨hrest, haccounted⟩ := ih hos
    -- The rest finds the entities as they were before this change.
    rw [hentities] at haccounted
    exact ⟨hrest.trans hentities, hturn.append haccounted⟩

/-- The changesets of a run, of which all changes have a time, in summary. -/
theorem summary?_run {m : MemoryStore} {changes : List (Action × Snapshot)} {os : List Outcome}
    (htimes : ∀ c ∈ changes, c.2.timestamp.isSome = true)
    (h : outcomes plan changes (plan.start m) = .ok os s) (id : Int64) :
    s.finalized.store.summary? id =
      if ∃ c ∈ changes, c.2.changesetId = id then
        some (((s.store.changesOf id).length : Int), latest (s.store.changesOf id))
      else m.summary? id := by
  unfold summary?
  rw [changesets_run h]
  split
  · next hid =>
    have hsome : (m.changesets[id]?.or (firstChangeset changes id)).isSome = true := by
      rw [Option.isSome_or, (isSome_firstChangeset htimes id).2 hid, Bool.or_true]
    obtain ⟨c, hc⟩ := Option.isSome_iff_exists.1 hsome
    rw [hc]
    rfl
  · rfl

end Run

/-- Where the new state of entities is not written and conflicts do not stop a run, the order of the
changes is irrelevant. All orders go through and leave the entities as they were; they write the
same records and touch the same changesets, if in another order, and come to the same counts; and
the same changesets are there afterwards, with the same number of changes and the same end. -/
theorem order_irrelevant_without_state (o : Options) (happly : o.applyState = false)
    (hpolicy : o.policy ≠ .stop) (m : MemoryStore) (changes changes' : List (Action × Snapshot))
    (hperm : changes.Perm changes')
    (hchecked : ∀ c ∈ changes, c.2.timestamp.isSome = true ∧ 1 ≤ c.2.version)
    (first second : RunId) :
    ∃ report s written report' s' written',
      Run.all ⟨o, first⟩ changes (Plan.start ⟨o, first⟩ m) = .ok report s ∧
      Run.all ⟨o, second⟩ changes' (Plan.start ⟨o, second⟩ m) = .ok report' s' ∧
      s.store.entities = m.entities ∧ s'.store.entities = m.entities ∧
      s.store.changes.toList = m.changes.toList ++ written ∧
      s'.store.changes.toList = m.changes.toList ++ written' ∧
      written.Perm written' ∧
      report.stats = report'.stats ∧
      report.changesets.Perm report'.changesets ∧
      ∀ id, s.store.summary? id = s'.store.summary? id := by
  have hchecked' : ∀ c ∈ changes', c.2.timestamp.isSome = true ∧ 1 ≤ c.2.version :=
    fun c hc => hchecked c (hperm.mem_iff.2 hc)
  have hgoes (changes : List (Action × Snapshot)) (run : RunId)
      (h : ∀ c ∈ changes, c.2.timestamp.isSome = true ∧ 1 ≤ c.2.version) :=
    Run.outcomes_of_checked ⟨o, run⟩ (s := Plan.start ⟨o, run⟩ m) hpolicy changes
      fun c hc => Run.exists_check_eq_ok (h c hc).1 (h c hc).2
  obtain ⟨os, s, hs⟩ := hgoes changes first hchecked
  obtain ⟨os', s', hs'⟩ := hgoes changes' second hchecked'
  -- No change alters what the next one finds, so both runs have the same turns, reordered.
  obtain ⟨hentities, hstats, hlog, -⟩ := Run.accounted_outcomes happly hs
  obtain ⟨hentities', hstats', hlog', -⟩ := Run.accounted_outcomes happly hs'
  have hturns := hperm.map (Turn.finding (m.entities[·]?))
  have hrecords := Turn.records_perm hturns o
  have hids (id : Int64) : (∃ c ∈ changes, c.2.changesetId = id) ↔
      ∃ c ∈ changes', c.2.changesetId = id := by
    simp only [hperm.mem_iff]
  refine ⟨_, s.finalized, _, _, s'.finalized, _, Run.all_of_outcomes (.start _ m) hs,
    Run.all_of_outcomes (.start _ m) hs', ?_, ?_, ?_, ?_, hrecords, ?_, ?_, fun id => ?_⟩
  · rw [RunState.entities_finalized]
    exact hentities
  · rw [RunState.entities_finalized]
    exact hentities'
  · rw [RunState.changes_finalized]
    exact hlog
  · rw [RunState.changes_finalized]
    exact hlog'
  · dsimp only
    rw [hstats, hstats']
    exact RunStats.after_perm hturns o _
  · -- Neither list has repeats, so it is enough that they hold the same ids.
    refine (List.perm_ext_iff_of_nodup s.ledger.touched.nodup s'.ledger.touched.nodup).2 ?_
    intro id
    refine (Run.touched_outcomes hs id).trans (Iff.trans ?_ (Run.touched_outcomes hs' id).symm)
    exact or_congr Iff.rfl (hids id)
  · have hchangesOf : (s.store.changesOf id).Perm (s'.store.changesOf id) := by
      unfold MemoryStore.changesOf
      rw [hlog, hlog']
      exact (hrecords.append_left _).filter _
    rw [Run.summary?_run (fun c hc => (hchecked c hc).1) hs,
      Run.summary?_run (fun c hc => (hchecked' c hc).1) hs', hchangesOf.length_eq,
      MemoryStore.latest_perm hchangesOf]
    simp only [hids]

/-- Two changes of a stored line, of which one is passed over, and one of a point, forth and back.
-/
theorem order_irrelevant_of_line_and_point :
    ∃ report s report' s',
      Run.all ⟨{ skipApplied := true, applyState := false }, ⟨"forth"⟩⟩
          [(.create, .shortLine 1), (.modify, .shortLine 5), (.create, .samePoint 1)]
          (Plan.start ⟨{ skipApplied := true, applyState := false }, ⟨"forth"⟩⟩
            (MemoryStore.empty.insertEntity (.shortLine 2))) = .ok report s ∧
        Run.all ⟨{ skipApplied := true, applyState := false }, ⟨"back"⟩⟩
          [(.create, .samePoint 1), (.modify, .shortLine 5), (.create, .shortLine 1)]
          (Plan.start ⟨{ skipApplied := true, applyState := false }, ⟨"back"⟩⟩
            (MemoryStore.empty.insertEntity (.shortLine 2))) = .ok report' s' ∧
        report.stats = report'.stats ∧
        ∀ id, s.store.summary? id = s'.store.summary? id := by
  obtain ⟨report, s, -, report', s', -, hs, hs', -, -, -, -, -, hstats, -, hsummaries⟩ :=
    order_irrelevant_without_state { skipApplied := true, applyState := false } rfl (by decide)
      (MemoryStore.empty.insertEntity (.shortLine 2))
      [(.create, .shortLine 1), (.modify, .shortLine 5), (.create, .samePoint 1)]
      [(.create, .samePoint 1), (.modify, .shortLine 5), (.create, .shortLine 1)]
      (List.reverse_perm (α := Action × Snapshot)
        [(.create, .samePoint 1), (.modify, .shortLine 5), (.create, .shortLine 1)])
      (by
        intro c hc
        simp only [List.mem_cons, List.not_mem_nil, or_false] at hc
        obtain rfl | rfl | rfl := hc <;> exact ⟨rfl, by decide⟩) ⟨"forth"⟩ ⟨"back"⟩
  exact ⟨report, s, report', s', hs, hs', hstats, hsummaries⟩

end MapAudit
