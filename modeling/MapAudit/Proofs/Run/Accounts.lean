import MapAudit.Proofs.Run.Replay

namespace MapAudit

/-- A change, and what was stored of its entity when its turn came. -/
structure Turn where
  action : Action
  next : Snapshot
  previous : Option Snapshot

namespace Turn

def change (t : Turn) : Action × Snapshot := (t.action, t.next)

/-- The stored version for whose sake the change is passed over, if it is. -/
def applied? (o : Options) (t : Turn) : Option Int64 :=
  if o.skipApplied then Run.applied? t.previous t.next else none

def isRecorded (o : Options) (t : Turn) : Bool := (t.applied? o).isNone

def record (t : Turn) : ChangeRecord := .build t.action t.previous t.next

def conflict? (t : Turn) : Option InvalidAction := invalid? t.action t.previous t.next

/-- Whether the change is recorded in spite of a conflict. -/
def isFlagged (o : Options) (t : Turn) : Bool := t.isRecorded o && t.conflict?.isSome

def outcome (o : Options) (t : Turn) : Outcome :=
  match t.applied? o with
  | some stored => .skipped t.next.key t.next.version stored
  | none => .recorded t.record t.conflict?

variable {o : Options} {t : Turn}

theorem applied?_of_skip {stored : Int64}
    (h : o.verdict t.action t.previous t.next = .skip stored) : t.applied? o = some stored := by
  rcases o.verdict_cases t.action t.previous t.next with
    ⟨version, happlied, hv⟩ | ⟨i, -, -, hv⟩ | ⟨-, hv⟩
  · rw [hv] at h
    cases h
    exact happlied
  · rw [hv] at h
    cases h
  · rw [hv] at h
    cases h

theorem conflict?_of_record {i : Option InvalidAction}
    (h : o.verdict t.action t.previous t.next = .record i) :
    t.applied? o = none ∧ t.conflict? = i := by
  rcases o.verdict_cases t.action t.previous t.next with
    ⟨version, -, hv⟩ | ⟨j, -, -, hv⟩ | ⟨happlied, hv⟩
  · rw [hv] at h
    cases h
  · rw [hv] at h
    cases h
  · rw [hv] at h
    cases h
    exact ⟨happlied, rfl⟩

end Turn

def RunStats.after (stats : RunStats) (o : Options) (ts : List Turn) : RunStats where
  processed := stats.processed + ts.countP (·.isRecorded o)
  skipped := stats.skipped + ts.countP (!·.isRecorded o)
  invalid := stats.invalid + ts.countP (·.isFlagged o)

theorem RunStats.after_append (stats : RunStats) (o : Options) (ts us : List Turn) :
    stats.after o (ts ++ us) = (stats.after o ts).after o us := by
  simp [after, Nat.add_assoc]

def Turn.records (o : Options) (ts : List Turn) : List ChangeRecord :=
  (ts.filter (·.isRecorded o)).map record

theorem Turn.records_append (o : Options) (ts us : List Turn) :
    records o (ts ++ us) = records o ts ++ records o us := by
  simp [records]

/-- A record tells of one of the changes. -/
theorem Turn.exists_of_mem_records {o : Options} {ts : List Turn} {r : ChangeRecord}
    (h : r ∈ records o ts) :
    ∃ c ∈ ts.map change, ∃ previous, r = .build c.1 previous c.2 := by
  obtain ⟨t, ht, rfl⟩ := List.mem_map.1 h
  exact ⟨t.change, List.mem_map_of_mem (List.mem_filter.1 ht).1, t.previous, rfl⟩

/-- A change of an id that is there already brings no new one. -/
theorem eraseDups_append_singleton (ids : List Int64) (id : Int64) :
    (ids ++ [id]).eraseDups = if id ∈ ids then ids.eraseDups else ids.eraseDups ++ [id] := by
  rw [List.eraseDups_append]
  by_cases h : id ∈ ids
  · simp [List.removeAll, h]
  · simp [List.removeAll, h, List.eraseDups_cons]

namespace Run
variable {plan : Plan} {s s' : RunState MemoryStore}

/-- Processes changes in order, up to the first failure. Before each change it looks up what is stored
of its entity, and it tells the turn of each. -/
def turns (plan : Plan) : List (Action × Snapshot) → Run MemoryStore (List Turn)
  | [] => return []
  | c :: changes => do
    let previous ← onStore (Store.lookup c.2.key)
    let _ ← process plan c.1 c.2
    return ⟨c.1, c.2, previous⟩ :: (← turns plan changes)

theorem turns_cons_of_ok {c : Action × Snapshot} {changes : List (Action × Snapshot)}
    {outcome : Outcome} {s₁ : RunState MemoryStore} {ts : List Turn}
    (h : process plan c.1 c.2 s = .ok outcome s₁) (hts : turns plan changes s₁ = .ok ts s') :
    turns plan (c :: changes) s =
      .ok (⟨c.1, c.2, s.store.entities[c.2.key]?⟩ :: ts) s' := by
  have hstep : turns plan (c :: changes) s =
      (process plan c.1 c.2 >>= fun _ => turns plan changes >>= fun us =>
        pure (⟨c.1, c.2, s.store.entities[c.2.key]?⟩ :: us) : Run MemoryStore (List Turn)) s := rfl
  rw [hstep, bind_of_ok _ h, bind_of_ok _ hts]
  rfl

/-- What a change that goes through adds to the accounts. -/
structure Accounted (o : Options) (s s' : RunState MemoryStore) (ts : List Turn) : Prop where
  stats : s'.stats = s.stats.after o ts
  changes : s'.store.changes.toList = s.store.changes.toList ++ Turn.records o ts
  recomputed : s'.store.recomputed = s.store.recomputed

namespace Accounted
variable {o : Options} {s₁ : RunState MemoryStore} {ts us : List Turn}

theorem nil (o : Options) (s : RunState MemoryStore) : Accounted o s s [] where
  stats := by simp [RunStats.after]
  changes := by simp [Turn.records]
  recomputed := rfl

theorem append (h : Accounted o s s₁ ts) (h' : Accounted o s₁ s' us) :
    Accounted o s s' (ts ++ us) where
  stats := by rw [RunStats.after_append, ← h.stats, h'.stats]
  changes := by rw [Turn.records_append, ← List.append_assoc, ← h.changes, h'.changes]
  recomputed := h'.recomputed.trans h.recomputed

end Accounted

/-- A change that goes through comes to the outcome of its turn. -/
theorem process_ok_turn {c : Action × Snapshot} {outcome : Outcome} {t : Turn}
    (ht : t = ⟨c.1, c.2, s.store.entities[c.2.key]?⟩)
    (h : process plan c.1 c.2 s = .ok outcome s') :
    outcome = t.outcome plan.options ∧ Accounted plan.options s s' [t] := by
  rcases process_cases plan c.1 c.2 s with
    ⟨f, -, hp⟩ | ⟨time, -, ⟨stored, hv, hp⟩ | ⟨i, -, hp⟩ | ⟨i, hv, hp⟩⟩
  · rw [hp] at h
    cases h
  · rw [hp] at h
    cases h
    -- A version that is no older is stored: the change is passed over.
    have happlied : t.applied? plan.options = some stored := Turn.applied?_of_skip (ht ▸ hv)
    have hrecorded : t.isRecorded plan.options = false := by
      simp [Turn.isRecorded, happlied]
    refine ⟨?_, ?_, ?_, ?_⟩
    · have hnext : t.next = c.2 := by rw [ht]
      simp only [Turn.outcome, happlied, hnext]
    · simp [RunState.skipped, RunStats.after, Turn.isFlagged, hrecorded]
    · simp [RunState.skipped, Turn.records, hrecorded]
    · simp [RunState.skipped]
  · rw [hp] at h
    cases h
  · rw [hp] at h
    cases h
    -- The change is recorded, with the conflict that was let through, if any.
    obtain ⟨happlied, hconflict⟩ : t.applied? plan.options = none ∧ t.conflict? = i :=
      Turn.conflict?_of_record (ht ▸ hv)
    have hrecorded : t.isRecorded plan.options = true := by
      simp [Turn.isRecorded, happlied]
    have hrecord : t.record = .build c.1 s.store.entities[c.2.key]? c.2 := by
      rw [ht]
      rfl
    refine ⟨?_, ?_, ?_, ?_⟩
    · simp only [Turn.outcome, happlied, hconflict, hrecord]
    · cases i <;>
        simp [RunState.recorded, RunState.flagged, RunStats.after, Turn.isFlagged, hrecorded,
          hconflict]
    · simp [Turn.records, hrecorded, hrecord]
    · simp

/-- Changes that go through have one turn each, in order, and nothing else is accounted for. -/
theorem turns_of_outcomes {changes : List (Action × Snapshot)} {os : List Outcome}
    (h : outcomes plan changes s = .ok os s') :
    ∃ ts, turns plan changes s = .ok ts s' ∧ ts.map Turn.change = changes ∧
      os = ts.map (·.outcome plan.options) ∧ Accounted plan.options s s' ts := by
  induction changes generalizing s os with
  | nil =>
    obtain ⟨rfl, rfl⟩ := outcomes_nil_eq_ok.1 h
    exact ⟨[], rfl, rfl, rfl, .nil _ _⟩
  | cons c changes ih =>
    obtain ⟨o, s₁, os', ho, hos, rfl⟩ := outcomes_cons_eq_ok.1 h
    obtain ⟨rfl, hturn⟩ := process_ok_turn rfl ho
    obtain ⟨ts, hts, hchanges, rfl, hrest⟩ := ih hos
    refine ⟨_, turns_cons_of_ok ho hts, ?_, rfl, hturn.append hrest⟩
    rw [List.map_cons, hchanges]
    rfl

/-- The touched changesets are those of the changes, in the order in which they first came. -/
theorem touched_outcomes_eq {changes : List (Action × Snapshot)} {os : List Outcome}
    (ids : List Int64) (hids : s.ledger.touched.toList = ids.eraseDups)
    (h : outcomes plan changes s = .ok os s') :
    s'.ledger.touched.toList = (ids ++ changes.map (·.2.changesetId)).eraseDups := by
  induction changes generalizing s os ids with
  | nil =>
    obtain ⟨-, rfl⟩ := outcomes_nil_eq_ok.1 h
    simpa using hids
  | cons c changes ih =>
    obtain ⟨o, s₁, os', ho, hos, -⟩ := outcomes_cons_eq_ok.1 h
    obtain ⟨time, -, hledger, -⟩ := process_ok_books ho
    have hnext : s₁.ledger.touched.toList = (ids ++ [c.2.changesetId]).eraseDups := by
      rw [hledger, RunState.touched_enrolled, hids, eraseDups_append_singleton]
      simp only [List.mem_eraseDups]
    rw [ih _ hnext hos, List.map_cons, List.append_assoc, List.singleton_append]

end Run

/-- A run that goes through loses no change, repeats none and keeps their order, and its report
accounts for all of them. Every change has one turn, in which it finds what is stored of its entity at
that time; it is passed over or recorded, and its record is built from what it found. The changesets
of all changes are recounted once each, in the order in which they first came, after the last
change. -/
theorem run_accounts_for_changes (plan : Plan) (m : MemoryStore)
    (changes : List (Action × Snapshot)) (report : RunReport) (s : RunState MemoryStore)
    (h : Run.all plan changes (plan.start m) = .ok report s) :
    ∃ ts t,
      Run.turns plan changes (plan.start m) = .ok ts t ∧
      ts.map Turn.change = changes ∧
      Run.outcomes plan changes (plan.start m) = .ok (ts.map (·.outcome plan.options)) t ∧
      report.stats.processed + report.stats.skipped = changes.length ∧
      report.stats.processed = (Turn.records plan.options ts).length ∧
      report.stats.invalid = ts.countP (·.isFlagged plan.options) ∧
      s.store.changes.toList = m.changes.toList ++ Turn.records plan.options ts ∧
      report.changesets = (changes.map (·.2.changesetId)).eraseDups ∧
      t.store.recomputed = m.recomputed ∧
      s.store.recomputed.toList = m.recomputed.toList ++ report.changesets := by
  obtain ⟨os, t, hos, hfinal⟩ := Run.all_eq_ok.1 h
  rw [(Run.known_outcomes (.start plan m) hos).finalize_eq] at hfinal
  cases hfinal
  obtain ⟨ts, hts, hchanges, rfl, hstats, hlog, hrecomputed⟩ := Run.turns_of_outcomes hos
  have htouched : t.ledger.touched.toList = (changes.map (·.2.changesetId)).eraseDups :=
    Run.touched_outcomes_eq [] rfl hos
  have hprocessed : t.stats.processed = ts.countP (·.isRecorded plan.options) := by
    simp [hstats, RunStats.after, Plan.start]
  have hskipped : t.stats.skipped = ts.countP (!·.isRecorded plan.options) := by
    simp [hstats, RunStats.after, Plan.start]
  have hinvalid : t.stats.invalid = ts.countP (·.isFlagged plan.options) := by
    simp [hstats, RunStats.after, Plan.start]
  refine ⟨ts, t, hts, hchanges, hos, ?_, ?_, hinvalid, ?_, htouched, hrecomputed, ?_⟩
  · have hlength : ts.length = changes.length := by
      rw [← hchanges, List.length_map]
    -- Every turn is recorded or passed over.
    have hparts := List.length_eq_countP_add_countP (l := ts) fun t => t.isRecorded plan.options
    simp only [Bool.not_eq_true, Bool.decide_eq_false] at hparts
    dsimp only
    omega
  · rw [Turn.records, List.length_map, ← List.countP_eq_length_filter]
    exact hprocessed
  · rw [RunState.changes_finalized]
    exact hlog
  · have hfinalized := MemoryStore.recomputed_recountedAll t.store t.ledger.touched.toList
    rw [hrecomputed] at hfinalized
    exact hfinalized

/-- A line that is created, sent again, and modified: three changes of one changeset, of which the
second is passed over. -/
theorem run_accounts_for_repeated_line :
    ∃ report s, Run.all ⟨{ skipApplied := true }, ⟨"run"⟩⟩
        [(.create, .shortLine 1), (.create, .shortLine 1), (.modify, .shortLine 2)]
        (Plan.start ⟨{ skipApplied := true }, ⟨"run"⟩⟩ MemoryStore.empty) = .ok report s ∧
      report.stats.processed + report.stats.skipped = 3 ∧
      report.changesets = [500] ∧ s.store.recomputed.toList = [500] := by
  obtain ⟨os, t, hos⟩ := Run.outcomes_of_checked ⟨{ skipApplied := true }, ⟨"run"⟩⟩
    (s := Plan.start ⟨{ skipApplied := true }, ⟨"run"⟩⟩ MemoryStore.empty) (by decide)
    [(.create, .shortLine 1), (.create, .shortLine 1), (.modify, .shortLine 2)] (by
      intro c hc
      simp only [List.mem_cons, List.not_mem_nil, or_false] at hc
      obtain rfl | rfl | rfl := hc <;> exact ⟨_, rfl⟩)
  have hall := Run.all_of_outcomes (.start _ _) hos
  obtain ⟨ts, t, -, -, -, hcount, -, -, -, hchangesets, -, hrecomputed⟩ :=
    run_accounts_for_changes _ _ _ _ _ hall
  refine ⟨_, _, hall, hcount, hchangesets, ?_⟩
  rw [hrecomputed, hchangesets]
  rfl

end MapAudit
