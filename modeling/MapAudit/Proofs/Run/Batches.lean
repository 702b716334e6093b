import MapAudit.Proofs.Run.Chain
import MapAudit.Proofs.Run.Series
import MapAudit.Proofs.Run.Strictness

namespace MapAudit

/-- Each user id comes with one name. -/
def OneNameEach (changes : List (Action × Snapshot)) : Prop :=
  ∀ c ∈ changes, ∀ d ∈ changes, ∀ u v, c.2.user = some u → d.2.user = some v → u.id = v.id →
    u.name = v.name

theorem OneNameEach.append_right {p q : List (Action × Snapshot)} (h : OneNameEach (p ++ q)) :
    OneNameEach q :=
  fun c hc d hd => h c (List.mem_append_right p hc) d (List.mem_append_right p hd)

/-- Where ids come with one name each, a later part of a stream names a user as an earlier one does. -/
theorem OneNameEach.firstUser_eq {p q : List (Action × Snapshot)} (h : OneNameEach (p ++ q))
    {id : Int64} {u v : User} (hu : firstUser p id = some u) (hv : firstUser q id = some v) :
    u = v := by
  obtain ⟨c, hc, hcu, huid⟩ := exists_of_firstUser hu
  obtain ⟨d, hd, hdv, hvid⟩ := exists_of_firstUser hv
  have hid : u.id = v.id := huid.trans hvid.symm
  exact User.eq_of_id_name hid
    (h c (List.mem_append_left q hc) d (List.mem_append_right p hd) u v hcu hdv hid)

section eraseDups

/-- To drop repetitions in a second part beforehand makes no difference. -/
theorem eraseDups_append_eraseDups (ids ids' : List Int64) :
    (ids ++ ids'.eraseDups).eraseDups = (ids ++ ids').eraseDups := by
  induction ids' using List.reverseRecOn with
  | nil => rfl
  | append_singleton ids' id ih =>
    rw [← List.append_assoc, eraseDups_append_singleton, eraseDups_append_singleton]
    by_cases h : id ∈ ids'
    · have hmem : id ∈ ids ++ ids' := List.mem_append_right ids h
      rw [if_pos h, if_pos hmem, ih]
    · rw [if_neg h, ← List.append_assoc, eraseDups_append_singleton, ih]
      simp only [List.mem_append, List.mem_eraseDups]

/-- To drop repetitions in both parts beforehand makes no difference. -/
theorem eraseDups_append_of_eraseDups (ids ids' : List Int64) :
    (ids.eraseDups ++ ids'.eraseDups).eraseDups = (ids ++ ids').eraseDups := by
  rw [eraseDups_append_eraseDups]
  induction ids' using List.reverseRecOn with
  | nil =>
    have h := eraseDups_append_eraseDups [] ids
    simpa using h
  | append_singleton ids' id ih =>
    rw [← List.append_assoc, ← List.append_assoc, eraseDups_append_singleton,
      eraseDups_append_singleton, ih]
    simp only [List.mem_append, List.mem_eraseDups]

end eraseDups

namespace RunStats

instance : Add RunStats :=
  ⟨fun a b => ⟨a.processed + b.processed, a.skipped + b.skipped, a.invalid + b.invalid⟩⟩

instance : Zero RunStats := ⟨{}⟩

theorem add_zero (a : RunStats) : a + 0 = a := rfl

def ofOutcomes (os : List Outcome) : RunStats where
  processed := os.countP (·.record?.isSome)
  skipped := os.countP (·.record?.isNone)
  invalid := os.countP (·.conflict?.isSome)

theorem ofOutcomes_append (os os' : List Outcome) :
    ofOutcomes (os ++ os') = ofOutcomes os + ofOutcomes os' := by
  unfold ofOutcomes
  rw [List.countP_append, List.countP_append, List.countP_append]
  rfl

end RunStats

theorem Turn.isSome_record?_outcome (o : Options) (t : Turn) :
    (t.outcome o).record?.isSome = t.isRecorded o := by
  unfold isRecorded outcome
  cases t.applied? o <;> rfl

namespace Run
variable {plan : Plan} {s s' : RunState MemoryStore} {m : MemoryStore}

theorem stats_outcomes {changes : List (Action × Snapshot)} {os : List Outcome}
    (h : outcomes plan changes (plan.start m) = .ok os s) : s.stats = .ofOutcomes os := by
  obtain ⟨ts, -, -, rfl, hstats, -, -⟩ := turns_of_outcomes h
  have hnone (t : Turn) : (t.outcome plan.options).record?.isNone = !t.isRecorded plan.options := by
    rw [← Option.not_isSome, Turn.isSome_record?_outcome]
  rw [hstats]
  unfold RunStats.after RunStats.ofOutcomes
  simp [List.countP_map, Function.comp_def, Turn.isSome_record?_outcome, hnone,
    Turn.isSome_conflict?_outcome, Plan.start]

/-- Changes of other changesets bring no record of a changeset. -/
theorem changesOf_outcomes {changes : List (Action × Snapshot)} {os : List Outcome} {id : Int64}
    (hid : ¬∃ c ∈ changes, c.2.changesetId = id) (h : outcomes plan changes s = .ok os s') :
    s'.store.changesOf id = s.store.changesOf id := by
  obtain ⟨ts, -, rfl, -, hacc⟩ := turns_of_outcomes h
  have hnone : (Turn.records plan.options ts).filter (·.changesetId = id) = [] := by
    rw [List.filter_eq_nil_iff]
    intro r hr hrid
    obtain ⟨c, hc, previous, rfl⟩ := Turn.exists_of_mem_records hr
    exact hid ⟨c, hc, by simpa using hrid⟩
  unfold MemoryStore.changesOf
  rw [hacc.changes, List.filter_append, hnone, List.append_nil]

end Run

/-- What runs over the pieces of a stream report and leave, one after the other, adds up to what one
run over the whole stream reports and leaves, but for the users. -/
structure AddsUp (reports : List RunReport) (m' : MemoryStore) (report : RunReport)
    (m : MemoryStore) : Prop where
  entities : m'.entities = m.entities
  changes : m'.changes = m.changes
  changesets : m'.changesets = m.changesets
  stats : (reports.map (·.stats)).sum = report.stats
  finalized : (reports.flatMap (·.changesets)).eraseDups = report.changesets

/-- The second of two pieces may be cut further. -/
theorem AddsUp.cons {reports : List RunReport} {report₁ report₂ report : RunReport}
    {m m₂ m' : MemoryStore} (h : AddsUp [report₁, report₂] m₂ report m)
    (h' : AddsUp reports m' report₂ m₂) : AddsUp (report₁ :: reports) m' report m where
  entities := h'.entities.trans h.entities
  changes := h'.changes.trans h.changes
  changesets := h'.changesets.trans h.changesets
  stats := by
    have hsum := h.stats
    simp only [List.map_cons, List.map_nil, List.sum_cons, List.sum_nil, RunStats.add_zero]
      at hsum ⊢
    rw [h'.stats, hsum]
  finalized := by
    have hids := h.finalized
    simp only [List.flatMap_cons, List.flatMap_nil, List.append_nil] at hids ⊢
    rw [← eraseDups_append_eraseDups, h'.finalized, hids]

section cut
variable {o : Options} {whole first second : RunId} {p q : List (Action × Snapshot)}
  {m : MemoryStore} {os os₁ os₂ : List Outcome} {s t u : RunState MemoryStore}

/-- A changeset comes to the same summary, whichever of two pieces its changes are in. -/
theorem changesets_cut (hs : Run.outcomes ⟨o, whole⟩ (p ++ q) (Plan.start ⟨o, whole⟩ m) = .ok os s)
    (ht : Run.outcomes ⟨o, first⟩ p (Plan.start ⟨o, first⟩ m) = .ok os₁ t)
    (hu : Run.outcomes ⟨o, second⟩ q (Plan.start ⟨o, second⟩ t.finalized.store) = .ok os₂ u)
    (hc : u.store.changes = s.store.changes) :
    u.finalized.store.changesets = s.finalized.store.changesets := by
  apply Std.ExtTreeMap.ext_getElem?
  intro id
  rw [Run.changesets_run hs, Run.changesets_run hu, Run.changesets_run ht,
    MemoryStore.recount_congr hc, firstChangeset_append]
  by_cases hq : ∃ c ∈ q, c.2.changesetId = id
  · have hpq : ∃ c ∈ p ++ q, c.2.changesetId = id := by
      obtain ⟨c, hc, hid⟩ := hq
      exact ⟨c, List.mem_append_right p hc, hid⟩
    rw [if_pos hq, if_pos hpq]
    -- The second piece counts it again, so the count at the end of the first does not show.
    by_cases hp : ∃ c ∈ p, c.2.changesetId = id
    · rw [if_pos hp]
      cases m.changesets[id]? <;> cases firstChangeset p id <;> cases firstChangeset q id <;>
        simp [MemoryStore.recount_recount]
    · rw [if_neg hp, firstChangeset_eq_none hp, Option.none_or]
  · rw [if_neg hq, firstChangeset_eq_none hq, Option.or_none]
    -- The second piece has no record of it, so the count at the end of the first still holds.
    have hcount : t.store.recount id = s.store.recount id := by
      have hrecords := Run.changesOf_outcomes hq hu
      change u.store.changesOf id = t.finalized.store.changesOf id at hrecords
      unfold MemoryStore.changesOf at hrecords
      rw [hc, RunState.changes_finalized] at hrecords
      funext c
      unfold MemoryStore.recount MemoryStore.changesOf
      rw [hrecords]
    by_cases hp : ∃ c ∈ p, c.2.changesetId = id
    · have hpq : ∃ c ∈ p ++ q, c.2.changesetId = id := by
        obtain ⟨c, hc, hid⟩ := hp
        exact ⟨c, List.mem_append_left q hc, hid⟩
      rw [if_pos hp, if_pos hpq, hcount]
    · have hpq : ¬∃ c ∈ p ++ q, c.2.changesetId = id := by
        rintro ⟨c, hc, hid⟩
        rcases List.mem_append.1 hc with hc | hc
        · exact hp ⟨c, hc, hid⟩
        · exact hq ⟨c, hc, hid⟩
      rw [if_neg hp, if_neg hpq]

/-- The users differ at most where an id comes with several names. -/
theorem users_cut (hs : Run.outcomes ⟨o, whole⟩ (p ++ q) (Plan.start ⟨o, whole⟩ m) = .ok os s)
    (ht : Run.outcomes ⟨o, first⟩ p (Plan.start ⟨o, first⟩ m) = .ok os₁ t)
    (hu : Run.outcomes ⟨o, second⟩ q (Plan.start ⟨o, second⟩ t.finalized.store) = .ok os₂ u)
    (hnames : OneNameEach (p ++ q)) :
    u.finalized.store.users = s.finalized.store.users := by
  apply Std.ExtTreeMap.ext_getElem?
  intro id
  rw [Run.users_run hs, Run.users_run hu, Run.users_run ht, firstUser_append]
  cases hp : firstUser p id with
  | none => rw [Option.none_or, Option.none_or]
  | some v =>
    cases hq : firstUser q id with
    | none => simp
    | some w =>
      have hvw : v = w := hnames.firstUser_eq hp hq
      simp [hvw]

/-- A stream may be cut once. -/
theorem addsUp_cut (first second : RunId) {report : RunReport} {s : RunState MemoryStore}
    (h : Run.all ⟨o, whole⟩ (p ++ q) (Plan.start ⟨o, whole⟩ m) = .ok report s) :
    ∃ report₁ t report₂ u,
      Run.all ⟨o, first⟩ p (Plan.start ⟨o, first⟩ m) = .ok report₁ t ∧
      Run.all ⟨o, second⟩ q (Plan.start ⟨o, second⟩ t.store) = .ok report₂ u ∧
      AddsUp [report₁, report₂] u.store report s.store ∧
      (OneNameEach (p ++ q) → u.store.users = s.store.users) := by
  obtain ⟨os, s', hs, hfinal⟩ := Run.all_eq_ok.1 h
  rw [(Run.known_outcomes (.start _ m) hs).finalize_eq] at hfinal
  cases hfinal
  obtain ⟨os₁, s₁, os₂, hs₁, hs₂, rfl⟩ := Run.outcomes_append_eq_ok.1 hs
  -- Which records and entities are written depends on the stored entities alone.
  obtain ⟨t, ht, het, hct⟩ := Run.outcomes_congr (t := Plan.start ⟨o, first⟩ m)
    ⟨o, first⟩ hs₁ rfl rfl rfl
  obtain ⟨u, hu, heu, hcu⟩ := Run.outcomes_congr
    (t := Plan.start ⟨o, second⟩ t.finalized.store) ⟨o, second⟩ hs₂ rfl
    (RunState.entities_finalized.trans het) (RunState.changes_finalized.trans hct)
  have htouched := Run.touched_outcomes_eq [] rfl hs
  have htouched₁ := Run.touched_outcomes_eq [] rfl ht
  have htouched₂ := Run.touched_outcomes_eq [] rfl hu
  have hsum : AddsUp
      [⟨first, t.stats, t.ledger.touched.toList⟩, ⟨second, u.stats, u.ledger.touched.toList⟩]
      u.finalized.store ⟨whole, s'.stats, s'.ledger.touched.toList⟩ s'.finalized.store :=
    { entities := by simpa using heu
      changes := by simpa using hcu
      changesets := changesets_cut hs ht hu hcu
      stats := by
        rw [Run.stats_outcomes hs, RunStats.ofOutcomes_append]
        simp only [List.map_cons, List.map_nil, List.sum_cons, List.sum_nil, RunStats.add_zero]
        rw [Run.stats_outcomes ht, Run.stats_outcomes hu]
      finalized := by
        simp only [List.flatMap_cons, List.flatMap_nil, List.append_nil]
        rw [htouched, htouched₁, htouched₂, List.map_append]
        exact eraseDups_append_of_eraseDups _ _ }
  exact ⟨_, t.finalized, _, u.finalized, Run.all_of_outcomes (.start _ m) ht,
    Run.all_of_outcomes (.start _ _) hu, hsum, users_cut hs ht hu⟩

end cut

/-- It does not matter where a stream is cut. If one run over the whole stream goes through, then so do
runs over consecutive pieces of it, each by a fresh processor. They leave the same entities, the same
records and the same changesets, and their reports add up to the report of the one run; where each user
id comes with one name, they leave the same users too. -/
theorem batch_boundaries_immaterial (o : Options) (whole : RunId) (m : MemoryStore)
    (pieces : List (RunId × List (Action × Snapshot))) (report : RunReport)
    (s : RunState MemoryStore)
    (h : Run.all ⟨o, whole⟩ (pieces.flatMap (·.2)) (Plan.start ⟨o, whole⟩ m) = .ok report s) :
    ∃ reports m',
      Run.series (pieces.map fun piece => (⟨o, piece.1⟩, piece.2)) m = .ok reports m' ∧
      AddsUp reports m' report s.store ∧
      (OneNameEach (pieces.flatMap (·.2)) → m'.users = s.store.users) := by
  induction pieces generalizing m report s with
  | nil =>
    obtain ⟨os, s', hs, hfinal⟩ := Run.all_eq_ok.1 h
    obtain ⟨-, rfl⟩ := Run.outcomes_nil_eq_ok.1 hs
    rw [(Known.start _ m).finalize_eq] at hfinal
    cases hfinal
    exact ⟨[], m, rfl, ⟨rfl, rfl, rfl, rfl, rfl⟩, fun _ => rfl⟩
  | cons piece pieces ih =>
    rw [List.flatMap_cons] at h ⊢
    obtain ⟨report₁, t, report₂, u, ht, hu, hsum, husers⟩ := addsUp_cut piece.1 whole h
    obtain ⟨reports, m', hseries, hsum', husers'⟩ := ih t.store report₂ u hu
    refine ⟨report₁ :: reports, m', ?_, hsum.cons hsum', fun hnames => ?_⟩
    · exact Run.series_cons_eq_ok.2 ⟨report₁, t, reports, ht, hseries, rfl⟩
    · exact (husers' hnames.append_right).trans (husers hnames)

/-- Three versions of a line, the first in one piece and the others in another. -/
theorem batch_boundaries_of_line_versions :
    ∃ report s, Run.all ⟨{}, ⟨"whole"⟩⟩
        [(.create, .shortLine 1), (.modify, .shortLine 2), (.delete, .shortLine 3)]
        (Plan.start ⟨{}, ⟨"whole"⟩⟩ MemoryStore.empty) = .ok report s ∧
      ∃ reports m', Run.series
          [(⟨{}, ⟨"first"⟩⟩, [(.create, .shortLine 1)]),
            (⟨{}, ⟨"second"⟩⟩, [(.modify, .shortLine 2), (.delete, .shortLine 3)])]
          MemoryStore.empty = .ok reports m' ∧
        AddsUp reports m' report s.store ∧ m'.users = s.store.users := by
  obtain ⟨os, s, hos⟩ := Run.outcomes_of_checked ⟨{}, ⟨"whole"⟩⟩
    (s := Plan.start ⟨{}, ⟨"whole"⟩⟩ MemoryStore.empty) (by decide)
    [(.create, .shortLine 1), (.modify, .shortLine 2), (.delete, .shortLine 3)] (by
      intro c hc
      simp only [List.mem_cons, List.not_mem_nil, or_false] at hc
      obtain rfl | rfl | rfl := hc <;> exact ⟨_, rfl⟩)
  have hall := Run.all_of_outcomes (.start _ _) hos
  obtain ⟨reports, m', hseries, hsum, husers⟩ :=
    batch_boundaries_immaterial {} ⟨"whole"⟩ MemoryStore.empty
      [(⟨"first"⟩, [(.create, .shortLine 1)]),
        (⟨"second"⟩, [(.modify, .shortLine 2), (.delete, .shortLine 3)])] _ _ hall
  have hann : ∀ c ∈ [(Action.create, Snapshot.shortLine 1), (.modify, .shortLine 2),
      (.delete, .shortLine 3)], c.2.user = some ⟨1, "ann"⟩ := by
    simp [Snapshot.shortLine]
  have hnames : OneNameEach [(.create, .shortLine 1), (.modify, .shortLine 2),
      (.delete, .shortLine 3)] := by
    intro c hc d hd u v hu hv hid
    rw [hann c hc] at hu
    rw [hann d hd] at hv
    rw [Option.some.inj hu.symm, Option.some.inj hv.symm]
  exact ⟨_, _, hall, reports, m', hseries, hsum, husers hnames⟩

end MapAudit
