import MapAudit.Proofs.Run.Interleaving
import MapAudit.Proofs.Run.Series

namespace MapAudit

namespace MemoryStore

def version? (m : MemoryStore) (key : EntityKey) : Option Int64 := do
  let stored ← (Store.lookup key).run' m
  return (← stored).version

theorem version?_eq (m : MemoryStore) (key : EntityKey) :
    m.version? key = m.entities[key]?.map (·.version) := by
  change (m.entities[key]?.bind fun stored => some stored.version) = _
  rw [Option.map_eq_bind]
  rfl

theorem version?_congr {m m' : MemoryStore} (he : m'.entities = m.entities) (key : EntityKey) :
    m'.version? key = m.version? key := by
  rw [version?_eq, version?_eq, he]

theorem version?_written {o : Options} (ho : o.applyState = true) (m : MemoryStore)
    (action : Action) (previous : Option Snapshot) (next : Snapshot) (key : EntityKey) :
    (m.written o action previous next).version? key =
      if next.key = key then some next.version else m.version? key := by
  rw [version?_eq, version?_eq, entities_written_of_apply _ _ _ _ _ ho]
  split <;> simp

end MemoryStore

def versionsTo (key : EntityKey) (changes : List (Action × Snapshot)) : List Int64 :=
  (changesTo key changes).map (·.2.version)

theorem versionsTo_append (key : EntityKey) (p q : List (Action × Snapshot)) :
    versionsTo key (p ++ q) = versionsTo key p ++ versionsTo key q := by
  simp [versionsTo, changesTo]

section order
variable {a b c : Option Int64} {v w : Int64}

/-- Nothing comes before every version. -/
theorem version_le_trans (h : a ≤ b) (h' : b ≤ c) : a ≤ c := by
  cases a with
  | none => exact Option.none_le
  | some v =>
    cases b with
    | none => exact absurd h Option.not_some_le_none
    | some w =>
      cases c with
      | none => exact absurd h' Option.not_some_le_none
      | some x =>
        rw [Option.some_le_some] at h h' ⊢
        exact Int64.le_trans h h'

theorem version_lt_of_le_of_lt (h : a ≤ b) (h' : b < some v) : a < some v := by
  cases a with
  | none => exact Option.none_lt_some
  | some w =>
    cases b with
    | none => exact absurd h Option.not_some_le_none
    | some x =>
      rw [Option.some_le_some] at h
      rw [Option.some_lt_some] at h' ⊢
      exact Int64.lt_of_le_of_lt h h'

theorem version_le_of_lt (h : a < some v) : a ≤ some v := by
  cases a with
  | none => exact Option.none_le
  | some w =>
    rw [Option.some_lt_some] at h
    exact Option.some_le_some.2 (Int64.le_of_lt h)

theorem version_le_refl (a : Option Int64) : a ≤ a := by
  cases a with
  | none => exact Option.none_le
  | some v => exact Option.some_le_some.2 (Int64.le_refl v)

theorem max_eq_of_le (h : v ≤ w) : max v w = w := if_pos h

theorem max_eq_of_ge (h : w ≤ v) : max v w = v := by
  by_cases hle : v ≤ w
  · exact (max_eq_of_le hle).trans (Int64.le_antisymm h hle)
  · exact if_neg hle

/-- The greatest of a list, found in two goes. -/
theorem max?_append (vs ws : List Int64) : (vs.max?.toList ++ ws).max? = (vs ++ ws).max? := by
  cases vs with
  | nil => rfl
  | cons v vs =>
    rw [List.max?_cons']
    change (vs.foldl max v :: ws).max? = (v :: (vs ++ ws)).max?
    rw [List.max?_cons', List.max?_cons', List.foldl_append]

end order

/-- From one store to a later one the log grows by records of greater and greater versions of each
entity, from above what was stored to what is stored then, and no stored version goes back. -/
structure MemoryStore.Climbs (m m' : MemoryStore) (written : List ChangeRecord) : Prop where
  log : m'.changes.toList = m.changes.toList ++ written
  increasing : written.Pairwise fun r r' => r.key = r'.key → r.version < r'.version
  above : ∀ r ∈ written, m.version? r.key < some r.version
  below : ∀ r ∈ written, some r.version ≤ m'.version? r.key
  rising : ∀ key, m.version? key ≤ m'.version? key

namespace MemoryStore.Climbs
variable {m m' m₁ : MemoryStore} {rs rs' : List ChangeRecord}

theorem of_eq (he : m'.entities = m.entities) (hc : m'.changes = m.changes) : m.Climbs m' [] where
  log := by rw [hc, List.append_nil]
  increasing := .nil
  above r hr := absurd hr List.not_mem_nil
  below r hr := absurd hr List.not_mem_nil
  rising key := by
    rw [version?_congr he]
    exact version_le_refl _

theorem trans (h : m.Climbs m₁ rs) (h' : m₁.Climbs m' rs') :
    m.Climbs m' (rs ++ rs') where
  log := by rw [h'.log, h.log, List.append_assoc]
  increasing := by
    refine List.pairwise_append.2 ⟨h.increasing, h'.increasing, ?_⟩
    intro r hr r' hr' hkey
    have hbelow := h.below r hr
    have habove := h'.above r' hr'
    rw [← hkey] at habove
    exact Option.some_lt_some.1 (version_lt_of_le_of_lt hbelow habove)
  above r hr := by
    rcases List.mem_append.1 hr with hr | hr
    · exact h.above r hr
    · exact version_lt_of_le_of_lt (h.rising r.key) (h'.above r hr)
  below r hr := by
    rcases List.mem_append.1 hr with hr | hr
    · exact version_le_trans (h.below r hr) (h'.rising r.key)
    · exact h'.below r hr
  rising key := version_le_trans (h.rising key) (h'.rising key)

/-- A version that is greater than the stored one is written. -/
theorem written {o : Options} (ho : o.applyState = true) (action : Action) {next : Snapshot}
    (hnew : m.version? next.key < some next.version) (previous : Option Snapshot) :
    m.Climbs (m.written o action previous next) [.build action previous next] := by
  have hversion := version?_written ho m action previous next
  refine ⟨?_, List.pairwise_singleton _ _, fun r hr => ?_, fun r hr => ?_, fun key => ?_⟩
  · rw [changes_written, Array.toList_push]
  · rw [List.mem_singleton.1 hr]
    simpa using hnew
  · rw [List.mem_singleton.1 hr, hversion]
    simp
  · rw [hversion]
    split
    · next hkey =>
      rw [← hkey]
      exact version_le_of_lt hnew
    · exact version_le_refl _

end MemoryStore.Climbs

/-- Applied changes are skipped and the stored state is kept up to date. -/
structure Options.Forward (o : Options) : Prop where
  skips : o.skipApplied = true
  applies : o.applyState = true

namespace Run
open MemoryStore
variable {plan : Plan} {s s' : RunState MemoryStore}

/-- What a change that goes through does to the versions: it is passed over, being no newer than what
is stored, or it is newer and is written. -/
theorem process_ok_version (hplan : plan.options.Forward) {action : Action} {next : Snapshot}
    {o : Outcome} (h : process plan action next s = .ok o s') :
    (∃ stored, s.store.version? next.key = some stored ∧ next.version ≤ stored ∧
      s'.store.entities = s.store.entities ∧ s'.store.changes = s.store.changes) ∨
    s.store.version? next.key < some next.version ∧ ∃ previous,
      s'.store.entities = (s.store.written plan.options action previous next).entities ∧
      s'.store.changes = (s.store.written plan.options action previous next).changes := by
  rcases process_ok_cases h with ⟨stored, hv, -, he, hc⟩ | ⟨i, m, hv, -, rfl, he, hc⟩
  · obtain ⟨p, hp, hle, rfl⟩ := applied?_eq_some.1 (Options.applied?_of_skip hv)
    refine .inl ⟨p.version, ?_, hle, he, hc⟩
    rw [version?_eq, hp]
    rfl
  · have hnone := Options.applied?_of_record hplan.skips hv
    refine .inr ⟨?_, _, he, hc⟩
    rw [version?_eq]
    cases hp : s.store.entities[next.key]? with
    | none => exact Option.none_lt_some
    | some p =>
      rw [hp] at hnone
      exact Option.some_lt_some.2 (applied?_eq_none hnone)

theorem climbs_process (hplan : plan.options.Forward) {action : Action} {next : Snapshot}
    {o : Outcome} (h : process plan action next s = .ok o s') :
    ∃ rs, s.store.Climbs s'.store rs := by
  rcases process_ok_version hplan h with ⟨-, -, -, he, hc⟩ | ⟨hnew, previous, he, hc⟩
  · exact ⟨[], .of_eq he hc⟩
  · exact ⟨_, (Climbs.written hplan.applies action hnew previous).trans (.of_eq he hc)⟩

/-- The greater of the stored version and the version of the change is stored. -/
theorem version?_process (hplan : plan.options.Forward) {action : Action} {next : Snapshot}
    {o : Outcome} (h : process plan action next s = .ok o s') (key : EntityKey) :
    s'.store.version? key =
      ((s.store.version? key).toList ++ versionsTo key [(action, next)]).max? := by
  have hversions : versionsTo key [(action, next)] =
      if next.key = key then [next.version] else [] := by
    simp only [versionsTo, changesTo, List.filter_cons, List.filter_nil, decide_eq_true_eq]
    split <;> rfl
  rw [hversions]
  rcases process_ok_version hplan h with ⟨stored, hstored, hle, he, -⟩ | ⟨hnew, previous, he, -⟩
  · rw [version?_congr he]
    split
    · next hkey =>
      rw [← hkey, hstored]
      -- The change is passed over, since its version is no greater.
      change some stored = some (max stored next.version)
      rw [max_eq_of_ge hle]
    · cases s.store.version? key <;> rfl
  · rw [version?_congr he, version?_written hplan.applies]
    split
    · next hkey =>
      rw [← hkey]
      cases hstored : s.store.version? next.key with
      | none => rfl
      | some stored =>
        rw [hstored, Option.some_lt_some] at hnew
        -- The change is written, since its version is greater.
        change some next.version = some (max stored next.version)
        rw [max_eq_of_le (Int64.le_of_lt hnew)]
    · cases s.store.version? key <;> rfl

theorem version?_outcomes (hplan : plan.options.Forward) {changes : List (Action × Snapshot)}
    {os : List Outcome} (h : outcomes plan changes s = .ok os s') (key : EntityKey) :
    s'.store.version? key = ((s.store.version? key).toList ++ versionsTo key changes).max? := by
  induction changes generalizing s os with
  | nil =>
    obtain ⟨-, rfl⟩ := outcomes_nil_eq_ok.1 h
    cases s'.store.version? key <;> rfl
  | cons c changes ih =>
    obtain ⟨o, s₁, os', ho, hos, -⟩ := outcomes_cons_eq_ok.1 h
    rw [ih hos, version?_process hplan ho, max?_append, List.append_assoc, ← versionsTo_append]
    rfl

/-- A series of runs leaves of every entity the greatest version that was stored or came. -/
theorem version?_series {runs : List (Plan × List (Action × Snapshot))}
    (hruns : ∀ run ∈ runs, run.1.options.Forward) {m m' : MemoryStore} {reports : List RunReport}
    (h : series runs m = .ok reports m') (key : EntityKey) :
    m'.version? key = ((m.version? key).toList ++ versionsTo key (runs.flatMap (·.2))).max? := by
  induction runs generalizing m reports with
  | nil =>
    obtain ⟨-, rfl⟩ := series_nil_eq_ok.1 h
    cases m'.version? key <;> rfl
  | cons run runs ih =>
    obtain ⟨report, s, reports', hall, hseries, -⟩ := series_cons_eq_ok.1 h
    obtain ⟨os, s₁, hos, hfinal⟩ := all_eq_ok.1 hall
    rw [(known_outcomes (.start run.1 m) hos).finalize_eq] at hfinal
    cases hfinal
    have hrun : s₁.finalized.store.version? key =
        ((m.version? key).toList ++ versionsTo key run.2).max? := by
      rw [version?_congr RunState.entities_finalized]
      exact version?_outcomes (hruns run List.mem_cons_self) hos key
    rw [ih (fun r hr => hruns r (List.mem_cons_of_mem run hr)) hseries, hrun, max?_append,
      List.append_assoc, ← versionsTo_append, ← List.flatMap_cons]

end Run

namespace Session

structure Forward (x : Session MemoryStore) : Prop where
  options : x.plan.options.Forward
  known : Known x.state

variable {x : Session MemoryStore}

theorem Forward.ask (h : x.Forward) {call : Call}
    (hcall : ∀ plan, call = .start plan → plan.options.Forward) : (x.ask call).2.Forward where
  known := h.known.ask call
  options := by
    cases call with
    | start plan => exact hcall plan rfl
    | process action next =>
      simp only [Session.ask]
      split <;> exact h.options
    | finalize =>
      simp only [Session.ask]
      split <;> exact h.options

/-- Versions move forward with every call, also with one that fails. -/
theorem Forward.climbs_ask (h : x.Forward) (call : Call) :
    ∃ rs, x.state.store.Climbs (x.ask call).2.state.store rs := by
  cases call with
  | start plan => exact ⟨[], .of_eq rfl rfl⟩
  | finalize =>
    rw [ask_finalize_of_ok (h.known.finalize_eq x.plan)]
    exact ⟨[], .of_eq RunState.entities_finalized RunState.changes_finalized⟩
  | process action next =>
    cases hp : Run.process x.plan action next x.state with
    | ok o s =>
      rw [ask_process_of_ok hp]
      exact Run.climbs_process h.options hp
    | error f s =>
      rw [ask_process_of_error hp]
      obtain ⟨he, hc⟩ := Run.process_error_kept hp
      exact ⟨[], .of_eq he hc⟩

/-- Versions move forward throughout a session. -/
theorem Forward.climbs_stores (h : x.Forward) {calls : List Call}
    (hcalls : ∀ plan, .start plan ∈ calls → plan.options.Forward) :
    (x.stores calls).Pairwise fun m m' => ∃ rs, m.Climbs m' rs := by
  induction calls generalizing x with
  | nil => exact List.pairwise_singleton _ _
  | cons call calls ih =>
    have hx := h.ask fun plan e => hcalls plan (e ▸ List.mem_cons_self)
    have hpairs := ih hx fun plan hplan => hcalls plan (List.mem_cons_of_mem call hplan)
    obtain ⟨rs, hrs⟩ := h.climbs_ask call
    refine List.pairwise_cons.2 ⟨fun m hm => ?_, hpairs⟩
    rcases List.mem_cons.1 hm with rfl | hm
    · exact ⟨rs, hrs⟩
    · obtain ⟨rs', hrs'⟩ := (List.pairwise_cons.1 hpairs).1 m hm
      exact ⟨_, hrs.trans hrs'⟩

/-- Versions move forward throughout runs, whatever processor was at work before. -/
theorem climbs_runs {runs : List (Plan × List (Action × Snapshot))}
    (hruns : ∀ run ∈ runs, run.1.options.Forward) (m : MemoryStore) (idle : Plan) :
    ((ofStore idle m).stores (runs.flatMap Call.ofRun)).Pairwise
      fun m₁ m₂ => ∃ rs, m₁.Climbs m₂ rs := by
  cases runs with
  | nil => exact List.pairwise_singleton _ _
  | cons run runs =>
    have hstart : (ofStore run.1 m).Forward := ⟨hruns run List.mem_cons_self, .start run.1 m⟩
    -- The first run begins with books of its own, so what was at work before does not show.
    have hidle : (ofStore idle m).stores ((run :: runs).flatMap Call.ofRun) =
        (ofStore run.1 m).stores ((run :: runs).flatMap Call.ofRun) := rfl
    rw [hidle]
    refine hstart.climbs_stores fun plan hplan => ?_
    obtain ⟨run', hrun', hcall⟩ := List.mem_flatMap.1 hplan
    have hplan' : plan = run'.1 := by
      simpa [Call.ofRun] using hcall
    rw [hplan']
    exact hruns run' hrun'

end Session

/-- Where applied changes are skipped and the stored state is kept up to date, versions only move
forward. Of every entity, the runs of a series write records of greater and greater versions, all of
them greater than the version stored before, so no version of an entity is recorded twice; its stored
version never goes back; and in the end it is the greatest of the version stored before and those of
all its changes. -/
theorem versions_move_forward (runs : List (Plan × List (Action × Snapshot)))
    (hruns : ∀ run ∈ runs, run.1.options.skipApplied = true ∧ run.1.options.applyState = true)
    (m m' : MemoryStore) (reports : List RunReport) (h : Run.series runs m = .ok reports m') :
    ∃ written, m'.changes.toList = m.changes.toList ++ written ∧
      (written.map fun r => (r.key, r.version)).Nodup ∧
      ∀ key,
        ((written.filter (·.key = key)).map (·.version)).Pairwise (· < ·) ∧
        (∀ r ∈ written, r.key = key → ∀ stored, m.version? key = some stored →
          stored < r.version) ∧
        (∀ idle : Plan,
          let stores := (Session.ofStore idle m).stores (runs.flatMap Session.Call.ofRun)
          stores.head? = some m ∧ stores.getLast? = some m' ∧
            (stores.map (·.version? key)).Pairwise (· ≤ ·)) ∧
        m'.version? key =
          ((m.version? key).toList ++ versionsTo key (runs.flatMap (·.2))).max? := by
  have hforward : ∀ run ∈ runs, run.1.options.Forward := fun run hrun =>
    ⟨(hruns run hrun).1, (hruns run hrun).2⟩
  have hlast (idle : Plan) : ((Session.ofStore idle m).stores
      (runs.flatMap Session.Call.ofRun)).getLast? = some m' := by
    rw [Session.getLast?_stores, Session.after_of_series (x := .ofStore idle m) h]
  -- The last store is one of those in between, and every one is reached by climbing.
  obtain ⟨written, hclimbs⟩ : ∃ written, m.Climbs m' written := by
    have hmem := List.mem_of_getLast? (hlast ⟨{}, ⟨""⟩⟩)
    rcases List.mem_cons.1 hmem with rfl | hmem
    · exact ⟨[], .of_eq rfl rfl⟩
    · exact (List.pairwise_cons.1 (Session.climbs_runs hforward m _)).1 m' hmem
  refine ⟨written, hclimbs.log, ?_, fun key => ⟨?_, ?_, fun idle => ⟨rfl, hlast idle, ?_⟩, ?_⟩⟩
  · -- Two records of one key and version would have a version below itself.
    refine List.pairwise_map.2 (hclimbs.increasing.imp fun hlt e => ?_)
    obtain ⟨hkey, hversion⟩ := Prod.mk.inj e
    have hless := hlt hkey
    rw [hversion] at hless
    exact Int64.lt_irrefl hless
  · refine List.pairwise_map.2 (List.pairwise_filter.2 (hclimbs.increasing.imp ?_))
    intro r r' hlt hr hr'
    rw [decide_eq_true_eq] at hr hr'
    exact hlt (hr.trans hr'.symm)
  · intro r hr hkey stored hstored
    have habove := hclimbs.above r hr
    rw [hkey, hstored] at habove
    exact Option.some_lt_some.1 habove
  · refine List.pairwise_map.2 ((Session.climbs_runs hforward m idle).imp ?_)
    rintro m₁ m₂ ⟨rs, hrs⟩
    exact hrs.rising key
  · exact Run.version?_series hforward h key

/-- Versions of a line that come late and again, over two runs. -/
theorem versions_of_line_move_forward :
    ∃ reports m',
      Run.series
        [(⟨{ skipApplied := true }, ⟨"first"⟩⟩, [(.modify, .shortLine 3), (.create, .shortLine 2)]),
          (⟨{ skipApplied := true, policy := .log }, ⟨"second"⟩⟩,
            [(.modify, .shortLine 3), (.delete, .shortLine 5), (.create, .shortLine 4)])]
        MemoryStore.empty = .ok reports m' ∧
      (m'.changes.toList.map fun r => (r.key, r.version)).Nodup ∧
      m'.version? ⟨.line, 7⟩ = some 5 := by
  obtain ⟨reports, m', hseries⟩ := Run.series_of_checked
    [(⟨{ skipApplied := true }, ⟨"first"⟩⟩, [(.modify, .shortLine 3), (.create, .shortLine 2)]),
      (⟨{ skipApplied := true, policy := .log }, ⟨"second"⟩⟩,
        [(.modify, .shortLine 3), (.delete, .shortLine 5), (.create, .shortLine 4)])]
    (by simp) (by
      intro run hrun c hc
      simp only [List.mem_cons, List.not_mem_nil, or_false] at hrun
      obtain rfl | rfl := hrun <;> simp only [List.mem_cons, List.not_mem_nil, or_false] at hc
      · obtain rfl | rfl := hc <;> exact ⟨_, rfl⟩
      · obtain rfl | rfl | rfl := hc <;> exact ⟨_, rfl⟩) MemoryStore.empty
  obtain ⟨written, hlog, hnodup, hkeys⟩ :=
    versions_move_forward _ (by simp) MemoryStore.empty m' reports hseries
  have hwritten : m'.changes.toList = written := hlog
  rw [← hwritten] at hnodup
  obtain ⟨-, -, -, hversion⟩ := hkeys ⟨.line, 7⟩
  have hempty : MemoryStore.empty.version? ⟨.line, 7⟩ = none := by
    simp [MemoryStore.version?_eq, MemoryStore.empty]
  rw [hempty] at hversion
  exact ⟨reports, m', hseries, hnodup, hversion.trans rfl⟩

end MapAudit
