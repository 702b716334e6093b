import MapAudit.Run.Processor

namespace MapAudit

section bind
variable {ε σ α β : Type} {x : EStateM ε σ α} {s s' : σ}

theorem bind_apply (x : EStateM ε σ α) (f : α → EStateM ε σ β) (s : σ) :
    (x >>= f) s =
      match x s with
      | .ok a s' => f a s'
      | .error e s' => .error e s' := by
  show EStateM.bind x f s = _
  unfold EStateM.bind
  cases x s <;> rfl

theorem bind_of_ok {a : α} (f : α → EStateM ε σ β) (h : x s = .ok a s') :
    (x >>= f) s = f a s' := by
  rw [bind_apply, h]

theorem bind_of_error {e : ε} (f : α → EStateM ε σ β) (h : x s = .error e s') :
    (x >>= f) s = .error e s' := by
  rw [bind_apply, h]

theorem bind_eq_ok {f : α → EStateM ε σ β} {b : β} (h : (x >>= f) s = .ok b s') :
    ∃ a s₁, x s = .ok a s₁ ∧ f a s₁ = .ok b s' := by
  rw [bind_apply] at h
  cases hx : x s with
  | ok a s₁ => exact ⟨a, s₁, rfl, by rwa [hx] at h⟩
  | error e s₁ =>
    rw [hx] at h
    cases h

theorem bind_eq_error {f : α → EStateM ε σ β} {e : ε} (h : (x >>= f) s = .error e s') :
    x s = .error e s' ∨ ∃ a s₁, x s = .ok a s₁ ∧ f a s₁ = .error e s' := by
  rw [bind_apply] at h
  cases hx : x s with
  | ok a s₁ => exact .inr ⟨a, s₁, rfl, by rwa [hx] at h⟩
  | error e' s₁ =>
    rw [hx] at h
    cases h
    exact .inl rfl

end bind

/-- What is to be done with an enrolled change. -/
inductive Verdict where
  | skip (stored : Int64)
  | refuse (i : InvalidAction)
  | record (invalid : Option InvalidAction)
  deriving DecidableEq, Repr

def Options.verdict (o : Options) (action : Action) (previous : Option Snapshot)
    (next : Snapshot) : Verdict :=
  match if o.skipApplied then Run.applied? previous next else none with
  | some stored => .skip stored
  | none =>
    match invalid? action previous next with
    | none => .record none
    | some i => if o.policy = .stop then .refuse i else .record (some i)

/-- Which verdicts there are, and when. -/
theorem Options.verdict_cases (o : Options) (action : Action) (previous : Option Snapshot)
    (next : Snapshot) :
    (∃ stored, (if o.skipApplied then Run.applied? previous next else none) = some stored ∧
      o.verdict action previous next = .skip stored) ∨
    (∃ i, invalid? action previous next = some i ∧ o.policy = .stop ∧
      o.verdict action previous next = .refuse i) ∨
    ((if o.skipApplied then Run.applied? previous next else none) = none ∧
      o.verdict action previous next = .record (invalid? action previous next)) := by
  unfold verdict
  cases (if o.skipApplied then Run.applied? previous next else none) with
  | some stored => exact .inl ⟨stored, rfl, rfl⟩
  | none =>
    cases invalid? action previous next with
    | none => exact .inr (.inr ⟨rfl, rfl⟩)
    | some i =>
      by_cases hp : o.policy = .stop
      · exact .inr (.inl ⟨i, rfl, hp, if_pos hp⟩)
      · exact .inr (.inr ⟨rfl, if_neg hp⟩)

/-- Only a strict run refuses, and only a conflict. -/
theorem Options.conflict_of_refuse {o : Options} {action : Action} {previous : Option Snapshot}
    {next : Snapshot} {i : InvalidAction} (h : o.verdict action previous next = .refuse i) :
    o.policy = .stop ∧ invalid? action previous next = some i := by
  rcases o.verdict_cases action previous next with
    ⟨stored, -, hv⟩ | ⟨j, hj, hpolicy, hv⟩ | ⟨-, hv⟩
  · rw [hv] at h
    cases h
  · rw [hv] at h
    cases h
    exact ⟨hpolicy, hj⟩
  · rw [hv] at h
    cases h

/-- The version of an entity that stays in the store after a change. -/
def Action.leaves (action : Action) (next : Snapshot) : Snapshot :=
  if action = .delete then next.tombstone else next

@[simp] theorem Action.key_leaves (action : Action) (next : Snapshot) :
    (action.leaves next).key = next.key := by
  unfold leaves
  split <;> rfl

@[simp] theorem Action.version_leaves (action : Action) (next : Snapshot) :
    (action.leaves next).version = next.version := by
  unfold leaves
  split <;> rfl

namespace RunState

def skipped (s : RunState σ) (next : Snapshot) (stored : Int64) : RunState σ :=
  { s with
    stats := { s.stats with skipped := s.stats.skipped + 1 }
    events := s.events.push (.alreadyApplied next.label next.version stored) }

def flagged (s : RunState σ) (policy : Policy) : Option InvalidAction → RunState σ
  | none => s
  | some i =>
    { s with
      stats := { s.stats with invalid := s.stats.invalid + 1 }
      events := if policy = .log then s.events.push (.invalidAction i) else s.events }

@[simp] theorem store_flagged (s : RunState σ) (policy : Policy) (i : Option InvalidAction) :
    (s.flagged policy i).store = s.store := by
  cases i <;> rfl

@[simp] theorem ledger_flagged (s : RunState σ) (policy : Policy) (i : Option InvalidAction) :
    (s.flagged policy i).ledger = s.ledger := by
  cases i <;> rfl

@[simp] theorem authors_flagged (s : RunState σ) (policy : Policy) (i : Option InvalidAction) :
    (s.flagged policy i).authors = s.authors := by
  cases i <;> rfl

end RunState

theorem Ledger.naming_eq_ok {id : Int64} {step : Step σ α} {s s' : σ} {a : α}
    (h : naming id step s = .ok a s') : step s = .ok a s' := by
  unfold naming at h
  split at h
  · next b s₁ hs =>
    cases h
    exact hs
  · cases h

/-- A changeset in the window is known, and the store is not asked. -/
theorem Ledger.ensure_of_contains [Store σ] {l : Ledger} {id : Int64}
    (h : l.window.contains id = true) (userId : Int64) (createdAt : Time.Instant) (store : σ) :
    l.ensure id userId createdAt store = .ok (.cached, none, l) store := by
  unfold ensure
  exact congrFun (if_pos h) store

namespace Run

theorem onStore_of_ok {step : Step σ α} {s : RunState σ} {a : α} {store : σ}
    (h : step s.store = .ok a store) : onStore step s = .ok a { s with store } := by
  unfold onStore
  rw [h]

theorem mapFailure_of_ok {g : Failure → Failure} {run : Run σ α} {s s' : RunState σ} {a : α}
    (h : run s = .ok a s') : mapFailure g run s = .ok a s' := by
  unfold mapFailure
  rw [h]

theorem onStore_of_error {step : Step σ α} {s : RunState σ} {f : Failure} {store : σ}
    (h : step s.store = .error f store) : onStore step s = .error f { s with store } := by
  unfold onStore
  rw [h]

theorem mapFailure_of_error {g : Failure → Failure} {run : Run σ α} {s s' : RunState σ}
    {f : Failure} (h : run s = .error f s') : mapFailure g run s = .error (g f) s' := by
  unfold mapFailure
  rw [h]

theorem onStore_eq_ok {step : Step σ α} {s s' : RunState σ} {a : α}
    (h : onStore step s = .ok a s') :
    ∃ store, step s.store = .ok a store ∧ s' = { s with store } := by
  unfold onStore at h
  split at h
  · next b store hs =>
    cases h
    exact ⟨store, hs, rfl⟩
  · cases h

theorem onStore_eq_error {step : Step σ α} {s s' : RunState σ} {f : Failure}
    (h : onStore step s = .error f s') : ∃ store, step s.store = .error f store := by
  unfold onStore at h
  split at h
  · cases h
  · next g store hs =>
    cases h
    exact ⟨store, hs⟩

theorem mapFailure_eq_error {g : Failure → Failure} {run : Run σ α} {s s' : RunState σ}
    {f : Failure} (h : mapFailure g run s = .error f s') :
    ∃ f₀, run s = .error f₀ s' ∧ f = g f₀ := by
  unfold mapFailure at h
  split at h
  · cases h
  · next f₀ s₁ hs =>
    cases h
    exact ⟨f₀, hs, rfl⟩

theorem mapFailure_eq_ok {g : Failure → Failure} {run : Run σ α} {s s' : RunState σ} {a : α}
    (h : mapFailure g run s = .ok a s') : run s = .ok a s' := by
  unfold mapFailure at h
  split at h
  · next b s₁ hs =>
    cases h
    exact hs
  · cases h

theorem ensureAuthor_of_ok [Store σ] {s : RunState σ} {user : Option User} {write : UserWrite}
    {authors : Authors} {store : σ}
    (h : s.authors.ensure user s.store = .ok (write, authors) store) :
    ensureAuthor user s = .ok () { s with store, authors } :=
  bind_of_ok _ (onStore_of_ok h)

/-- The window answers for the changeset. -/
theorem ensureChangeset_of_contains [Store σ] {s : RunState σ} {next : Snapshot}
    (h : s.ledger.window.contains next.changesetId = true) (time : Time.Instant) :
    ensureChangeset next time s = .ok () s := by
  have hensure := Ledger.ensure_of_contains h (next.user.elim anonymousUserId (·.id)) time s.store
  have hget : (get : Run σ _) s = .ok s s := rfl
  unfold ensureChangeset
  rw [bind_of_ok _ hget, bind_of_ok _ (onStore_of_ok hensure)]
  rfl

theorem ensureChangeset_of_ok [Store σ] {s : RunState σ} {next : Snapshot} {time : Time.Instant}
    {ensured : Ensured} {evicted : Option Int64} {ledger : Ledger} {store : σ}
    (h : s.ledger.ensure next.changesetId (next.user.elim anonymousUserId (·.id)) time s.store =
      .ok (ensured, evicted, ledger) store) :
    ensureChangeset next time s = .ok ()
      { s with
        store
        ledger
        events := evicted.elim s.events fun id => s.events.push (.evicted id) } := by
  have hget : (get : Run σ _) s = .ok s s := rfl
  unfold ensureChangeset
  rw [bind_of_ok _ hget, bind_of_ok _ (onStore_of_ok h)]
  cases evicted <;> rfl

/-- Author and changeset of a change are brought into the store; yields the stored version of its
entity. -/
def enroll [Store σ] (next : Snapshot) (time : Time.Instant) : Run σ (Option Snapshot) := do
  ensureAuthor next.user
  ensureChangeset next time
  touch next.changesetId
  onStore (Store.lookup next.key)

def settle [Store σ] (o : Options) (action : Action) (next : Snapshot)
    (previous : Option Snapshot) : Run σ Outcome := fun s =>
  match o.verdict action previous next with
  | .skip stored => .ok (.skipped next.key next.version stored) (s.skipped next stored)
  | .refuse i => .error (Refusal.invalidAction i).toFailure (s.flagged o.policy (some i))
  | .record i => record o action previous next i (s.flagged o.policy i)

theorem judge_eq (policy : Policy) (action : Action) (previous : Option Snapshot) (next : Snapshot)
    (s : RunState σ) :
    judge policy action previous next s =
      match invalid? action previous next with
      | none => .ok none s
      | some i =>
        if policy = .stop then
          .error (Refusal.invalidAction i).toFailure (s.flagged policy (some i))
        else .ok (some i) (s.flagged policy (some i)) := by
  unfold judge
  cases invalid? action previous next with
  | none => rfl
  | some i => cases policy <;> rfl

theorem processChecked_eq [Store σ] (o : Options) (action : Action) (next : Snapshot)
    (time : Time.Instant) :
    processChecked (σ := σ) o action next time = enroll next time >>= settle o action next := by
  have hsettle (previous : Option Snapshot) :
      (match if o.skipApplied then applied? previous next else none with
        | some stored => do
          count fun n => { n with skipped := n.skipped + 1 }
          emit (.alreadyApplied next.label next.version stored)
          return .skipped next.key next.version stored
        | none => do
          let invalid ← judge o.policy action previous next
          record o action previous next invalid : Run σ Outcome) =
      settle o action next previous := by
    funext s
    unfold settle Options.verdict
    cases (if o.skipApplied then applied? previous next else none) with
    | some stored => rfl
    | none =>
      -- Only the strict policy makes a difference between a conflict and none.
      simp only [bind_apply, judge_eq]
      cases invalid? action previous next with
      | none => rfl
      | some i => by_cases hp : o.policy = .stop <;> simp [hp]
  unfold processChecked enroll
  simp only [bind_assoc]
  exact bind_congr fun _ => bind_congr fun _ => bind_congr fun _ => bind_congr hsettle

/-- Every change is checked first; its failure names the change. -/
theorem process_eq [Store σ] (plan : Plan) (action : Action) (next : Snapshot) :
    process (σ := σ) plan action next =
      mapFailure (inContext plan.runId next) fun s =>
        match check next with
        | .error f => .error f s
        | .ok time => (enroll next time >>= settle plan.options action next) s := by
  unfold process
  congr 1
  funext s
  cases check next with
  | error f => rfl
  | ok time => exact congrFun (processChecked_eq plan.options action next time) s

theorem process_of_check_error [Store σ] {plan : Plan} {action : Action} {next : Snapshot}
    {f : Failure} (h : check next = .error f) (s : RunState σ) :
    process plan action next s = .error (inContext plan.runId next f) s := by
  rw [process_eq]
  simp only [mapFailure, h]

theorem process_of_enroll [Store σ] {plan : Plan} {action : Action} {next : Snapshot}
    {time : Time.Instant} {s s' : RunState σ} {previous : Option Snapshot}
    (h : check next = .ok time) (ha : enroll next time s = .ok previous s') :
    process plan action next s =
      mapFailure (inContext plan.runId next) (settle plan.options action next previous) s' := by
  rw [process_eq]
  simp only [mapFailure, h, bind_of_ok _ ha]

/-- A change that passes the check has a time and a version of at least one. -/
theorem check_eq_ok {next : Snapshot} {time : Time.Instant} (h : check next = .ok time) :
    next.timestamp = some time ∧ 1 ≤ next.version := by
  unfold check at h
  split at h
  · cases h
  · next t ht =>
    split at h
    · cases h
    · next hv =>
      cases h
      exact ⟨ht, Int64.not_lt.1 hv⟩

/-- A change that does not pass the check has no time or a version below one, and the failure tells
which. -/
theorem check_eq_error {next : Snapshot} {f : Failure} (h : check next = .error f) :
    (next.timestamp = none ∧ f = (Refusal.missingTimestamp next.key).toFailure) ∨
      (next.version < 1 ∧ f = (Refusal.invalidVersion next.key next.version).toFailure) := by
  unfold check at h
  split at h
  · next ht =>
    cases h
    exact .inl ⟨ht, rfl⟩
  · split at h
    · next hv =>
      cases h
      exact .inr ⟨hv, rfl⟩
    · cases h

theorem exists_check_eq_error {next : Snapshot} (h : next.timestamp = none ∨ next.version < 1) :
    ∃ f, check next = .error f := by
  unfold check
  cases ht : next.timestamp with
  | none => exact ⟨_, rfl⟩
  | some time =>
    have hv : next.version < 1 := h.resolve_left (by simp [ht])
    exact ⟨_, if_pos hv⟩

theorem exists_check_eq_ok {next : Snapshot} (ht : next.timestamp.isSome = true)
    (hv : 1 ≤ next.version) : ∃ time, check next = .ok time := by
  obtain ⟨time, ht⟩ := Option.isSome_iff_exists.1 ht
  refine ⟨time, ?_⟩
  unfold check
  rw [ht]
  exact if_neg (Int64.not_lt.2 hv)

end Run

end MapAudit
