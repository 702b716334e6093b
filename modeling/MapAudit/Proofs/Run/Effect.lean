import MapAudit.Proofs.Run.Known

namespace MapAudit
open Time

def firstUser (changes : List (Action × Snapshot)) (id : Int64) : Option User :=
  changes.findSome? fun c => c.2.user.filter (·.id = id)

/-- The changeset of this id as its first change opens it. -/
def firstChangeset (changes : List (Action × Snapshot)) (id : Int64) : Option Changeset :=
  changes.findSome? fun c =>
    if c.2.changesetId = id then c.2.timestamp.map c.2.opened else none

theorem firstUser_cons (c : Action × Snapshot) (changes : List (Action × Snapshot)) (id : Int64) :
    firstUser (c :: changes) id = (c.2.user.filter (·.id = id)).or (firstUser changes id) := by
  unfold firstUser
  rw [List.findSome?_cons]
  cases c.2.user.filter (·.id = id) <;> rfl

theorem firstUser_append (p q : List (Action × Snapshot)) (id : Int64) :
    firstUser (p ++ q) id = (firstUser p id).or (firstUser q id) :=
  List.findSome?_append

theorem User.eq_of_id_name {u v : User} (hid : u.id = v.id) (hname : u.name = v.name) : u = v := by
  obtain ⟨i, n⟩ := u
  obtain ⟨j, k⟩ := v
  rw [User.mk.injEq]
  exact ⟨hid, hname⟩

/-- The first user of an id is the user of a change. -/
theorem exists_of_firstUser {changes : List (Action × Snapshot)} {id : Int64} {u : User}
    (h : firstUser changes id = some u) : ∃ c ∈ changes, c.2.user = some u ∧ u.id = id := by
  unfold firstUser at h
  obtain ⟨c, hc, hu⟩ := List.exists_of_findSome?_eq_some h
  obtain ⟨huser, hid⟩ := Option.filter_eq_some_iff.1 hu
  exact ⟨c, hc, huser, by simpa using hid⟩

theorem firstChangeset_cons (c : Action × Snapshot) (changes : List (Action × Snapshot))
    (id : Int64) :
    firstChangeset (c :: changes) id =
      (if c.2.changesetId = id then c.2.timestamp.map c.2.opened else none).or
        (firstChangeset changes id) := by
  unfold firstChangeset
  rw [List.findSome?_cons]
  cases (if c.2.changesetId = id then c.2.timestamp.map c.2.opened else none) <;> rfl

theorem firstChangeset_append (p q : List (Action × Snapshot)) (id : Int64) :
    firstChangeset (p ++ q) id = (firstChangeset p id).or (firstChangeset q id) :=
  List.findSome?_append

/-- A changeset that no change is of is not opened. -/
theorem firstChangeset_eq_none {changes : List (Action × Snapshot)} {id : Int64}
    (h : ¬∃ c ∈ changes, c.2.changesetId = id) : firstChangeset changes id = none := by
  unfold firstChangeset
  rw [List.findSome?_eq_none_iff]
  intro c hc
  exact if_neg fun e => h ⟨c, hc, e⟩

/-- A changeset is opened by changes with a time if and only if one of them is of it. -/
theorem isSome_firstChangeset {changes : List (Action × Snapshot)}
    (htimes : ∀ c ∈ changes, c.2.timestamp.isSome = true) (id : Int64) :
    (firstChangeset changes id).isSome = true ↔ ∃ c ∈ changes, c.2.changesetId = id := by
  unfold firstChangeset
  rw [List.findSome?_isSome_iff]
  constructor
  · rintro ⟨c, hc, hsome⟩
    refine ⟨c, hc, ?_⟩
    by_contra hid
    rw [if_neg hid] at hsome
    cases hsome
  · rintro ⟨c, hc, hid⟩
    refine ⟨c, hc, ?_⟩
    rw [if_pos hid, Option.isSome_map]
    exact htimes c hc

namespace Run

/-- Processes changes in order, up to the first failure, and tells what becomes of each. -/
def outcomes [Store σ] (plan : Plan) : List (Action × Snapshot) → Run σ (List Outcome)
  | [] => return []
  | (action, next) :: changes => do
    let outcome ← process plan action next
    return outcome :: (← outcomes plan changes)

/-- A whole run forgets the outcomes. -/
theorem all_eq [Store σ] (plan : Plan) (changes : List (Action × Snapshot)) :
    all (σ := σ) plan changes = outcomes plan changes >>= fun _ => finalize plan := by
  have hforM : (changes.forM fun c => do let _ ← process plan c.1 c.2 : Run σ Unit) =
      outcomes plan changes >>= fun _ => pure () := by
    induction changes with
    | nil => rfl
    | cons c changes ih =>
      -- The loop makes the first step and then the others, as the recursion does.
      change (do let _ ← process plan c.1 c.2) >>= (fun _ => changes.forM _) = _
      rw [ih]
      simp only [outcomes, bind_assoc, pure_bind]
  change (changes.forM fun c => do let _ ← process plan c.1 c.2 : Run σ Unit) >>=
    (fun _ => finalize plan) = _
  rw [hforM]
  simp only [bind_assoc, pure_bind]

section ok
variable [Store σ] {plan : Plan} {s s' : RunState σ}

theorem outcomes_nil_eq_ok {os : List Outcome} :
    outcomes plan [] s = .ok os s' ↔ os = [] ∧ s' = s := by
  constructor
  · intro h
    cases h
    exact ⟨rfl, rfl⟩
  · rintro ⟨rfl, rfl⟩
    rfl

theorem outcomes_cons_eq_ok {c : Action × Snapshot} {changes : List (Action × Snapshot)}
    {os : List Outcome} :
    outcomes plan (c :: changes) s = .ok os s' ↔
      ∃ o s₁ os', process plan c.1 c.2 s = .ok o s₁ ∧ outcomes plan changes s₁ = .ok os' s' ∧
        os = o :: os' := by
  constructor
  · intro h
    obtain ⟨o, s₁, ho, h⟩ := bind_eq_ok h
    obtain ⟨os', s₂, hos, h⟩ := bind_eq_ok h
    cases h
    exact ⟨o, s₁, os', ho, hos, rfl⟩
  · rintro ⟨o, s₁, os', ho, hos, rfl⟩
    exact (bind_of_ok _ ho).trans (bind_of_ok _ hos)

theorem outcomes_append_eq_ok {p q : List (Action × Snapshot)} {os : List Outcome} :
    outcomes plan (p ++ q) s = .ok os s' ↔
      ∃ os₁ s₁ os₂, outcomes plan p s = .ok os₁ s₁ ∧ outcomes plan q s₁ = .ok os₂ s' ∧
        os = os₁ ++ os₂ := by
  induction p generalizing s os with
  | nil =>
    simp only [List.nil_append, outcomes_nil_eq_ok]
    constructor
    · intro h
      exact ⟨[], s, os, ⟨rfl, rfl⟩, h, rfl⟩
    · rintro ⟨os₁, s₁, os₂, ⟨rfl, rfl⟩, h, rfl⟩
      exact h
  | cons c p ih =>
    simp only [List.cons_append, outcomes_cons_eq_ok, ih]
    constructor
    · rintro ⟨o, s₁, os', ho, ⟨os₁, s₂, os₂, hp, hq, rfl⟩, rfl⟩
      exact ⟨o :: os₁, s₂, os₂, ⟨o, s₁, os₁, ho, hp, rfl⟩, hq, rfl⟩
    · rintro ⟨os₁, s₂, os₂, ⟨o, s₁, os', ho, hp, rfl⟩, hq, rfl⟩
      exact ⟨o, s₁, os' ++ os₂, ho, ⟨os', s₂, os₂, hp, hq, rfl⟩, rfl⟩

theorem all_eq_ok {changes : List (Action × Snapshot)} {report : RunReport} :
    all plan changes s = .ok report s' ↔
      ∃ os s₁, outcomes plan changes s = .ok os s₁ ∧ finalize plan s₁ = .ok report s' := by
  rw [all_eq]
  constructor
  · exact bind_eq_ok
  · rintro ⟨os, s₁, hos, h⟩
    exact (bind_of_ok _ hos).trans h

end ok

section books
variable {plan : Plan} {s s' : RunState MemoryStore}

/-- Whatever becomes of a change that goes through, the books and the users and changesets in store
are those of its enrolment. -/
theorem process_ok_books {action : Action} {next : Snapshot} {o : Outcome}
    (h : process plan action next s = .ok o s') :
    ∃ time, check next = .ok time ∧
      s'.ledger = (s.enrolled next time).ledger ∧
      s'.authors = (s.enrolled next time).authors ∧
      s'.store.users = (s.enrolled next time).store.users ∧
      s'.store.changesets = (s.enrolled next time).store.changesets := by
  rcases process_cases plan action next s with
    ⟨f, -, hp⟩ | ⟨time, hc, ⟨stored, -, hp⟩ | ⟨i, -, hp⟩ | ⟨i, -, hp⟩⟩
  · rw [hp] at h
    cases h
  · rw [hp] at h
    cases h
    exact ⟨time, hc, rfl, rfl, rfl, rfl⟩
  · rw [hp] at h
    cases h
  · rw [hp] at h
    cases h
    exact ⟨time, hc, by simp, by simp, by simp, by simp⟩

theorem known_outcomes {changes : List (Action × Snapshot)} {os : List Outcome} (hk : Known s)
    (h : outcomes plan changes s = .ok os s') : Known s' := by
  induction changes generalizing s os with
  | nil =>
    obtain ⟨-, rfl⟩ := outcomes_nil_eq_ok.1 h
    exact hk
  | cons c changes ih =>
    obtain ⟨o, s₁, os', ho, hos, -⟩ := outcomes_cons_eq_ok.1 h
    obtain ⟨time, -, hledger, -, -, hchangesets⟩ := process_ok_books ho
    exact ih ((hk.enrolled c.2 time).congr hledger hchangesets) hos

/-- A change that goes through brings its author up to date, and writes to no other user. -/
theorem process_ok_author {action : Action} {next : Snapshot} {o : Outcome}
    (h : process plan action next s = .ok o s') :
    s'.authors = (s.withAuthor next.user).authors ∧
      s'.store.users = (s.withAuthor next.user).store.users := by
  obtain ⟨time, -, -, hauthors, husers, -⟩ := process_ok_books h
  rw [hauthors, husers]
  unfold RunState.enrolled
  exact ⟨RunState.authors_withChangeset _ _, RunState.users_withChangeset _ _⟩

/-- The users seen are those that the changes name. -/
theorem seen_outcomes {changes : List (Action × Snapshot)} {os : List Outcome}
    (h : outcomes plan changes s = .ok os s') (id : Int64) :
    s'.authors.seen.contains id =
      (s.authors.seen.contains id || (firstUser changes id).isSome) := by
  induction changes generalizing s os with
  | nil =>
    obtain ⟨-, rfl⟩ := outcomes_nil_eq_ok.1 h
    simp [firstUser]
  | cons c changes ih =>
    obtain ⟨o, s₁, os', ho, hos, -⟩ := outcomes_cons_eq_ok.1 h
    rw [ih hos, (process_ok_author ho).1, RunState.seen_withAuthor, firstUser_cons,
      Option.isSome_or, Bool.or_assoc]

/-- A user is stored as the changes first name it, unless the run has seen it before. -/
theorem users_outcomes {changes : List (Action × Snapshot)} {os : List Outcome}
    (h : outcomes plan changes s = .ok os s') (id : Int64) :
    s'.store.users[id]? =
      if s.authors.seen.contains id then s.store.users[id]?
      else (firstUser changes id).or s.store.users[id]? := by
  induction changes generalizing s os with
  | nil =>
    obtain ⟨-, rfl⟩ := outcomes_nil_eq_ok.1 h
    simp [firstUser]
  | cons c changes ih =>
    obtain ⟨o, s₁, os', ho, hos, -⟩ := outcomes_cons_eq_ok.1 h
    obtain ⟨hauthors, husers⟩ := process_ok_author ho
    -- Once seen, a user is left alone, so the first change that names it decides.
    rw [ih hos, hauthors, husers, RunState.seen_withAuthor, RunState.users_withAuthor,
      firstUser_cons]
    cases s.authors.seen.contains id with
    | true => simp
    | false => cases c.2.user.filter (·.id = id) <;> simp

/-- A changeset that is missing is opened by its first change. -/
theorem changesets_outcomes {changes : List (Action × Snapshot)} {os : List Outcome}
    (hk : Known s) (h : outcomes plan changes s = .ok os s') (id : Int64) :
    s'.store.changesets[id]? = s.store.changesets[id]?.or (firstChangeset changes id) := by
  induction changes generalizing s os with
  | nil =>
    obtain ⟨-, rfl⟩ := outcomes_nil_eq_ok.1 h
    simp [firstChangeset]
  | cons c changes ih =>
    obtain ⟨o, s₁, os', ho, hos, -⟩ := outcomes_cons_eq_ok.1 h
    obtain ⟨time, hcheck, hledger, -, -, hchangesets⟩ := process_ok_books ho
    have htime := (check_eq_ok hcheck).1
    have hk₁ := (hk.enrolled c.2 time).congr hledger hchangesets
    rw [ih hk₁ hos, hchangesets, hk.changesets_enrolled, firstChangeset_cons, htime,
      Option.or_assoc]
    rfl

/-- The changesets of the changes are touched. -/
theorem touched_outcomes {changes : List (Action × Snapshot)} {os : List Outcome}
    (h : outcomes plan changes s = .ok os s') (id : Int64) :
    id ∈ s'.ledger.touched.toList ↔
      id ∈ s.ledger.touched.toList ∨ ∃ c ∈ changes, c.2.changesetId = id := by
  induction changes generalizing s os with
  | nil =>
    obtain ⟨-, rfl⟩ := outcomes_nil_eq_ok.1 h
    simp
  | cons c changes ih =>
    obtain ⟨o, s₁, os', ho, hos, -⟩ := outcomes_cons_eq_ok.1 h
    obtain ⟨time, -, hledger, -, -, -⟩ := process_ok_books ho
    rw [ih hos, hledger, RunState.mem_touched_enrolled]
    simp only [List.mem_cons, exists_eq_or_imp, or_assoc, eq_comm (a := id)]

/-- The users that a run leaves. -/
theorem users_run {m : MemoryStore} {changes : List (Action × Snapshot)} {os : List Outcome}
    (h : outcomes plan changes (plan.start m) = .ok os s) (id : Int64) :
    s.finalized.store.users[id]? = (firstUser changes id).or m.users[id]? := by
  have hseen : (plan.start m).authors.seen.contains id = false := by
    simp [Plan.start]
  rw [RunState.users_finalized, users_outcomes h, hseen, if_neg Bool.false_ne_true]
  rfl

/-- The changesets that a run leaves. -/
theorem changesets_run {m : MemoryStore} {changes : List (Action × Snapshot)} {os : List Outcome}
    (h : outcomes plan changes (plan.start m) = .ok os s) (id : Int64) :
    s.finalized.store.changesets[id]? =
      if ∃ c ∈ changes, c.2.changesetId = id then
        (m.changesets[id]?.or (firstChangeset changes id)).map (s.store.recount id)
      else m.changesets[id]? := by
  have htouched : id ∈ s.ledger.touched.toList ↔ ∃ c ∈ changes, c.2.changesetId = id := by
    rw [touched_outcomes h]
    exact or_iff_right List.not_mem_nil
  have hstored : s.store.changesets[id]? =
      m.changesets[id]?.or (firstChangeset changes id) :=
    changesets_outcomes (.start plan m) h id
  rw [RunState.changesets_finalized, hstored]
  by_cases hid : ∃ c ∈ changes, c.2.changesetId = id
  · rw [if_pos hid, if_pos (htouched.2 hid)]
  · rw [if_neg hid, if_neg (mt htouched.1 hid), firstChangeset_eq_none hid, Option.or_none]

end books

section entities
variable {plan : Plan} {s s' t : RunState MemoryStore}

/-- A change that goes through is passed over or written, and the entities and records are those of
that. -/
theorem process_ok_cases {action : Action} {next : Snapshot} {o : Outcome}
    (h : process plan action next s = .ok o s') :
    (∃ stored, plan.options.verdict action s.store.entities[next.key]? next = .skip stored ∧
      o = .skipped next.key next.version stored ∧
      s'.store.entities = s.store.entities ∧ s'.store.changes = s.store.changes) ∨
    ∃ i m', plan.options.verdict action s.store.entities[next.key]? next = .record i ∧
      o = .recorded (.build action s.store.entities[next.key]? next) i ∧
      m' = s.store.written plan.options action s.store.entities[next.key]? next ∧
      s'.store.entities = m'.entities ∧ s'.store.changes = m'.changes := by
  rcases process_cases plan action next s with
    ⟨f, -, hp⟩ | ⟨time, -, ⟨stored, hv, hp⟩ | ⟨i, -, hp⟩ | ⟨i, hv, hp⟩⟩
  · rw [hp] at h
    cases h
  · rw [hp] at h
    cases h
    exact .inl ⟨stored, hv, rfl, s.entities_enrolled next time, s.changes_enrolled next time⟩
  · rw [hp] at h
    cases h
  · rw [hp] at h
    cases h
    refine .inr ⟨i, _, hv, rfl, rfl, ?_, ?_⟩
    · simp [MemoryStore.written, MemoryStore.insertEntity]
    · simp

/-- A change that fails leaves the entities and records as they are. -/
theorem process_error_kept {action : Action} {next : Snapshot} {f : Failure}
    (h : process plan action next s = .error f s') :
    s'.store.entities = s.store.entities ∧ s'.store.changes = s.store.changes := by
  rcases process_cases plan action next s with
    ⟨f, -, hp⟩ | ⟨time, -, ⟨stored, -, hp⟩ | ⟨i, -, hp⟩ | ⟨i, -, hp⟩⟩
  · rw [hp] at h
    cases h
    exact ⟨rfl, rfl⟩
  · rw [hp] at h
    cases h
  · rw [hp] at h
    cases h
    exact ⟨s.entities_enrolled next time, s.changes_enrolled next time⟩
  · rw [hp] at h
    cases h

/-- What becomes of a change depends on the options and on what is stored of its entity alone. -/
theorem process_ok_of_entity (plan' : Plan) {action : Action} {next : Snapshot} {o : Outcome}
    (h : process plan action next s = .ok o s') (hopt : plan'.options = plan.options)
    (he : t.store.entities[next.key]? = s.store.entities[next.key]?) :
    ∃ t', process plan' action next t = .ok o t' := by
  obtain ⟨time, hcheck, -⟩ := process_ok_books h
  rcases process_ok_cases h with ⟨stored, hv, rfl, -⟩ | ⟨i, -, hv, rfl, -⟩
  · rw [← hopt, ← he] at hv
    exact ⟨_, process_of_skip hcheck hv⟩
  · rw [← hopt, ← he] at hv
    rw [← he]
    exact ⟨_, process_of_record hcheck hv⟩

/-- Which records and entities a change leaves depends on the options and the stored entities
alone. -/
theorem process_congr (plan' : Plan) {action : Action} {next : Snapshot} {o : Outcome}
    (h : process plan action next s = .ok o s') (hopt : plan'.options = plan.options)
    (he : t.store.entities = s.store.entities) (hc : t.store.changes = s.store.changes) :
    ∃ t', process plan' action next t = .ok o t' ∧
      t'.store.entities = s'.store.entities ∧ t'.store.changes = s'.store.changes := by
  obtain ⟨t', h'⟩ := process_ok_of_entity (t := t) plan' h hopt (by rw [he])
  refine ⟨t', h', ?_⟩
  rcases process_ok_cases h with ⟨stored, -, ho, hse, hsc⟩ | ⟨i, m, -, ho, rfl, hse, hsc⟩
  · rcases process_ok_cases h' with ⟨-, -, -, hte, htc⟩ | ⟨j, -, -, ho', -⟩
    · exact ⟨by rw [hte, hse, he], by rw [htc, hsc, hc]⟩
    · rw [ho] at ho'
      cases ho'
  · rcases process_ok_cases h' with ⟨stored, -, ho', -⟩ | ⟨-, -, -, -, rfl, hte, htc⟩
    · rw [ho] at ho'
      cases ho'
    · rw [hte, htc, hse, hsc, hopt, he]
      simp [MemoryStore.written, MemoryStore.insertEntity, he, hc]

theorem outcomes_congr (plan' : Plan) {changes : List (Action × Snapshot)} {os : List Outcome}
    (h : outcomes plan changes s = .ok os s') (hopt : plan'.options = plan.options)
    (he : t.store.entities = s.store.entities) (hc : t.store.changes = s.store.changes) :
    ∃ t', outcomes plan' changes t = .ok os t' ∧
      t'.store.entities = s'.store.entities ∧ t'.store.changes = s'.store.changes := by
  induction changes generalizing s t os with
  | nil =>
    obtain ⟨rfl, rfl⟩ := outcomes_nil_eq_ok.1 h
    exact ⟨t, rfl, he, hc⟩
  | cons c changes ih =>
    obtain ⟨o, s₁, os', ho, hos, rfl⟩ := outcomes_cons_eq_ok.1 h
    obtain ⟨t₁, ho', he₁, hc₁⟩ := process_congr plan' ho hopt he hc
    obtain ⟨t', hos', he', hc'⟩ := ih hos he₁ hc₁
    exact ⟨t', outcomes_cons_eq_ok.2 ⟨o, t₁, os', ho', hos', rfl⟩, he', hc'⟩

end entities

end Run

end MapAudit
