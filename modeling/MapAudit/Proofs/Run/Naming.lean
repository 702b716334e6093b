import Mathlib.Data.List.Induction
import MapAudit.Proofs.Run.Accounts

namespace MapAudit

/-- The ids of the users that changes name, in the order in which they first come. -/
def userIds (changes : List (Action × Snapshot)) : List Int64 :=
  (changes.filterMap (·.2.user.map (·.id))).eraseDups

section userIds
variable {changes : List (Action × Snapshot)} {c : Action × Snapshot}

theorem mem_userIds {id : Int64} :
    id ∈ userIds changes ↔ ∃ c ∈ changes, ∃ u, c.2.user = some u ∧ u.id = id := by
  unfold userIds
  rw [List.mem_eraseDups, List.mem_filterMap]
  simp only [Option.map_eq_some_iff]

theorem isSome_firstUser {id : Int64} :
    (firstUser changes id).isSome = true ↔ id ∈ userIds changes := by
  unfold firstUser
  rw [List.findSome?_isSome_iff, mem_userIds]
  simp only [Option.isSome_filter, Option.any_eq_true, decide_eq_true_eq]

theorem firstUser_eq_none {id : Int64} : firstUser changes id = none ↔ id ∉ userIds changes := by
  rw [← Option.not_isSome_iff_eq_none, isSome_firstUser]

/-- An id that changes name already keeps its first user. -/
theorem firstUser_append_of_mem {id : Int64} (h : id ∈ userIds changes)
    (later : List (Action × Snapshot)) :
    firstUser (changes ++ later) id = firstUser changes id := by
  obtain ⟨u, hu⟩ := Option.isSome_iff_exists.1 (isSome_firstUser.2 h)
  rw [firstUser_append, hu, Option.some_or]

theorem userIds_concat_of_none (h : c.2.user = none) : userIds (changes ++ [c]) = userIds changes := by
  simp [userIds, h]

theorem userIds_concat_of_some {u : User} (h : c.2.user = some u) :
    userIds (changes ++ [c]) =
      if u.id ∈ userIds changes then userIds changes else userIds changes ++ [u.id] := by
  have hids : (changes ++ [c]).filterMap (·.2.user.map (·.id)) =
      changes.filterMap (·.2.user.map (·.id)) ++ [u.id] := by
    simp [h]
  unfold userIds
  rw [hids, eraseDups_append_singleton]
  simp only [List.mem_eraseDups]

/-- Where no earlier change names the user, the first user of its id is this one. -/
theorem firstUser_of_first {before after : List (Action × Snapshot)} {u : User}
    (hfirst : ∀ b ∈ before, ∀ v, b.2.user = some v → v.id ≠ u.id) (h : c.2.user = some u) :
    firstUser (before ++ c :: after) u.id = some u := by
  have hbefore : firstUser before u.id = none := by
    rw [firstUser_eq_none, mem_userIds]
    rintro ⟨b, hb, v, hv, hid⟩
    exact hfirst b hb v hv hid
  rw [firstUser_append, hbefore, firstUser_cons, h]
  simp

end userIds

namespace Run
variable {plan : Plan} {s s' : RunState MemoryStore}

theorem userWrites_process {action : Action} {next : Snapshot} {o : Outcome}
    (h : process plan action next s = .ok o s') :
    s'.store.userWrites = (s.withAuthor next.user).store.userWrites := by
  rcases process_cases plan action next s with
    ⟨f, -, hp⟩ | ⟨time, -, ⟨stored, -, hp⟩ | ⟨i, -, hp⟩ | ⟨i, -, hp⟩⟩
  · rw [hp] at h
    cases h
  · rw [hp] at h
    cases h
    simp [RunState.enrolled, RunState.skipped]
  · rw [hp] at h
    cases h
  · rw [hp] at h
    cases h
    simp [RunState.enrolled]

theorem seen_iff_mem_userIds {m : MemoryStore} {changes : List (Action × Snapshot)}
    {os : List Outcome} (h : outcomes plan changes (plan.start m) = .ok os s) {id : Int64} :
    s.authors.seen.contains id = true ↔ id ∈ userIds changes := by
  rw [seen_outcomes h, ← isSome_firstUser]
  simp [Plan.start]

/-- A run writes the users that the store had otherwise than the changes first name them. -/
theorem userWrites_outcomes {m : MemoryStore} {changes : List (Action × Snapshot)}
    {os : List Outcome} (h : outcomes plan changes (plan.start m) = .ok os s) :
    s.store.userWrites =
      m.userWrites + (userIds changes).countP fun id => m.users[id]? ≠ firstUser changes id := by
  induction changes using List.reverseRecOn generalizing os s with
  | nil =>
    obtain ⟨-, rfl⟩ := outcomes_nil_eq_ok.1 h
    rfl
  | append_singleton changes c ih =>
    obtain ⟨os₁, s₁, os₂, hos, hc, -⟩ := outcomes_append_eq_ok.1 h
    obtain ⟨o, s₂, os₃, ho, hnil, -⟩ := outcomes_cons_eq_ok.1 hc
    obtain ⟨-, rfl⟩ := outcomes_nil_eq_ok.1 hnil
    have hkept : ((userIds changes).countP fun id => m.users[id]? ≠ firstUser (changes ++ [c]) id) =
        (userIds changes).countP fun id => m.users[id]? ≠ firstUser changes id :=
      List.countP_congr fun id hid => by rw [firstUser_append_of_mem hid]
    rw [userWrites_process ho]
    cases hu : c.2.user with
    | none =>
      rw [userIds_concat_of_none hu, hkept]
      exact ih hos
    | some u =>
      rw [userIds_concat_of_some hu]
      by_cases hid : u.id ∈ userIds changes
      · rw [if_pos hid, hkept, RunState.withAuthor_of_seen ((seen_iff_mem_userIds hos).2 hid)]
        exact ih hos
      · -- The run has not seen the user, so the store has it as it was at the beginning.
        have hnone : firstUser changes u.id = none := firstUser_eq_none.2 hid
        have hs : ¬s₁.authors.seen.contains u.id = true := mt (seen_iff_mem_userIds hos).1 hid
        have hstored : s₁.store.users[u.id]? = m.users[u.id]? := by
          rw [users_outcomes hos, hnone, Option.none_or]
          exact ite_self _
        have hfirst : firstUser (changes ++ [c]) u.id = some u := by
          rw [firstUser_append, hnone, firstUser_cons, hu]
          simp
        rw [if_neg hid, RunState.withAuthor_of_new hs, List.countP_append, hkept, ← Nat.add_assoc,
          ← ih hos, List.countP_singleton, hfirst]
        dsimp only
        rw [MemoryStore.userWrites_withUser, hstored]
        simp

end Run

/-- Every user is stored under its own id. -/
def MemoryStore.UsersKeyed (m : MemoryStore) : Prop :=
  ∀ (id : Int64) (u : User), m.users[id]? = some u → u.id = id

namespace MemoryStore.UsersKeyed
variable {m : MemoryStore}

theorem empty : MemoryStore.empty.UsersKeyed := by
  intro id u h
  simp [MemoryStore.empty] at h

theorem putUser (h : m.UsersKeyed) (u : User) : (m.putUser u).UsersKeyed := by
  intro id v hv
  unfold MemoryStore.putUser at hv
  rw [Std.ExtTreeMap.getElem?_insert] at hv
  split at hv
  · next hid =>
    cases hv
    simpa using hid
  · exact h id v hv

/-- A run keeps users under their ids. -/
theorem all {plan : Plan} {changes : List (Action × Snapshot)} {report : RunReport}
    {s : RunState MemoryStore} (h : m.UsersKeyed)
    (hall : Run.all plan changes (plan.start m) = .ok report s) : s.store.UsersKeyed := by
  intro id u hu
  obtain ⟨os, t, hos, rfl⟩ := Run.outcomes_of_all (.start plan m) hall
  rw [Run.users_run hos] at hu
  rcases Option.or_eq_some_iff.1 hu with hfirst | ⟨-, hstored⟩
  · obtain ⟨c, -, -, hid⟩ := exists_of_firstUser hfirst
    exact hid
  · exact h id u hstored

/-- Under its own id a user is stored as given if it is stored with the name given. -/
theorem ne_firstUser_iff (h : m.UsersKeyed) {changes : List (Action × Snapshot)} {id : Int64} :
    m.users[id]? ≠ firstUser changes id ↔
      m.users[id]?.map (·.name) ≠ (firstUser changes id).map (·.name) := by
  refine not_congr ⟨congrArg (Option.map User.name), fun hname => ?_⟩
  cases hu : m.users[id]? with
  | none =>
    rw [hu] at hname
    exact (Option.map_eq_none_iff.1 hname.symm).symm
  | some u =>
    cases hv : firstUser changes id with
    | none =>
      rw [hu, hv] at hname
      cases hname
    | some v =>
      obtain ⟨c, -, -, hid⟩ := exists_of_firstUser hv
      rw [hu, hv] at hname
      have hids : u.id = v.id := (h id u hu).trans hid.symm
      have hnames : u.name = v.name := Option.some.inj hname
      exact congrArg some (User.eq_of_id_name hids hnames)

end MemoryStore.UsersKeyed

/-- A run that goes through stores each user with the name that the first change by it carries,
whatever later changes say and whatever becomes of any of them. It leaves the other users as they were.
It writes a user once if the store had none of that id or had it otherwise, that is, since users are
stored under their ids, with another name; it writes no other user. -/
theorem runs_write_first_names (plan : Plan) (m : MemoryStore)
    (changes : List (Action × Snapshot)) (report : RunReport) (s : RunState MemoryStore)
    (h : Run.all plan changes (plan.start m) = .ok report s) :
    (∀ before c after u, changes = before ++ c :: after → c.2.user = some u →
      (∀ b ∈ before, ∀ v, b.2.user = some v → v.id ≠ u.id) → s.store.users[u.id]? = some u) ∧
      (∀ id : Int64, id ∉ userIds changes → s.store.users[id]? = m.users[id]?) ∧
      s.store.userWrites =
        m.userWrites + (userIds changes).countP (fun id => m.users[id]? ≠ firstUser changes id) ∧
      (m.UsersKeyed → s.store.userWrites = m.userWrites + (userIds changes).countP fun id =>
        m.users[id]?.map (·.name) ≠ (firstUser changes id).map (·.name)) := by
  obtain ⟨os, t, hos, rfl⟩ := Run.outcomes_of_all (.start plan m) h
  have hwrites : t.finalized.store.userWrites =
      m.userWrites + (userIds changes).countP fun id => m.users[id]? ≠ firstUser changes id :=
    (t.store.userWrites_recountedAll _).trans (Run.userWrites_outcomes hos)
  refine ⟨fun before c after u hchanges hu hfirst => ?_, fun id hid => ?_, hwrites, fun hm => ?_⟩
  · rw [Run.users_run hos, hchanges, firstUser_of_first hfirst hu, Option.some_or]
  · rw [Run.users_run hos, firstUser_eq_none.2 hid, Option.none_or]
  · simp only [hwrites, hm.ne_firstUser_iff]

/-- Four changes by three users: one is stored with the same name, one is named otherwise before it is
named as it is stored, and one is new. The second and the third are written, once each. -/
theorem run_writes_first_of_two_names :
    ∃ report s, Run.all ⟨{ skipApplied := true }, ⟨"run"⟩⟩
        [(.create, .signed (.shortLine 1) 1 "ann"),
          (.create, .signed (.shortLine 1) 2 "rob"),
          (.modify, .signed (.shortLine 2) 2 "bob"),
          (.modify, .signed (.shortLine 3) 3 "cyd")]
        (Plan.start ⟨{ skipApplied := true }, ⟨"run"⟩⟩
          ((MemoryStore.empty.putUser ⟨1, "ann"⟩).putUser ⟨2, "bob"⟩)) = .ok report s ∧
      s.store.users[(2 : Int64)]? = some ⟨2, "rob"⟩ ∧ s.store.userWrites = 4 := by
  obtain ⟨os, t, hos⟩ := Run.outcomes_of_checked ⟨{ skipApplied := true }, ⟨"run"⟩⟩
    (s := Plan.start ⟨{ skipApplied := true }, ⟨"run"⟩⟩
      ((MemoryStore.empty.putUser ⟨1, "ann"⟩).putUser ⟨2, "bob"⟩)) (by decide)
    [(.create, .signed (.shortLine 1) 1 "ann"),
      (.create, .signed (.shortLine 1) 2 "rob"),
      (.modify, .signed (.shortLine 2) 2 "bob"),
      (.modify, .signed (.shortLine 3) 3 "cyd")] (by
      intro c hc
      simp only [List.mem_cons, List.not_mem_nil, or_false] at hc
      obtain rfl | rfl | rfl | rfl := hc <;> exact ⟨_, rfl⟩)
  have hall := Run.all_of_outcomes (.start _ _) hos
  obtain ⟨hnames, -, -, hwrites⟩ := runs_write_first_names _ _ _ _ _ hall
  refine ⟨_, _, hall, hnames [_] _ [_, _] ⟨2, "rob"⟩ rfl rfl ?_, ?_⟩
  · simp [Snapshot.signed]
  · have hstored (id : Int64) :
        ((MemoryStore.empty.putUser ⟨1, "ann"⟩).putUser ⟨2, "bob"⟩).users[id]? =
          if 2 = id then some ⟨2, "bob"⟩ else if 1 = id then some ⟨1, "ann"⟩ else none := by
      simp [MemoryStore.putUser, MemoryStore.empty, Std.ExtTreeMap.getElem?_insert]
    rw [hwrites ((MemoryStore.UsersKeyed.empty.putUser _).putUser _)]
    simp only [hstored]
    decide

end MapAudit
