import MapAudit.Proofs.Run.Crew
import MapAudit.Proofs.Run.Effect

namespace MapAudit

/-- A changeset as it was opened, apart from what is counted later. -/
def Changeset.opening (c : Changeset) : Changeset := { c with closedAt := none, numChanges := 0 }

/-- What is counted later is neither the author nor the beginning. -/
theorem Changeset.of_opening_eq {c c' : Changeset} (h : c.opening = c'.opening) :
    c.userId = c'.userId ∧ c.createdAt = c'.createdAt :=
  ⟨congrArg (·.userId) h, congrArg (·.createdAt) h⟩

/-- The change of a call, if it passes the check: it has a time and a version of at least one. -/
def Session.Call.observed? : Session.Call → Option (Action × Snapshot)
  | .process action next =>
    if next.timestamp.isSome = true ∧ 1 ≤ next.version then some (action, next) else none
  | .start _ | .finalize => none

theorem Session.Call.of_observed? {call : Session.Call} {c : Action × Snapshot}
    (h : call.observed? = some c) : c.2.timestamp.isSome = true ∧ 1 ≤ c.2.version := by
  cases call with
  | start plan => cases h
  | finalize => cases h
  | process action next =>
    obtain ⟨hchecked, hc⟩ := Option.ite_none_right_eq_some.1 h
    cases hc
    exact hchecked

namespace Session
variable {x : Session MemoryStore}

/-- A change that fails the check leaves everything as it is; any other leaves the changesets of its
enrolment. -/
theorem changesets_ask_process (x : Session MemoryStore) (action : Action) (next : Snapshot) :
    ((Call.process action next).observed? = none ∧ (x.ask (.process action next)).2 = x) ∨
    ∃ time, next.timestamp = some time ∧
      (Call.process action next).observed? = some (action, next) ∧
      (x.ask (.process action next)).2.state.store.changesets =
        (x.state.enrolled next time).store.changesets := by
  have hobserved {time : Time.Instant} (hc : Run.check next = .ok time) :
      (Call.process action next).observed? = some (action, next) := by
    obtain ⟨ht, hv⟩ := Run.check_eq_ok hc
    exact if_pos ⟨Option.isSome_of_eq_some ht, hv⟩
  -- Passed over, refused or recorded: the changesets are those of the enrolment.
  rcases Run.process_cases x.plan action next x.state with
    ⟨f, hc, hp⟩ | ⟨time, hc, ⟨stored, -, hp⟩ | ⟨i, -, hp⟩ | ⟨i, -, hp⟩⟩
  · refine .inl ⟨if_neg fun h => ?_, by rw [ask_process_of_error hp]⟩
    -- A change that is observed passes the check, which this one fails.
    obtain ⟨time, hc'⟩ := Run.exists_check_eq_ok h.1 h.2
    rw [hc] at hc'
    cases hc'
  · refine .inr ⟨time, (Run.check_eq_ok hc).1, hobserved hc, ?_⟩
    rw [ask_process_of_ok hp]
    rfl
  · refine .inr ⟨time, (Run.check_eq_ok hc).1, hobserved hc, ?_⟩
    rw [ask_process_of_error hp]
    rfl
  · refine .inr ⟨time, (Run.check_eq_ok hc).1, hobserved hc, ?_⟩
    rw [ask_process_of_ok hp]
    simp

/-- A call opens the changeset of its change if that is missing, and leaves all others as they were
opened. -/
theorem opening_ask (h : Known x.state) (call : Call) (id : Int64) :
    (x.ask call).2.state.store.changesets[id]?.map (·.opening) =
      (x.state.store.changesets[id]?.map (·.opening)).or
        (firstChangeset call.observed?.toList id) := by
  cases call with
  | start plan => exact Option.or_none.symm
  | finalize =>
    rw [ask_finalize_of_ok (h.finalize_eq x.plan), RunState.changesets_finalized]
    refine Eq.trans ?_ Option.or_none.symm
    -- A count sets right the number and the end of a changeset, which are not part of its opening.
    split
    · rw [Option.map_map]
      rfl
    · rfl
  | process action next =>
    rcases x.changesets_ask_process action next with ⟨ho, hx⟩ | ⟨time, ht, ho, hc⟩
    · rw [ho, hx]
      exact Option.or_none.symm
    · have hfirst : firstChangeset [(action, next)] id =
          if next.changesetId = id then some (next.opened time) else none := by
        rw [firstChangeset_cons, ht]
        exact Option.or_none
      rw [ho, hc, h.changesets_enrolled, Option.toList_some, hfirst]
      cases x.state.store.changesets[id]? with
      | some c => rfl
      | none => split <;> rfl

/-- No changeset is ever taken away. -/
theorem mem_changesets_ask (h : Known x.state) (call : Call) {id : Int64}
    (hid : id ∈ x.state.store.changesets) : id ∈ (x.ask call).2.state.store.changesets := by
  have hopening := congrArg Option.isSome (opening_ask h call id)
  rw [Option.isSome_or, Option.isSome_map, Option.isSome_map,
    Std.ExtTreeMap.mem_iff_isSome_getElem?.1 hid, Bool.true_or] at hopening
  exact Std.ExtTreeMap.mem_iff_isSome_getElem?.2 hopening

end Session

/-- Changesets that come to a store make no difference to what is known. -/
theorem Known.over {s : RunState MemoryStore} (h : Known s) {m : MemoryStore}
    (hkept : ∀ id, id ∈ s.store.changesets → id ∈ m.changesets) : Known (s.over m) where
  window id hid := hkept id (h.window id hid)
  touched id hid := hkept id (h.touched id hid)

namespace Crew

theorem known_ofStore {ι : Type} (plans : ι → Plan) (m : MemoryStore) (i : ι) :
    Known ((ofStore plans m).session i).state :=
  .start (plans i) m

variable {ι : Type} [DecidableEq ι] {x : Crew ι MemoryStore}

/-- What the processors of a crew know stays known, whichever of them is at work. -/
theorem known_ask (h : ∀ i, Known (x.session i).state) (call : ι × Session.Call) (i : ι) :
    Known ((x.ask call).2.session i).state := by
  by_cases hi : i = call.1
  · subst hi
    rw [session_ask_self]
    exact (h call.1).ask call.2
  · rw [session_ask_of_ne x call hi]
    exact (h i).over fun id hid => Session.mem_changesets_ask (h call.1) call.2 hid

theorem known_after (h : ∀ i, Known (x.session i).state) (calls : List (ι × Session.Call)) (i : ι) :
    Known ((x.after calls).session i).state := by
  induction calls generalizing x with
  | nil => exact h i
  | cons call calls ih => exact ih (known_ask h call)

def observed (calls : List (ι × Session.Call)) : List (Action × Snapshot) :=
  calls.filterMap (·.2.observed?)

/-- A changeset is stored as it was opened, or as the first change that passes the check opens it. -/
theorem opening_after (h : ∀ i, Known (x.session i).state) (calls : List (ι × Session.Call))
    (id : Int64) :
    (x.after calls).store.changesets[id]?.map (·.opening) =
      (x.store.changesets[id]?.map (·.opening)).or (firstChangeset (observed calls) id) := by
  induction calls generalizing x with
  | nil => exact Option.or_none.symm
  | cons call calls ih =>
    have hcons : observed (call :: calls) = call.2.observed?.toList ++ observed calls := by
      unfold observed
      rw [List.filterMap_cons]
      cases call.2.observed? <;> rfl
    have hstep := Session.opening_ask (h call.1) call.2 id
    rw [← store_ask, store_session] at hstep
    rw [after_cons, ih (known_ask h call), hstep, hcons, firstChangeset_append, Option.or_assoc]

/-- In an empty store a crew opens just the changesets of the changes that pass the check. -/
theorem opening_ofStore_empty (plans : ι → Plan) (calls : List (ι × Session.Call)) (id : Int64) :
    ((ofStore plans MemoryStore.empty).after calls).store.changesets[id]?.map (·.opening) =
      firstChangeset (observed calls) id := by
  have hempty : (ofStore plans MemoryStore.empty).store.changesets[id]? = none := by
    simp [ofStore, MemoryStore.empty]
  rw [opening_after (known_ofStore plans _), hempty]
  rfl

end Crew

/-- The first change of a changeset decides how it is opened. -/
theorem firstChangeset_of_first {before after : List (Action × Snapshot)} {c : Action × Snapshot}
    (hfirst : ∀ b ∈ before, b.2.changesetId ≠ c.2.changesetId) {time : Time.Instant}
    (ht : c.2.timestamp = some time) :
    firstChangeset (before ++ c :: after) c.2.changesetId = some (c.2.opened time) := by
  have hbefore : firstChangeset before c.2.changesetId = none :=
    firstChangeset_eq_none fun ⟨b, hb, hid⟩ => hfirst b hb hid
  rw [firstChangeset_append, hbefore, firstChangeset_cons, if_pos rfl, ht]
  rfl

/-- A changeset belongs to its first change for ever. However many processors are at work on a store,
and under whatever options, a changeset is there if and only if a change of it has passed the check
of times and versions. Its author and its beginning are those of the first such change in the order
of the calls, whatever became of that change, and no later call alters them. -/
theorem changesets_belong_to_first_changes {ι : Type} [DecidableEq ι] (plans : ι → Plan)
    (calls : List (ι × Session.Call)) :
    let changesets (calls : List (ι × Session.Call)) :=
      ((Crew.ofStore plans MemoryStore.empty).after calls).store.changesets
    (∀ id : Int64, id ∈ changesets calls ↔ ∃ c ∈ Crew.observed calls, c.2.changesetId = id) ∧
      (∀ before c after, Crew.observed calls = before ++ c :: after →
        (∀ b ∈ before, b.2.changesetId ≠ c.2.changesetId) →
        ∃ r : Changeset, (changesets calls)[c.2.changesetId]? = some r ∧
          r.userId = c.2.user.elim (-1) (·.id) ∧ some r.createdAt = c.2.timestamp) ∧
      ∀ (later : List (ι × Session.Call)) (id : Int64) (r : Changeset),
        (changesets calls)[id]? = some r →
        ∃ r' : Changeset, (changesets (calls ++ later))[id]? = some r' ∧
          r'.userId = r.userId ∧ r'.createdAt = r.createdAt := by
  intro changesets
  have hopening (calls : List (ι × Session.Call)) (id : Int64) :
      (changesets calls)[id]?.map (·.opening) = firstChangeset (Crew.observed calls) id :=
    Crew.opening_ofStore_empty plans calls id
  have htimes : ∀ c ∈ Crew.observed calls, c.2.timestamp.isSome = true := by
    intro c hc
    obtain ⟨call, -, hcall⟩ := List.mem_filterMap.1 hc
    exact (Session.Call.of_observed? hcall).1
  refine ⟨fun id => ?_, fun before c after hcalls hfirst => ?_, fun later id r hr => ?_⟩
  · rw [Std.ExtTreeMap.mem_iff_isSome_getElem?, ← isSome_firstChangeset htimes, ← hopening,
      Option.isSome_map]
  · obtain ⟨time, ht⟩ := Option.isSome_iff_exists.1 (htimes c (hcalls ▸ List.mem_append_cons_self))
    have hstored := hopening calls c.2.changesetId
    rw [hcalls, firstChangeset_of_first hfirst ht] at hstored
    obtain ⟨r, hr, hopened⟩ := Option.map_eq_some_iff.1 hstored
    refine ⟨r, hr, congrArg Changeset.userId hopened, ?_⟩
    rw [ht]
    exact congrArg (some ∘ Changeset.createdAt) hopened
  · have hlater := hopening (calls ++ later) id
    -- The first change of the changeset is the same with or without the later ones.
    have happend : Crew.observed (calls ++ later) = Crew.observed calls ++ Crew.observed later :=
      List.filterMap_append
    rw [happend, firstChangeset_append, ← hopening calls, hr] at hlater
    obtain ⟨r', hr', hopened⟩ := Option.map_eq_some_iff.1 hlater
    exact ⟨r', hr', Changeset.of_opening_eq hopened⟩

/-- A changeset that a refused change opens, before another processor writes to it. -/
theorem changeset_belongs_to_refused_change :
    ∃ r, ((Crew.ofStore
        (fun strict : Bool => ⟨{ policy := if strict then .stop else .log, windowCapacity := 1 }, ⟨"run"⟩⟩)
        MemoryStore.empty).after
          [(true, .process .modify (.signed (.shortLine 0) 9 "eve")),
            (true, .process .modify (.shortLine 2)),
            (false, .process .create (.signed (.shortLine 1) 2 "bob")),
            (false, .finalize)]).store.changesets[(500 : Int64)]? = some r ∧
      r.userId = 1 := by
  obtain ⟨-, hfirst, -⟩ := changesets_belong_to_first_changes
    (fun strict : Bool => ⟨{ policy := if strict then .stop else .log, windowCapacity := 1 }, ⟨"run"⟩⟩)
    [(true, .process .modify (.signed (.shortLine 0) 9 "eve")),
      (true, .process .modify (.shortLine 2)),
      (false, .process .create (.signed (.shortLine 1) 2 "bob")),
      (false, .finalize)]
  obtain ⟨r, hr, hauthor, -⟩ := hfirst [] (.modify, .shortLine 2)
    [(.create, .signed (.shortLine 1) 2 "bob")] rfl (by simp)
  exact ⟨r, hr, hauthor⟩

end MapAudit
