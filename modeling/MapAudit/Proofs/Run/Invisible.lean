import Mathlib.Data.List.Induction
import MapAudit.Proofs.Run.Origin

namespace MapAudit

structure Snapshot.Bare (s : Snapshot) : Prop where
  tags : s.tags = ∅
  geometry : s.geometry = none
  members : s.members = []

/-- There is nothing in the version if it is invisible. -/
def Snapshot.BareIfInvisible (s : Snapshot) : Prop := s.visible = false → s.Bare

theorem Snapshot.bareIfInvisible_iff {s : Snapshot} :
    s.BareIfInvisible ↔ s.visible = true ∨ s.Bare := by
  unfold BareIfInvisible
  rw [← Bool.not_eq_true, or_iff_not_imp_left]

structure MemoryStore.BareIfInvisible (m : MemoryStore) : Prop where
  stored : ∀ (key : EntityKey) (s : Snapshot), m.entities[key]? = some s → s.BareIfInvisible

theorem MemoryStore.bareIfInvisible_empty : MemoryStore.empty.BareIfInvisible where
  stored key s h := by simp [MemoryStore.empty] at h

/-- A deletion clears the version, and any other action leaves it as it came. -/
theorem Action.bareIfInvisible_leaves {action : Action} {next : Snapshot} :
    (action.leaves next).BareIfInvisible ↔ action = .delete ∨ next.BareIfInvisible := by
  unfold leaves
  split
  · next hdelete => exact iff_of_true (fun _ => ⟨rfl, rfl, rfl⟩) (.inl hdelete)
  · next hkeep => exact (or_iff_right hkeep).symm

namespace Session

/-- The change of a call, if it is applied: recorded by a processor that keeps entities up to date. -/
def applied? [Store σ] (x : Session σ) : Call → Option (Action × Snapshot)
  | .start _ | .finalize => none
  | .process action next =>
    match Run.process x.plan action next x.state with
    | .ok (.recorded ..) _ => if x.plan.options.applyState then some (action, next) else none
    | _ => none

variable {x : Session MemoryStore}

/-- A call stores what its change leaves, if that is applied, and no other entity. -/
theorem entities_ask (h : Known x.state) (call : Call) (key : EntityKey) :
    (x.ask call).2.state.store.entities[key]? =
      match x.applied? call with
      | none => x.state.store.entities[key]?
      | some c => if c.2.key = key then some (c.1.leaves c.2) else x.state.store.entities[key]? := by
  cases call with
  | start plan => rfl
  | finalize =>
    rw [ask_finalize_of_ok (h.finalize_eq x.plan), RunState.entities_finalized]
    rfl
  | process action next =>
    rcases Run.process_cases x.plan action next x.state with
      ⟨f, -, hp⟩ | ⟨time, -, ⟨stored, -, hp⟩ | ⟨i, -, hp⟩ | ⟨i, -, hp⟩⟩
    · simp only [applied?, hp]
      rw [ask_process_of_error hp]
    · simp only [applied?, hp]
      rw [ask_process_of_ok hp]
      simp [RunState.skipped]
    · simp only [applied?, hp]
      rw [ask_process_of_error hp]
      simp
    · simp only [applied?, hp]
      rw [ask_process_of_ok hp, RunState.store_recorded, MemoryStore.entities_written]
      cases x.plan.options.applyState with
      | false => simp
      | true => simp

end Session

namespace Crew
variable {ι : Type} [DecidableEq ι] {x : Crew ι MemoryStore}

/-- A store stays bare of invisible things through a call if and only if the change of the call is not
applied, is a deletion, or has nothing in it where it is invisible. -/
theorem bareIfInvisible_ask_iff (hknown : ∀ i, Known (x.session i).state)
    (h : x.store.BareIfInvisible) (call : ι × Session.Call) :
    (x.ask call).2.store.BareIfInvisible ↔
      ∀ c, (x.session call.1).applied? call.2 = some c → c.1 = .delete ∨ c.2.BareIfInvisible := by
  have hentities (key : EntityKey) := Session.entities_ask (hknown call.1) call.2 key
  simp only [← store_ask, store_session] at hentities
  cases happlied : (x.session call.1).applied? call.2 with
  | none =>
    simp only [happlied] at hentities
    -- Nothing is stored by the call, so there is nothing to ask of it.
    refine iff_of_true ⟨fun key s hs => h.stored key s ?_⟩ (fun c hc => by cases hc)
    rw [← hentities, hs]
  | some c =>
    simp only [happlied] at hentities
    simp only [Option.some_inj, forall_eq', ← Action.bareIfInvisible_leaves]
    constructor
    · -- The version that is left stands in the store and is bare there.
      intro hafter
      refine hafter.stored c.2.key _ ?_
      rw [hentities, if_pos rfl]
    · intro hleaves
      refine ⟨fun key s hs => ?_⟩
      rw [hentities] at hs
      split at hs
      · cases hs
        exact hleaves
      · exact h.stored key s hs

end Crew

/-- An invisible version with something in it comes into a store by a creation or a modification of
it, and by nothing else. However many processors are at work on a store that was empty, and under
whatever options, all stored invisible versions have been without tags, geometry and members
throughout if and only if every change that was applied is a deletion or brings a version that is
visible or without them. -/
theorem invisible_versions_bare_iff {ι : Type} [DecidableEq ι] (plans : ι → Plan)
    (calls : List (ι × Session.Call)) :
    let x := Crew.ofStore plans MemoryStore.empty
    (∀ before, before <+: calls → (x.after before).store.BareIfInvisible) ↔
      ∀ before call, before ++ [call] <+: calls →
        ∀ c, ((x.after before).session call.1).applied? call.2 = some c →
          c.1 = .delete ∨ c.2.visible = true ∨ c.2.Bare := by
  intro x
  have hknown (before : List (ι × Session.Call)) (i : ι) : Known ((x.after before).session i).state :=
    Crew.known_after (Crew.known_ofStore plans MemoryStore.empty) before i
  have hstep (before : List (ι × Session.Call)) (call : ι × Session.Call)
      (h : (x.after before).store.BareIfInvisible) :
      (x.after (before ++ [call])).store.BareIfInvisible ↔
        ∀ c, ((x.after before).session call.1).applied? call.2 = some c →
          c.1 = .delete ∨ c.2.visible = true ∨ c.2.Bare := by
    rw [Crew.after_concat, Crew.bareIfInvisible_ask_iff (hknown before) h]
    simp only [Snapshot.bareIfInvisible_iff]
  constructor
  · intro hbare before call hcalls
    exact (hstep before call (hbare before ((List.prefix_append before [call]).trans hcalls))).1
      (hbare _ hcalls)
  · intro happlied before hcalls
    induction before using List.reverseRecOn with
    | nil => exact MemoryStore.bareIfInvisible_empty
    | append_singleton before call ih =>
      have hbefore := ih ((List.prefix_append before [call]).trans hcalls)
      exact (hstep before call hbefore).2 (happlied before call hcalls)

/-- A line that is created invisible keeps its geometry. -/
theorem invisible_line_keeps_geometry :
    ∃ s, ((Crew.ofStore (fun _ : Unit => ⟨{}, ⟨"run"⟩⟩) MemoryStore.empty).after
        [((), .process .create { Snapshot.shortLine 1 with visible := false })]).store.entities[
          (Snapshot.shortLine 1).key]? = some s ∧
      s.visible = false ∧ ¬s.Bare := by
  let plan : Plan := ⟨{}, ⟨"run"⟩⟩
  let next : Snapshot := { Snapshot.shortLine 1 with visible := false }
  have hnone : (plan.start MemoryStore.empty).store.entities[next.key]? = none := by
    simp [Plan.start, MemoryStore.empty]
  have hverdict : plan.options.verdict .create
      (plan.start MemoryStore.empty).store.entities[next.key]? next = .record none := by
    rw [hnone]
    rfl
  have hp : Run.process plan .create next (plan.start MemoryStore.empty) = .ok _ _ :=
    Run.process_of_record rfl hverdict
  refine ⟨next, ?_, rfl, fun h => ?_⟩
  · rw [Crew.after_cons, Crew.after, List.foldl_nil, Crew.store_ask, Crew.session_ofStore,
      Session.ask_process_of_ok hp, RunState.store_recorded, MemoryStore.entities_written]
    exact if_pos ⟨rfl, rfl⟩
  · cases h.geometry

end MapAudit
