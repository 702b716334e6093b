import Mathlib.Data.List.Chain
import MapAudit.Proofs.Change.Record
import MapAudit.Proofs.Run.Known

namespace MapAudit

namespace ChangeRecord

def resultTags (r : ChangeRecord) : Tags :=
  (if r.tagsChanged then r.newTags else r.previousTags).getD ∅

def resultGeometry (r : ChangeRecord) : Option Geometry :=
  if r.geometryChanged then r.newGeometry else r.previousGeometry

/-- A modification or deletion starts from what the record before left. -/
def Follows (before r : ChangeRecord) : Prop :=
  r.action ≠ .create →
    r.previousTags = some before.resultTags ∧
      (r.previousGeometry == before.resultGeometry) = true

variable (action : Action) (previous : Option Snapshot) (next : Snapshot)

/-- The record tells the tags that stay in the store. -/
theorem resultTags_build :
    (build action previous next).resultTags = (action.leaves next).tags := by
  by_cases h : action = .delete
  · subst h
    rfl
  · unfold resultTags
    rw [tags_build action previous next h, Action.leaves, if_neg h]
    rfl

/-- The record tells the geometry that stays in the store, up to equality of floats. -/
theorem resultGeometry_build (h : ∀ p ∈ next.positions, p.IsNumber) :
    ((action.leaves next).shape == (build action previous next).resultGeometry) = true := by
  by_cases hdelete : action = .delete
  · subst hdelete
    rfl
  · rw [Action.leaves, if_neg hdelete]
    exact Geometry.option_beq_symm (geometry_build action previous next hdelete h)

end ChangeRecord

def MemoryStore.recordsOf (m : MemoryStore) (key : EntityKey) : List ChangeRecord :=
  m.changes.toList.filter (·.key = key)

/-- The log is a chain that ends in the stored state. -/
structure Chained (m : MemoryStore) : Prop where
  /-- Nothing is stored of an entity without records, and only of such. -/
  absent_iff : ∀ key, m.entities[key]? = none ↔ m.recordsOf key = []
  /-- What is stored is what the latest record leaves. -/
  stored : ∀ key s r, m.entities[key]? = some s → (m.recordsOf key).getLast? = some r →
    s.tags = r.resultTags ∧ (s.shape == r.resultGeometry) = true
  /-- Each record starts from what the one before it left. -/
  linked : ∀ key, (m.recordsOf key).IsChain ChangeRecord.Follows

namespace Chained

theorem empty : Chained .empty where
  absent_iff key := by simp [MemoryStore.recordsOf, MemoryStore.empty]
  stored key s r hs := by simp [MemoryStore.empty] at hs
  linked key := .nil

/-- Only entities and records count. -/
theorem congr {m m' : MemoryStore} (h : Chained m) (he : m'.entities = m.entities)
    (hc : m'.changes = m.changes) : Chained m' := by
  have hr (key : EntityKey) : m'.recordsOf key = m.recordsOf key := by
    unfold MemoryStore.recordsOf
    rw [hc]
  exact
    { absent_iff key := by rw [he, hr]; exact h.absent_iff key
      stored key s r := by rw [he, hr]; exact h.stored key s r
      linked key := by rw [hr]; exact h.linked key }

theorem recordsOf_written (m : MemoryStore) (o : Options) (action : Action)
    (previous : Option Snapshot) (next : Snapshot) (key : EntityKey) :
    (m.written o action previous next).recordsOf key =
      if next.key = key then m.recordsOf key ++ [.build action previous next]
      else m.recordsOf key := by
  unfold MemoryStore.recordsOf
  rw [MemoryStore.changes_written, Array.toList_push, List.filter_append]
  by_cases h : next.key = key <;> simp [h]

/-- A change starts from the stored version of its entity, which the latest record tells. -/
theorem follows_build {m : MemoryStore} (h : Chained m) (action : Action) (next : Snapshot)
    {before : ChangeRecord} (hbefore : (m.recordsOf next.key).getLast? = some before) :
    before.Follows (.build action m.entities[next.key]? next) := by
  intro hcreate
  rw [ChangeRecord.action_build] at hcreate
  -- The entity has a record, so a version of it is stored.
  obtain ⟨p, hp⟩ : ∃ p, m.entities[next.key]? = some p := by
    cases hp : m.entities[next.key]? with
    | some p => exact ⟨p, rfl⟩
    | none => simp [(h.absent_iff next.key).1 hp] at hbefore
  obtain ⟨htags, hgeometry⟩ := h.stored next.key p before hp hbefore
  obtain ⟨hprev, hshape⟩ := ChangeRecord.previous_build action next p hcreate
  rw [hp, hprev, hshape, htags]
  exact ⟨rfl, hgeometry⟩

/-- A change that is written prolongs the chain of its entity and leaves the others alone. -/
theorem written {m : MemoryStore} (h : Chained m) {o : Options} (ho : o.applyState = true)
    (action : Action) {next : Snapshot} (hn : ∀ p ∈ next.positions, p.IsNumber) :
    Chained (m.written o action m.entities[next.key]? next) := by
  have hentity := m.entities_written_of_apply o action m.entities[next.key]? next ho
  refine ⟨fun key => ?_, fun key s r hs hr => ?_, fun key => ?_⟩
  · rw [hentity, recordsOf_written]
    split
    · simp
    · exact h.absent_iff key
  · rw [hentity] at hs
    rw [recordsOf_written] at hr
    split at hs
    · next hk =>
      rw [if_pos hk, List.getLast?_append_of_ne_nil _ (by simp), List.getLast?_singleton] at hr
      cases hs
      cases hr
      exact ⟨(ChangeRecord.resultTags_build _ _ _).symm,
        ChangeRecord.resultGeometry_build _ _ _ hn⟩
    · next hk =>
      rw [if_neg hk] at hr
      exact h.stored key s r hs hr
  · rw [recordsOf_written]
    split
    · next hk =>
      subst hk
      refine List.isChain_append.2 ⟨h.linked next.key, .singleton _, ?_⟩
      intro before hbefore r hr
      obtain rfl : .build action m.entities[next.key]? next = r := by simpa using hr
      -- The new record starts from what is stored, which the record before it left.
      exact h.follows_build action next hbefore
    · exact h.linked key

end Chained

/-- A call that keeps the stored state up to date and brings numbers for coordinates. -/
def Session.Call.Tracked : Session.Call → Prop
  | .start plan => plan.options.applyState = true
  | .process _ next => ∀ p ∈ next.positions, p.IsNumber
  | .finalize => True

/-- A session in which every run so far has kept the stored state up to date. -/
structure Session.Tracking (x : Session MemoryStore) : Prop where
  applyState : x.plan.options.applyState = true
  known : Known x.state
  chained : Chained x.state.store

theorem Session.Tracking.ask {x : Session MemoryStore} (h : x.Tracking) {call : Session.Call}
    (hcall : call.Tracked) : (x.ask call).2.Tracking := by
  have hknown := h.known.ask call
  cases call with
  | start plan => exact ⟨hcall, hknown, h.chained⟩
  | finalize =>
    rw [Session.ask_finalize_of_ok (h.known.finalize_eq x.plan)] at hknown ⊢
    exact ⟨h.applyState, hknown,
      h.chained.congr (MemoryStore.entities_recountedAll _ _) (MemoryStore.changes_recountedAll _ _)⟩
  | process action next =>
    -- An enrolment writes neither records nor entities.
    have henrolled (time : Time.Instant) : Chained (x.state.enrolled next time).store :=
      h.chained.congr (RunState.entities_enrolled ..) (RunState.changes_enrolled ..)
    rcases Run.process_cases x.plan action next x.state with
      ⟨f, -, hp⟩ | ⟨time, -, ⟨stored, -, hp⟩ | ⟨i, -, hp⟩ | ⟨i, -, hp⟩⟩
    · rw [Session.ask_process_of_error hp]
      exact h
    · rw [Session.ask_process_of_ok hp] at hknown ⊢
      exact ⟨h.applyState, hknown, henrolled time⟩
    · rw [Session.ask_process_of_error hp] at hknown ⊢
      exact ⟨h.applyState, hknown, henrolled time⟩
    · rw [Session.ask_process_of_ok hp] at hknown ⊢
      refine ⟨h.applyState, hknown, ?_⟩
      have hw := (henrolled time).written h.applyState action hcall
      rw [RunState.entities_enrolled] at hw
      rw [RunState.store_recorded, RunState.store_flagged]
      exact hw

/-- After every call the latest record of an entity tells what is stored of it, and each record
starts from what the one before it left. -/
theorem audit_log_chained (plan : Plan) (hplan : plan.options.applyState = true)
    (calls : List Session.Call) (hcalls : ∀ call ∈ calls, call.Tracked) :
    ∀ r ∈ (Session.ofStore plan MemoryStore.empty).trace calls, Chained r.2.state.store := by
  have hstart : (Session.ofStore plan MemoryStore.empty).Tracking :=
    ⟨hplan, .start plan _, .empty⟩
  intro r hr
  exact (Session.trace_invariant (P := Session.Tracking)
    (fun call hcall x hx => hx.ask (hcalls call hcall)) hstart r hr).chained

/-- The chain of a line that is created, deleted in a second run, and created again. -/
theorem audit_log_chained_of_recreated :
    (∀ version, ∀ p ∈ (Snapshot.shortLine version).positions, p.IsNumber) ∧
      ∀ r ∈ (Session.ofStore ⟨{}, ⟨"first"⟩⟩ MemoryStore.empty).trace
        [.process .create (.shortLine 1), .finalize, .start ⟨{ skipApplied := true }, ⟨"second"⟩⟩,
          .process .delete (.shortLine 2), .process .create (.shortLine 3), .finalize],
        Chained r.2.state.store := by
  have hn (version : Int64) : ∀ p ∈ (Snapshot.shortLine version).positions, p.IsNumber := by
    intro p hp
    obtain rfl : p = ⟨1.5, 2.5⟩ := List.mem_singleton.1 hp
    exact ⟨by decide +kernel, by decide +kernel⟩
  refine ⟨hn, audit_log_chained _ rfl _ ?_⟩
  simpa [Session.Call.Tracked] using ⟨hn 1, hn 2, hn 3⟩

end MapAudit
