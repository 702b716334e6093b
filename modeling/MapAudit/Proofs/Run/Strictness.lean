import MapAudit.Proofs.Run.Abreast
import MapAudit.Proofs.Run.Accounts

namespace MapAudit

def Plan.under (plan : Plan) (policy : Policy) : Plan :=
  { plan with options := { plan.options with policy } }

namespace Run

section quiet
open RunState

variable [Store σ]

variable (plan : Plan)

end quiet

end Run

def Outcome.conflict? : Outcome → Option InvalidAction
  | recorded _ i => i
  | skipped .. => none

theorem Turn.isSome_conflict?_outcome (o : Options) (t : Turn) :
    (t.outcome o).conflict?.isSome = t.isFlagged o := by
  unfold isFlagged isRecorded outcome
  cases t.applied? o <;> simp [Outcome.conflict?]

namespace Run
variable {plan : Plan} {s : RunState MemoryStore}

/-- Where and why a strict run stops. Up to the change `c` it goes as the lenient run, without
conflicts, and comes to the state `t`; there the lenient run fails likewise, or lets a conflict through
that the failure tells of. Since then the strict run has written no record and no entity. -/
structure StopsAt (plan : Plan) (s : RunState MemoryStore) (before : List (Action × Snapshot))
    (c : Action × Snapshot) (os : List Outcome) (t : RunState MemoryStore) (f : Failure)
    (u : RunState MemoryStore) : Prop where
  lenient : outcomes (plan.under .ignore) before s = .ok os t
  strict : outcomes (plan.under .stop) before s = .ok os t
  clear : ∀ outcome ∈ os, outcome.conflict? = none
  stopped : process (plan.under .stop) c.1 c.2 t = .error f u
  cause : process (plan.under .ignore) c.1 c.2 t = .error f u ∨
    ∃ outcome i t', process (plan.under .ignore) c.1 c.2 t = .ok outcome t' ∧
      outcome.conflict? = some i ∧
      f = inContext plan.runId c.2 (Refusal.invalidAction i).toFailure
  entities : u.store.entities = t.store.entities
  changes : u.store.changes = t.store.changes

theorem StopsAt.cons {before : List (Action × Snapshot)} {b c : Action × Snapshot}
    {outcome : Outcome} {os : List Outcome} {s₁ t u : RunState MemoryStore} {f : Failure}
    (h : StopsAt plan s₁ before c os t f u)
    (hlenient : process (plan.under .ignore) b.1 b.2 s = .ok outcome s₁)
    (hstrict : process (plan.under .stop) b.1 b.2 s = .ok outcome s₁)
    (hclear : outcome.conflict? = none) :
    StopsAt plan s (b :: before) c (outcome :: os) t f u :=
  { h with
    lenient := outcomes_cons_eq_ok.2 ⟨_, _, _, hlenient, h.lenient, rfl⟩
    strict := outcomes_cons_eq_ok.2 ⟨_, _, _, hstrict, h.strict, rfl⟩
    clear := List.forall_mem_cons.2 ⟨hclear, h.clear⟩ }

end Run

end MapAudit
