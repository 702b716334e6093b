import Mathlib.Data.List.Forall2
import MapAudit.Proofs.Run.InMemory

namespace MapAudit

def RunState.over (s : RunState σ) (store : τ) : RunState τ where
  store := store
  ledger := s.ledger
  authors := s.authors
  stats := s.stats
  events := s.events

/-- A processor at work on a store. -/
structure Session (σ : Type) where
  plan : Plan
  state : RunState σ

namespace Session

inductive Call where
  | start (plan : Plan)
  | process (action : Action) (next : Snapshot)
  | finalize

inductive Answer where
  | started
  | processed (outcome : Outcome)
  | reported (report : RunReport)
  | failed (failure : Failure)

def ofStore (plan : Plan) (store : σ) : Session σ := ⟨plan, plan.start store⟩

def ask [Store σ] (x : Session σ) : Call → Answer × Session σ
  | .start plan => (.started, .ofStore plan x.state.store)
  | .process action next =>
    match Run.process x.plan action next x.state with
    | .ok outcome state => (.processed outcome, { x with state })
    | .error f state => (.failed f, { x with state })
  | .finalize =>
    match Run.finalize x.plan x.state with
    | .ok report state => (.reported report, { x with state })
    | .error f state => (.failed f, { x with state })

section ask
variable [Store σ] {x : Session σ} {action : Action} {next : Snapshot} {s : RunState σ}

theorem ask_process_of_ok {outcome : Outcome}
    (h : Run.process x.plan action next x.state = .ok outcome s) :
    x.ask (.process action next) = (.processed outcome, { x with state := s }) := by
  simp only [ask, h]

theorem ask_process_of_error {f : Failure}
    (h : Run.process x.plan action next x.state = .error f s) :
    x.ask (.process action next) = (.failed f, { x with state := s }) := by
  simp only [ask, h]

theorem ask_finalize_of_ok {report : RunReport}
    (h : Run.finalize x.plan x.state = .ok report s) :
    x.ask .finalize = (.reported report, { x with state := s }) := by
  simp only [ask, h]

end ask

/-- The answers to calls in order, each with the session after it. -/
def trace [Store σ] : Session σ → List Call → List (Answer × Session σ)
  | _, [] => []
  | x, call :: calls => x.ask call :: (x.ask call).2.trace calls

/-- What holds at the start and is preserved by every call holds throughout. -/
theorem trace_invariant [Store σ] {P : Session σ → Prop} {calls : List Call}
    (preserved : ∀ call ∈ calls, ∀ x, P x → P (x.ask call).2) {x : Session σ} (h : P x) :
    ∀ r ∈ x.trace calls, P r.2 := by
  induction calls generalizing x with
  | nil => intro r hr; cases hr
  | cons call calls ih =>
    have hx := preserved call List.mem_cons_self x h
    intro r hr
    rcases List.mem_cons.1 hr with rfl | hr
    · exact hx
    · exact ih (fun c hc => preserved c (List.mem_cons_of_mem _ hc)) hx r hr

/-- Sessions that answer every call alike and stay related do so throughout. -/
theorem trace_forall₂ [Store σ] [Store τ] {R : Session σ → Session τ → Prop} (f g : Call → Call)
    {calls : List Call}
    (alike : ∀ call ∈ calls, ∀ x y, R x y →
      (x.ask (f call)).1 = (y.ask (g call)).1 ∧ R (x.ask (f call)).2 (y.ask (g call)).2)
    {x : Session σ} {y : Session τ} (h : R x y) :
    List.Forall₂ (fun r r' => r.1 = r'.1 ∧ R r.2 r'.2) (x.trace (calls.map f))
      (y.trace (calls.map g)) := by
  induction calls generalizing x y with
  | nil => exact .nil
  | cons call calls ih =>
    have hcall := alike call List.mem_cons_self x y h
    exact .cons hcall (ih (fun c hc => alike c (List.mem_cons_of_mem _ hc)) hcall.2)

end Session

/-- The versions of a line with one position, for runs on given changes. -/
def Snapshot.shortLine (version : Int64) : Snapshot where
  id := 7
  kind := .line
  version := version
  changesetId := 500
  timestamp := some ⟨0, 0, by decide, by decide, by decide, by decide⟩
  user := some ⟨1, "ann"⟩
  geometry := some (.line [⟨1.5, 2.5⟩])

def Snapshot.signed (next : Snapshot) (id : Int64) (name : String) : Snapshot :=
  { next with user := some ⟨id, name⟩ }

end MapAudit
