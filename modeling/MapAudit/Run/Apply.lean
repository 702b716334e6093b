import MapAudit.Run.Encoding
import MapAudit.Stream.Changes

namespace MapAudit

namespace Run

/-- Processes what a stream gives; its first failure ends the run. -/
def items [Store σ] (plan : Plan) : List Stream.Item → Run σ Unit
  | [] => return ()
  | .error f :: _ => throw (f.withRun plan.runId)
  | .ok (action, next) :: rest => do
    let _ ← process plan action next
    items plan rest

def stream [Store σ] (plan : Plan) (is : List Stream.Item) : Run σ RunReport := do
  items plan is
  finalize plan

end Run

/-- What came of applying a stream. -/
structure Application (σ : Type) where
  plan : Plan
  dryRun : Bool
  result : Except Failure RunReport
  store : σ
  /-- The events of the run itself. -/
  inner : List Event

namespace Application

def operation : String := "apply_changes"
def component : String := "geodiff_engine::commands::apply_changes"

def ending (a : Application σ) (durationMs : Nat) : Event :=
  match a.result with
  | .ok r =>
    .ended component operation durationMs (some a.plan.runId)
      [("processed", toString r.stats.processed), ("skipped", toString r.stats.skipped),
        ("invalid", toString r.stats.invalid), ("changesets", toString r.changesets.length)]
  | .error f => .failed component operation durationMs f

def events (a : Application σ) (durationMs : Nat) : List Event :=
  .started component operation (some a.plan.runId)
      [("invalid_actions", a.plan.options.policy.name), ("dry_run", toString a.dryRun)] ::
    a.inner ++ [a.ending durationMs]

end Application

/-- Applies a stream in one transaction: after a failure and after a dry run the store is what it
was before. -/
def Plan.apply [Store σ] (plan : Plan) (store : σ) (dryRun : Bool) (is : List Stream.Item) :
    Application σ :=
  match Run.stream plan is (plan.start store) with
  | .ok report s =>
    { plan, dryRun
      result := .ok report
      store := if dryRun then store else s.store
      inner := s.events.toList }
  | .error f s => { plan, dryRun, result := .error f, store, inner := s.events.toList }

structure RunSummary where
  report : RunReport
  dryRun : Bool
  durationMs : Nat
  deriving DecidableEq, Repr

namespace RunSummary

def toJson (s : RunSummary) : Json :=
  .object
    (s.report.members ++ [("dry_run", .bool s.dryRun), ("duration_ms", .nat s.durationMs)])

def lines (s : RunSummary) : List String :=
  let r := s.report
  let rehearsal := if s.dryRun then "[dry-run] " else ""
  let counts :=
    s!"processed {r.stats.processed}, skipped {r.stats.skipped}, invalid {r.stats.invalid}"
  s!"{rehearsal}Run {r.runId.text}: {counts}, changesets {r.changesets.length}" ::
    r.changesets.map fun id => s!"  changeset {id}"

end RunSummary

end MapAudit
