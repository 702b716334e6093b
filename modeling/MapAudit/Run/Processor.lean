import MapAudit.Change.Policy
import MapAudit.Changeset.Ledger
import MapAudit.Event
import MapAudit.Run.Authors

namespace MapAudit

structure Options where
  policy : Policy := .ignore
  windowCapacity : Nat := Window.defaultCapacity
  /-- Pass over changes whose version is not newer than the stored one. -/
  skipApplied : Bool := false
  /-- Keep the stored version of entities up to date. -/
  applyState : Bool := true
  deriving DecidableEq, Repr

structure RunStats where
  /-- Changes with an audit record. -/
  processed : Nat := 0
  /-- Changes passed over as applied already. -/
  skipped : Nat := 0
  /-- Changes in conflict with the stored state, recorded or not. -/
  invalid : Nat := 0
  deriving DecidableEq, Repr

inductive Outcome where
  /-- There is a record of it; `invalid` tells of a conflict that the policy let through. -/
  | recorded (record : ChangeRecord) (invalid : Option InvalidAction)
  | skipped (key : EntityKey) (version stored : Int64)

def Outcome.record? : Outcome → Option ChangeRecord
  | recorded r _ => some r
  | skipped .. => none

structure RunReport where
  runId : RunId
  stats : RunStats
  /-- The recounted changesets, in the order in which they were first touched. -/
  changesets : List Int64
  deriving DecidableEq, Repr

structure Plan where
  options : Options := {}
  runId : RunId

/-- A store and the books of a run. -/
structure RunState (σ : Type) where
  store : σ
  ledger : Ledger
  authors : Authors := {}
  stats : RunStats := {}
  events : Array Event := #[]

def Plan.start (plan : Plan) (store : σ) : RunState σ :=
  { store, ledger := .ofCapacity plan.options.windowCapacity }

abbrev Run (σ α : Type) := EStateM Failure (RunState σ) α

namespace Run

def onStore (step : Step σ α) : Run σ α := fun s =>
  match step s.store with
  | .ok a store => .ok a { s with store }
  | .error f store => .error f { s with store }

def emit (e : Event) : Run σ Unit := modify fun s => { s with events := s.events.push e }

def count (f : RunStats → RunStats) : Run σ Unit := modify fun s => { s with stats := f s.stats }

/-- A change needs a timestamp and a version of at least one. -/
def check (next : Snapshot) : Except Failure Time.Instant :=
  match next.timestamp with
  | none => .error (Refusal.missingTimestamp next.key).toFailure
  | some t =>
    if next.version < 1 then .error (Refusal.invalidVersion next.key next.version).toFailure
    else .ok t

def ensureAuthor [Store σ] (user : Option User) : Run σ Unit := do
  let s ← get
  let (_, authors) ← onStore (s.authors.ensure user)
  modify fun s => { s with authors }

def ensureChangeset [Store σ] (next : Snapshot) (time : Time.Instant) : Run σ Unit := do
  let s ← get
  let userId := next.user.elim anonymousUserId (·.id)
  let (_, evicted, ledger) ← onStore (s.ledger.ensure next.changesetId userId time)
  modify fun s => { s with ledger }
  if let some id := evicted then emit (.evicted id)

def touch (id : Int64) : Run σ Unit := modify fun s => { s with ledger := s.ledger.touch id }

/-- The conflict of a change, counted and handed to the policy. -/
def judge (policy : Policy) (action : Action) (previous : Option Snapshot) (next : Snapshot) :
    Run σ (Option InvalidAction) := do
  match invalid? action previous next with
  | none => return none
  | some i =>
    count fun n => { n with invalid := n.invalid + 1 }
    if policy = .log then emit (.invalidAction i)
    match policy.handle i with
    | .ok () => return some i
    | .error f => throw f

def record [Store σ] (options : Options) (action : Action) (previous : Option Snapshot)
    (next : Snapshot) (invalid : Option InvalidAction) : Run σ Outcome := do
  let r := ChangeRecord.build action previous next
  onStore (Store.persist r)
  if options.applyState then
    -- Only a deletion leaves nothing but a tombstone; other versions are stored as they came.
    onStore (Store.save (if action = .delete then next.tombstone else next))
  count fun n => { n with processed := n.processed + 1 }
  return .recorded r invalid

/-- The stored version, if it is no older than the new one. -/
def applied? (previous : Option Snapshot) (next : Snapshot) : Option Int64 :=
  (previous.filter fun p => next.version ≤ p.version).map (·.version)

def processChecked [Store σ] (options : Options) (action : Action) (next : Snapshot)
    (time : Time.Instant) : Run σ Outcome := do
  ensureAuthor next.user
  ensureChangeset next time
  -- The changeset is touched whatever becomes of the change, also if it is passed over.
  touch next.changesetId
  let previous ← onStore (Store.lookup next.key)
  match if options.skipApplied then applied? previous next else none with
  | some stored =>
    count fun n => { n with skipped := n.skipped + 1 }
    emit (.alreadyApplied next.label next.version stored)
    return .skipped next.key next.version stored
  | none =>
    let invalid ← judge options.policy action previous next
    record options action previous next invalid

/-- A failure told with the run, and with the entity and the changeset of the change unless it
names them itself. -/
def inContext (runId : RunId) (next : Snapshot) (f : Failure) : Failure :=
  { f with
    entity := f.entity <|> some next.key
    changesetId := f.changesetId <|> some next.changesetId
    runId := some runId }

def mapFailure (g : Failure → Failure) (run : Run σ α) : Run σ α := fun s =>
  match run s with
  | .ok a s => .ok a s
  | .error f s => .error (g f) s

def process [Store σ] (plan : Plan) (action : Action) (next : Snapshot) : Run σ Outcome :=
  mapFailure (inContext plan.runId next) do
    match check next with
    | .error f => throw f
    | .ok time => processChecked plan.options action next time

def finalize [Store σ] (plan : Plan) : Run σ RunReport :=
  mapFailure (·.withRun plan.runId) do
    let s ← get
    let (changesets, ledger) ← onStore s.ledger.finalize
    modify fun s => { s with ledger }
    return { runId := plan.runId, stats := s.stats, changesets }

def all [Store σ] (plan : Plan) (changes : List (Action × Snapshot)) : Run σ RunReport := do
  changes.forM fun (action, next) => do
    let _ ← process plan action next
  finalize plan

end Run

end MapAudit
