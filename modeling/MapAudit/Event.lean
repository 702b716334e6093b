import MapAudit.Failure

namespace MapAudit

inductive Level where
  | trace
  | debug
  | info
  | warn
  | error
  deriving DecidableEq, Repr

def Level.name : Level → String
  | trace => "TRACE"
  | debug => "DEBUG"
  | info => "INFO"
  | warn => "WARN"
  | error => "ERROR"

/-- An event with its fields as text. Absent values have no field. -/
structure Event where
  level : Level
  component : Option String := none
  operation : Option String := none
  name : Option String := none
  fields : List (String × String) := []
  deriving DecidableEq, Repr

namespace Event

def optional (key : String) (value : Option String) : List (String × String) :=
  value.elim [] fun v => [(key, v)]

def started (component operation : String) (run : Option RunId) (fields : List (String × String)) :
    Event where
  level := .info
  component := component
  operation := operation
  name := "start"
  fields := optional "run_id" (run.map (·.text)) ++ fields

def ended (component operation : String) (durationMs : Nat) (run : Option RunId)
    (fields : List (String × String)) : Event where
  level := .info
  component := component
  operation := operation
  name := "end"
  fields := ("duration_ms", toString durationMs) :: optional "run_id" (run.map (·.text)) ++ fields

/-- An operation fails. The failure itself tells the run, the entity and the changeset. -/
def failed (component operation : String) (durationMs : Nat) (f : Failure) : Event where
  level := .error
  component := component
  operation := operation
  name := "end_error"
  fields :=
    [("duration_ms", toString durationMs), ("err.kind", f.kind.name), ("err.code", f.kind.code),
      ("err.message", f.message)] ++ optional "run_id" (f.runId.map (·.text)) ++
      optional "entity_type" (f.entity.map (·.kind.name)) ++
      optional "entity_id" (f.entity.map fun k => toString k.id) ++
      optional "changeset_id" (f.changesetId.map toString)

def invalidAction (i : InvalidAction) : Event where
  level := .warn
  component := "geodiff_core::policy"
  name := "invalid_action"
  fields :=
    [("entity_type", i.key.kind.name), ("entity_id", toString i.key.id), ("action", i.action.name),
      ("message", (Refusal.invalidAction i).message)]

def alreadyApplied (label : String) (version stored : Int64) : Event where
  level := .debug
  fields :=
    [("entity", label), ("version", toString version), ("stored_version", toString stored),
      ("message", "change already applied, skipping")]

def evicted (id : Int64) : Event where
  level := .trace
  fields := [("evicted", toString id), ("message", "changeset cache full, evicted oldest id")]

def migrated (id : String) : Event where
  level := .debug
  fields := [("migration_id", id), ("message", "applied migration")]

/-- The value of a field; component, operation and name of the event are fields too. -/
def field? (e : Event) (key : String) : Option String :=
  match key with
  | "component" => e.component
  | "op" => e.operation
  | "event" => e.name
  | _ => e.fields.lookup key

end Event

/-- Events as they were captured, the first one first. -/
abbrev Capture := List Event

namespace Capture

def withField (c : Capture) (key value : String) : List Event :=
  c.filter fun e => e.field? key == some value

def ofRun (c : Capture) (run : String) : List Event := c.withField "run_id" run

def count (c : Capture) (p : Event → Bool) : Nat := c.countP p

/-- Complains unless an event has both the operation and the name. -/
def expect (c : Capture) (operation name : String) : Except String Unit :=
  if c.any fun e => e.operation == some operation && e.name == some name then .ok ()
  else
    .error s!"Expected event op={operation} event={name} not found in {c.length} captured events"

end Capture

end MapAudit
