import MapAudit.Change.Conflict
import MapAudit.Text.Basic

namespace MapAudit

structure RunId where
  text : String
  deriving DecidableEq, Repr

namespace RunId
open Text

/-- A time-ordered id of 128 bits: 48 bits of milliseconds, the version 7, and random bits. -/
def ofParts (millis random : Nat) : RunId :=
  let a := hex 8 (millis / Nat.pow 2 16)
  let b := hex 4 millis
  let c := '7' :: hex 3 random
  let d := Nat.digitChar (8 + random / Nat.pow 2 12 % 4) :: hex 3 (random / Nat.pow 2 14)
  let e := hex 12 (random / Nat.pow 2 26)
  ⟨String.ofList (a ++ '-' :: b ++ '-' :: c ++ '-' :: d ++ '-' :: e)⟩

end RunId

inductive FailureKind where
  | invalidInput
  | missingField
  | invalidAction
  | notFound
  | alreadyExists
  | io
  | serialization
  | persistence
  | constraintViolation
  | internal
  deriving DecidableEq, Repr

namespace FailureKind

def all : List FailureKind :=
  [invalidInput, missingField, invalidAction, notFound, alreadyExists, io, serialization,
    persistence, constraintViolation, internal]

def name : FailureKind → String
  | invalidInput => "InvalidInput"
  | missingField => "MissingField"
  | invalidAction => "InvalidAction"
  | notFound => "NotFound"
  | alreadyExists => "AlreadyExists"
  | io => "Io"
  | serialization => "Serialization"
  | persistence => "Persistence"
  | constraintViolation => "ConstraintViolation"
  | internal => "Internal"

def code : FailureKind → String
  | invalidInput => "ERR_INVALID_INPUT"
  | missingField => "ERR_MISSING_FIELD"
  | invalidAction => "ERR_INVALID_ACTION"
  | notFound => "ERR_NOT_FOUND"
  | alreadyExists => "ERR_ALREADY_EXISTS"
  | io => "ERR_IO"
  | serialization => "ERR_SERIALIZATION"
  | persistence => "ERR_PERSISTENCE"
  | constraintViolation => "ERR_CONSTRAINT_VIOLATION"
  | internal => "ERR_INTERNAL"

end FailureKind

/-- What is known of one failure. -/
structure Fault where
  kind : FailureKind
  operation : Option String := none
  message : String := ""
  entity : Option EntityKey := none
  changesetId : Option Int64 := none
  runId : Option RunId := none
  deriving DecidableEq, Repr

/-- A failure and the chain of failures that led to it, the nearest first. -/
structure Failure extends Fault where
  causes : List Fault := []
  deriving DecidableEq, Repr

namespace Fault

def text (f : Fault) : String :=
  let operation := f.operation.elim "" fun o => s!" in operation '{o}'"
  let message := if f.message.isEmpty then "" else s!": {f.message}"
  let entity := f.entity.elim "" fun k => s!" (entity: {k.kind.name} {k.id})"
  let changeset := f.changesetId.elim "" fun c => s!" (changeset_id: {c})"
  s!"[{f.kind.code}]{operation}{message}{entity}{changeset}"

end Fault

namespace Failure

def text (f : Failure) : String :=
  " caused by ".intercalate (f.toFault.text :: f.causes.map Fault.text)

def source? (f : Failure) : Option Failure :=
  match f.causes with
  | [] => none
  | c :: cs => some { toFault := c, causes := cs }

def withEntity (f : Failure) (key : EntityKey) : Failure := { f with entity := some key }

def withChangeset (f : Failure) (id : Int64) : Failure := { f with changesetId := some id }

def withRun (f : Failure) (id : RunId) : Failure := { f with runId := some id }

end Failure

inductive Refusal where
  | missingTimestamp (key : EntityKey)
  | invalidVersion (key : EntityKey) (version : Int64)
  | invalidAction (i : InvalidAction)
  | unknownAction (name : String)
  | unknownKind (name : String)
  | unknownPolicy (name : String)
  deriving DecidableEq, Repr

namespace Refusal

def message : Refusal → String
  | missingTimestamp k => s!"Entity({k.kind.name}) {k.id} does not have a timestamp set."
  | invalidVersion k v =>
    s!"Entity({k.kind.name}) {k.id} has invalid version {v}; versions start at 1."
  | invalidAction i => s!"Invalid action: {i.text}"
  | unknownAction s => s!"The action {s} is unrecognized."
  | unknownKind s => s!"Unknown entity type: {s}"
  | unknownPolicy s => s!"Unknown invalid actions mode: {s} (expected ignore, log or break)"

def toFailure (r : Refusal) : Failure :=
  match r with
  | missingTimestamp k =>
    { kind := .missingField, operation := "process_change", message := r.message, entity := k }
  | invalidVersion k _ =>
    { kind := .invalidInput, operation := "process_change", message := r.message, entity := k }
  | invalidAction i =>
    { kind := .invalidAction
      operation := "validate_action"
      message := r.message
      entity := i.key }
  | unknownAction _ | unknownKind _ | unknownPolicy _ =>
    { kind := .invalidInput, message := r.message }

end Refusal

def Action.parse (s : String) : Except Refusal Action :=
  (Action.ofName? s).elim (.error (.unknownAction s)) .ok

def EntityKind.parse (s : String) : Except Refusal EntityKind :=
  (EntityKind.ofName? s).elim (.error (.unknownKind s)) .ok

def EntityKind.parseCode (s : String) : Except Refusal EntityKind :=
  (EntityKind.ofCode? s).elim (.error (.unknownKind s)) .ok

namespace Failure

/-- A stored row that maps to no value of the domain. -/
def corruptRow (table reason : String) : Failure :=
  { kind := .internal, operation := "hydrate", message := s!"corrupt row in {table}: {reason}" }

/-- A stored text that is not the encoding of a value. -/
def column (name reason : String) : Failure :=
  { kind := .serialization, operation := "json_column", message := s!"column {name}: {reason}" }

def inputOutput (operation reason : String) : Failure :=
  { kind := .io, operation := operation, message := reason }

def migration (id reason : String) : Failure :=
  { kind := .persistence, operation := "migration", message := s!"Migration {id} failed: {reason}" }

def checksumMismatch (id expected actual : String) : Failure :=
  { kind := .constraintViolation
    operation := "migration_checksum"
    message := s!"Checksum mismatch for migration {id}: expected {expected}, got {actual}" }

def statement (reason : String) : Failure :=
  { kind := .persistence, operation := "sqlite", message := reason }

def constraint (reason : String) : Failure :=
  { kind := .constraintViolation, operation := "sqlite", message := reason }

def brokenReference : Failure := constraint "FOREIGN KEY constraint failed"

end Failure

end MapAudit
