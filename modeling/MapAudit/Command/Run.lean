import MapAudit.Command.Basic
import MapAudit.Command.Storage
import MapAudit.Report
import MapAudit.Run.Apply
import MapAudit.Settings

namespace MapAudit

inductive CommandError where
  | failure (f : Failure)
  | refused (r : Refusal)
  | file (e : FileError)
  | noChangeset (id : Int64)
  deriving DecidableEq, Repr

def CommandError.message : CommandError → String
  | failure f => f.text
  | refused r => r.message
  | file e => e.message
  | noChangeset id => s!"Changeset {id} not found"

inductive Answer where
  | help (topic : Topic)
  | created (database : String) (migrations : Nat)
  | applied (report : RunReport) (dryRun json : Bool)
  | changeset (report : ChangesetReport) (json : Bool)

def Answer.lines (durationMs : Nat) : Answer → List String
  | help topic => topic.page.toLines
  | created database n => [s!"Initialized {database} ({n} migrations applied)"]
  | applied report dryRun json =>
    let summary : RunSummary := { report, dryRun, durationMs }
    if json then [summary.toJson.pretty] else summary.lines
  | changeset report json => if json then [report.toJson.pretty] else report.lines

/-- A command at work on a workspace; what it has written stays when it fails. -/
abbrev Work (α : Type) := EStateM CommandError Workspace α

namespace Work

def lift (r : Except Failure α) : Work α :=
  match r with
  | .ok a => pure a
  | .error f => throw (.failure f)

def withDatabase (name : String) (use : OpenDatabase → Work α) : Work α := do
  match Location.ofName? name.toUTF8.toList with
  | none => throw (.failure cannotOpen)
  | some l =>
    match l.path with
    | none => do
      let o : OpenDatabase := { frozen := l.isFrozen }
      use (← EStateM.adaptExcept .failure o.migrate)
    | some path =>
      OpenFile.use .failure l path fun f stored => do
        let o := OpenDatabase.ofFile f stored (← get)
        use (← EStateM.adaptExcept .failure o.migrate)

def create (name : String) : Work Answer := do
  EStateM.adaptExcept .file (Workspace.makeAbove name.toUTF8.toList)
  withDatabase name fun o => do
    let applied ← lift o.database.appliedMigrations
    return .created name applied.length

/-- The options in a file of settings. -/
def settings (name : String) : Filing Options := fun w =>
  match Workspace.read name.toUTF8.toList w with
  | .ok content w =>
    match Options.ofBytes content with
    | .ok options => .ok options w
    | .error f => .error f w
  | .error e w => .error (.inputOutput "load_config" e.message) w

/-- The options of a run: those of the command line, then those of the file, then the default
ones. -/
def options (a : ApplyArguments) : Work Options := do
  let base ←
    match a.settings with
    | none => pure {}
    | some name => EStateM.adaptExcept .failure (settings name)
  let policy ←
    match a.policy with
    | none => pure base.policy
    | some s =>
      match Policy.parse s with
      | .ok p => pure p
      | .error r => throw (.refused r)
  return {
    policy := policy
    windowCapacity := a.windowCapacity.getD base.windowCapacity
    -- A flag counts if either side gives it, and the other side cannot take it back.
    skipApplied := base.skipApplied || a.skipApplied
    applyState := base.applyState && !a.noEntityState }

/-- What the input gives. A directory can be opened but not read. -/
def input (a : ApplyArguments) : Work (List Stream.Item) := do
  if a.input = "-" then return Stream.items (← Workspace.readInput)
  try
    return Stream.items (← EStateM.adaptExcept .file (Workspace.read a.input.toUTF8.toList))
  catch
    | .file .isADirectory =>
      return [.error (.inputOutput "read_changes" FileError.isADirectory.message)]
    | e => throw e

def applyTo (o : OpenDatabase) (plan : Plan) (dryRun : Bool) (items : List Stream.Item) :
    Work RunReport := do
  if o.frozen then lift (plan.apply (FrozenDatabase.mk o.database) dryRun items).result
  else
    let application := plan.apply o.database dryRun items
    EStateM.adaptExcept .failure (o.update application.store)
    lift application.result

def apply (a : ApplyArguments) (runId : RunId) : Work Answer := do
  let options ← options a
  withDatabase a.database fun o => do
    let items ← input a
    let report ← applyTo o { options, runId } a.dryRun items
    return .applied report a.dryRun a.json

def showChangeset (id : Int64) (name : String) (json : Bool) : Work Answer :=
  withDatabase name fun o => do
    match ← lift (o.database.report? id) with
    | some report => return .changeset report json
    | none => throw (.noChangeset id)

end Work

def Command.run (c : Command) (runId : RunId) : Work Answer :=
  match c with
  | .create database => Work.create database
  | .apply a => Work.apply a runId
  | .showChangeset id database json => Work.showChangeset id database json

namespace Command

def placesOf (base : Place) (path : Stream.Bytes) : List Place :=
  Path.trail (Path.start base path) (Path.moves path)

/-- The places that the name of a database leads to: its file, with all that may stand beside it,
the file that lends its permissions, and the name itself, which may ask for directories. -/
def databasePlaces (base : Place) (name : String) : List Place :=
  let name := name.toUTF8.toList
  let location := Location.ofName? name
  let files := (location.bind (·.path)).toList
  let models := (location.bind (·.model)).toList
  (name :: files ++ models).flatMap (placesOf base) ++
    files.flatMap fun path => Companion.all.map (·.place (Path.place base path))

def places (base : Place) : Command → List Place
  | .create database | .showChangeset _ database _ => databasePlaces base database
  | .apply a =>
    databasePlaces base a.database ++
      (a.input :: a.settings.toList).flatMap (placesOf base ·.toUTF8.toList)

end Command

/-- What the program leaves behind: its exit code, what it tells, and the files. -/
structure Exit where
  code : Nat
  answer : Option Answer := none
  complaint : List String := []
  workspace : Workspace

def complaint (e : CommandError) : String := s!"Error: {e.message}"

def Command.execute (args : List String) (runId : RunId) (w : Workspace) : Exit :=
  match ofArguments args with
  | .error (.help topic) => { code := 0, answer := some (.help topic), workspace := w }
  | .error .misuse => { code := 2, complaint := Topic.program.page.toLines, workspace := w }
  | .ok inv =>
    match Profile.parse inv.profile with
    | .error f => { code := 2, complaint := [complaint (.failure f)], workspace := w }
    | .ok _ =>
      match inv.command.run runId w with
      | .ok answer w => { code := 0, answer := some answer, workspace := w }
      | .error e w => { code := 1, complaint := [complaint e], workspace := w }

namespace Exit

def output (e : Exit) (durationMs : Nat) : List String := e.answer.elim [] (·.lines durationMs)

end Exit

end MapAudit
