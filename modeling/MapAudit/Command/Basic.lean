import MapAudit.Command.Arguments
import MapAudit.Profile

namespace MapAudit

/-- The options of a run as the command line gives them; they come before those of a file. -/
structure ApplyArguments where
  database : String
  /-- The file of the stream; a dash stands for standard input. -/
  input : String
  settings : Option String := none
  policy : Option String := none
  windowCapacity : Option Nat := none
  skipApplied : Bool := false
  noEntityState : Bool := false
  dryRun : Bool := false
  json : Bool := false
  deriving DecidableEq, Repr

inductive Command where
  | create (database : String)
  | apply (a : ApplyArguments)
  | showChangeset (id : Int64) (database : String) (json : Bool)
  deriving DecidableEq, Repr

structure Invocation where
  profile : String
  command : Command
  deriving DecidableEq, Repr

namespace Command
open Arguments

def defaultDatabase : String := ".geodiff/changes.db"

def profileOption : String := "log-profile"

def rootGrammar : Grammar where
  topic := .program
  valued := [profileOption]
  subcommands := ["init", "apply", "changeset"]

def createGrammar : Grammar where
  topic := .create
  valued := [profileOption, "db"]

def applyGrammar : Grammar where
  topic := .apply
  valued := [profileOption, "db", "input", "config", "invalid-actions", "cache-capacity"]
  flags := ["skip-applied", "no-entity-state", "dry-run", "json"]
  takes name value := name ≠ "cache-capacity" || (nat64? value).isSome

def changesetGrammar : Grammar where
  topic := .changeset
  valued := [profileOption]
  subcommands := ["show"]

def showGrammar : Grammar where
  topic := .showChangeset
  valued := [profileOption, "db"]
  flags := ["json"]
  positional := 1
  admits value := (int64? value).isSome

def database (g : Given) : String := (g.value? "db").getD defaultDatabase

def toApply (g : Given) : Command :=
  .apply {
    database := database g
    input := (g.value? "input").getD "-"
    settings := g.value? "config"
    policy := g.value? "invalid-actions"
    windowCapacity := (g.value? "cache-capacity").bind nat64?
    skipApplied := g.hasFlag "skip-applied"
    noEntityState := g.hasFlag "no-entity-state"
    dryRun := g.hasFlag "dry-run"
    json := g.hasFlag "json" }

def toShow (g : Given) : Except Stop Command :=
  match g.positional.map int64? with
  | [some id] => .ok (.showChangeset id (database g) (g.hasFlag "json"))
  | _ => .error .misuse

/-- The given profile, where the innermost one counts. -/
def profileOf (levels : List Given) : String :=
  (levels.findSome? (·.value? profileOption)).getD "dev"

def ofArguments (args : List String) : Except Stop Invocation := do
  let root ← scan rootGrammar {} args
  match root.subcommand with
  | some ("init", rest) =>
    let g ← scan createGrammar {} rest
    return ⟨profileOf [g, root], .create (database g)⟩
  | some ("apply", rest) =>
    let g ← scan applyGrammar {} rest
    return ⟨profileOf [g, root], toApply g⟩
  | some (_, rest) =>
    let group ← scan changesetGrammar {} rest
    match group.subcommand with
    | some (_, rest) =>
      let g ← scan showGrammar {} rest
      return ⟨profileOf [g, group, root], ← toShow g⟩
    | none => throw .misuse
  | none => throw .misuse

/-- Whether standard input is read without a path. -/
def readsInput : Command → Bool
  | .apply a => a.input == "-"
  | _ => false

end Command

end MapAudit
