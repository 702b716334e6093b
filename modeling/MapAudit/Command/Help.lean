namespace MapAudit

inductive Topic where
  | program
  | create
  | apply
  | changeset
  | showChangeset
  /-- The command `help` itself, below the program or below `changeset`. -/
  | programHelp
  | changesetHelp
  deriving DecidableEq, Repr

/-- A page of help. A row is a label and what is said of it. -/
structure HelpPage where
  about : String
  usage : String
  commands : List (String × String) := []
  arguments : List (String × String) := []
  options : List (String × String) := []
  deriving DecidableEq, Repr

namespace HelpPage

/-- A row whose text begins two places after the longest label. -/
def row (width : Nat) (r : String × String) : String :=
  "  " ++ r.1 ++ String.ofList (List.replicate (width + 2 - r.1.length) ' ') ++ r.2

def lines (title : String) (rows : List (String × String)) : List String :=
  let width := rows.foldl (fun n r => max n r.1.length) 0
  if rows.isEmpty then [] else "" :: title :: rows.map (row width)

def toLines (p : HelpPage) : List String :=
  [p.about, "", s!"Usage: geodiff {p.usage}"] ++ lines "Commands:" p.commands ++
    lines "Arguments:" p.arguments ++ lines "Options:" p.options

end HelpPage

namespace Topic

def below? : Topic → String → Option Topic
  | program, "init" => some create
  | program, "apply" => some apply
  | program, "changeset" => some changeset
  | program, "help" => some programHelp
  | changeset, "show" => some showChangeset
  | changeset, "help" => some changesetHelp
  | _, _ => none

def databaseRow : String × String := ("    --db <DB>", "[default: .geodiff/changes.db]")

def profileRow : String × String :=
  ("    --log-profile <LOG_PROFILE>", "Logging profile: dev, prod (JSON) or test [default: dev]")

def helpRow : String × String := ("-h, --help", "Print help")

def helpCommandRow : String × String :=
  ("help", "Print this message or the help of the given subcommand(s)")

def topicRow : String × String := ("[COMMAND]...", "Print help for the subcommand(s)")

def page : Topic → HelpPage
  | program =>
    { about := "geodiff - Change audit log for versioned geographic entities"
      usage := "[OPTIONS] <COMMAND>"
      commands :=
        [("init", "Create or migrate a database"), ("apply", "Apply a JSON-lines change stream"),
          ("changeset", "Changeset operations"), helpCommandRow]
      options := [profileRow, helpRow] }
  | create =>
    { about := "Create or migrate a database"
      usage := "init [OPTIONS]"
      options := [databaseRow, profileRow, helpRow] }
  | apply =>
    { about := "Apply a JSON-lines change stream"
      usage := "apply [OPTIONS]"
      options :=
        [databaseRow, profileRow,
          ("    --input <INPUT>", "JSON-lines change stream; `-` reads stdin [default: -]"),
          ("    --config <CONFIG>", "TOML writer configuration"),
          ("    --invalid-actions <INVALID_ACTIONS>",
            "ignore, log or break (overrides the config file)"),
          ("    --cache-capacity <CACHE_CAPACITY>", ""),
          ("    --skip-applied", "Skip changes whose version is already stored"),
          ("    --no-entity-state", "Record audit rows only, leave current entity state alone"),
          ("    --dry-run", ""), ("    --json", "Print the run summary as JSON"), helpRow] }
  | changeset =>
    { about := "Changeset operations"
      usage := "changeset [OPTIONS] <COMMAND>"
      commands := [("show", "Show a changeset and its changes"), helpCommandRow]
      options := [profileRow, helpRow] }
  | showChangeset =>
    { about := "Show a changeset and its changes"
      usage := "changeset show [OPTIONS] <ID>"
      arguments := [("<ID>", "")]
      options := [databaseRow, profileRow, ("    --json", ""), helpRow] }
  | programHelp =>
    { about := helpCommandRow.2, usage := "help [COMMAND]...", arguments := [topicRow] }
  | changesetHelp =>
    { about := helpCommandRow.2, usage := "changeset help [COMMAND]...", arguments := [topicRow] }

end Topic

end MapAudit
