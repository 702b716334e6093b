import MapAudit.Command.Run

open MapAudit

def inputPaths : List String := ["/dev/stdin", "/dev/fd/0", "/proc/self/fd/0"]

def findEntry (path : String) : IO (Option Entry) := do
  if inputPaths.contains path then return some .input
  try
    let content ← IO.FS.readBinFile path
    match (← ((← IO.currentDir) / path).metadata).type with
    | .file => return some (.file content.toList)
    | _ => return some (.device content.toList)
  catch e =>
    match e with
    | .inappropriateType .. => return some .directory
    | _ => return none

def loadEntry (w : Workspace) (p : Place) : IO Workspace := do
  if (w.find? p).isSome then return w
  match p.text? with
  | none => return w
  | some path =>
    match ← findEntry path with
    | some e => return w.put p e
    | none => return w

def loadWorkspace (base : Place) (c : Command) : IO Workspace := do
  let w ← (c.places base).foldlM loadEntry { base }
  if c.readsInput || w.namesInput then
    let input ← (← IO.getStdin).readBinToEnd
    return { w with input := input.toList }
  else return w

/-- Writes what was not there or was different before. -/
def storeEntry (old : Workspace) (p : Place) (e : Entry) : IO Unit := do
  match p.text?, e, old.find? p with
  | some path, .directory, none => IO.FS.createDirAll path
  | some path, .file content, some (.file before) =>
    if content = before then return else IO.FS.writeBinFile path ⟨content.toArray⟩
  | some path, .file content, _ => IO.FS.writeBinFile path ⟨content.toArray⟩
  | _, _, _ => return

/-- Takes away what is not there any more. -/
def clearEntry (new : Workspace) (p : Place) : IO Unit := do
  match p.text?, new.find? p with
  | some path, none => IO.FS.removeFile path
  | _, _ => return

def main (args : List String) : IO UInt32 := do
  let start ← IO.monoMsNow
  let command := (Command.ofArguments args).toOption.map (·.command)
  let base := Path.place [] (toString (← IO.currentDir)).toUTF8.toList
  let workspace ← command.elim (pure { base }) (loadWorkspace base)
  let runId := RunId.ofParts start (← IO.rand 0 (Nat.pow 2 74 - 1))
  let result := Command.execute args runId workspace
  -- The oldest entries come first, so that directories are there before what is in them.
  for (p, e) in result.workspace.entries.reverse do
    storeEntry workspace p e
  for (p, _) in workspace.entries do
    clearEntry result.workspace p
  for line in result.output ((← IO.monoMsNow) - start) do
    IO.println line
  for line in result.complaint do
    IO.eprintln line
  return UInt32.ofNat result.code
