import MapAudit.Command.Path

namespace MapAudit
open MapAudit.Stream (Bytes)

inductive Entry where
  | directory
  | file (content : Bytes)
  /-- What gives the same bytes to every reader, and keeps none. -/
  | device (content : Bytes)
  | input

inductive FileError where
  | notFound
  | alreadyThere
  | notADirectory
  | isADirectory
  | nameTooLong
  deriving DecidableEq, Repr

/-- The text of the system for an error, with its number. -/
def FileError.message : FileError → String
  | notFound => "No such file or directory (os error 2)"
  | alreadyThere => "File exists (os error 17)"
  | notADirectory => "Not a directory (os error 20)"
  | isADirectory => "Is a directory (os error 21)"
  | nameTooLong => "File name too long (os error 36)"

structure Workspace where
  /-- The directory that a command starts in. It and those above it are always there. -/
  base : Place := []
  /-- What stands at other places, the latest first. -/
  entries : List (Place × Entry) := []
  /-- What nobody has read yet of standard input. -/
  input : Bytes := []

namespace Workspace
open MapAudit.Path (Move moves movesAbove slash start trail place)

def nameLimit : Nat := 255

def pathLimit : Nat := 4095

def find? (w : Workspace) (p : Place) : Option Entry :=
  if p.isSuffixOf w.base then some .directory else w.entries.lookup p

def put (w : Workspace) (p : Place) (e : Entry) : Workspace :=
  { w with entries := (p, e) :: w.entries.filter (·.1 ≠ p) }

def remove (w : Workspace) (p : Place) : Workspace :=
  { w with entries := w.entries.filter (·.1 ≠ p) }

def isDirectory (w : Workspace) (p : Place) : Bool :=
  match w.find? p with
  | some .directory => true
  | _ => false

/-- Where a move leads from a place, which has to be a directory. -/
def move (w : Workspace) (p : Place) (m : Move) : Except FileError Place :=
  match w.find? p, m with
  | none, _ => .error .notFound
  | some .directory, .down name =>
    if nameLimit < name.length then .error .nameTooLong else .ok (name :: p)
  | some .directory, m => .ok (m.apply p)
  | some _, _ => .error .notADirectory

/-- Where moves lead, the last of which comes first. -/
def reach (w : Workspace) (start : Place) : List Move → Except FileError Place
  | [] => .ok start
  | m :: ms => do w.move (← w.reach start ms) m

def look (w : Workspace) (p : Place) : Except FileError Entry := do
  let _ ← w.reach [] (p.map Move.down)
  (w.find? p).elim (.error .notFound) .ok

def follow (w : Workspace) (path : Bytes) : Except FileError Entry := do
  if path.isEmpty then throw .notFound
  if pathLimit < path.length then throw .nameTooLong
  let p ← w.reach (start w.base path) (moves path).reverse
  (w.find? p).elim (.error .notFound) .ok

/-- Whether standard input stands somewhere. -/
def namesInput (w : Workspace) : Bool :=
  w.entries.any fun (_, e) =>
    match e with
    | .input => true
    | _ => false

def readInput : EStateM ε Workspace Bytes := modifyGet fun w => (w.input, { w with input := [] })

def read (path : Bytes) : EStateM FileError Workspace Bytes := do
  match (← get).follow path with
  | .ok (.file content) | .ok (.device content) => return content
  | .ok .input => readInput
  | .ok .directory => throw .isADirectory
  | .error e => throw e

/-- Makes a directory where moves lead, the last of which comes first. -/
def makeDirectory (start : Place) (ms : List Move) : EStateM FileError Workspace Unit := fun w =>
  match w.reach start ms with
  | .error e => .error e w
  | .ok p => if (w.find? p).isSome then .error .alreadyThere w else .ok () (w.put p .directory)

/-- Makes a directory; one that is there will do. -/
def ensureDirectory (start : Place) (ms : List Move) : EStateM FileError Workspace Unit := fun w =>
  match makeDirectory start ms w with
  | .ok () w => .ok () w
  | .error e w =>
    match w.reach start ms with
    | .ok p => if w.isDirectory p then .ok () w else .error e w
    | .error _ => .error e w

def makeAll (start : Place) : List Move → EStateM FileError Workspace Unit
  | [] => pure ()
  | m :: ms => fun w =>
    match ensureDirectory start (m :: ms) w with
    | .error .notFound w => (do makeAll start ms; ensureDirectory start (m :: ms)) w
    | r => r

def makeAbove (path : Bytes) : EStateM FileError Workspace Unit := do
  let above := (Stream.parts slash path).dropLast
  if pathLimit < Path.size above - 1 then throw .nameTooLong
  makeAll (start (← get).base path) (movesAbove path).reverse

def ofFiles (base : Place) (files : List (Bytes × Bytes)) : Workspace :=
  files.foldl
    (fun w (path, content) =>
      let above := (trail (start base path) (moves path)).dropLast
      (above.foldl (fun w p => w.put p .directory) w).put (place base path) (.file content))
    { base }

end Workspace

end MapAudit
