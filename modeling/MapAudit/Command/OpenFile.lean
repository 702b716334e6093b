import MapAudit.Command.Companion
import MapAudit.Database.File
import MapAudit.Database.Frozen
import MapAudit.Database.Location

namespace MapAudit
open MapAudit.Stream (Bytes)

abbrev Filing (α : Type) := EStateM Failure Workspace α

/-- How the index of an open log is kept. -/
inductive LogIndex where
  | beside
  | frozen
  | inMemory
  deriving DecidableEq, Repr

structure OpenFile where
  location : Location
  place : Place
  /-- The index of its log, if there is a log. -/
  log : Option LogIndex := none

def cannotOpen : Failure := .statement "unable to open database file"

def notADatabase : Failure := .statement "file is not a database"

namespace OpenFile
open MapAudit.Path (Move moves start)

/-- The greatest number of bytes that may spell a place on the way to a file. -/
def wayLimit : Nat := 510

/-- The greatest number of bytes that may spell the place of a file; the names of the files that are
kept beside it for a while are longer. -/
def placeLimit : Nat := 504

/-- Where a move leads. What is missing may be passed, but nothing is looked for in a file. -/
def pass (w : Workspace) (p : Place) (m : Move) : Option Place :=
  let q := m.apply p
  match m with
  | .stay | .up => some q
  | .down _ =>
    if wayLimit < q.size then none
    else
      match w.look q with
      | .ok _ | .error .notFound => some q
      | .error _ => none

/-- The place of the file that a path names. -/
def locate? (w : Workspace) (path : Bytes) : Option Place := do
  let begins := (start w.base path).reverse.map Move.down
  let p ← (begins ++ moves path).foldlM (pass w) []
  if p = [] ∨ placeLimit < p.size then none else some p

def content (p : Place) (access : Access) : Filing Bytes := do
  let w ← get
  match w.look p with
  | .ok (.file content) => return content
  | .error .notFound =>
    if access = .create ∧ w.isDirectory p.tail then
      set (w.put p (.file []))
      return []
    else throw cannotOpen
  | _ => throw cannotOpen

def checkLock (l : Location) (p : Place) : Filing Unit := do
  if l.system = .lockedBeside ∧ !l.unlocked then
    if (Companion.lock.find? (← get) p).isSome || !Companion.lock.fits p then
      throw (.statement "database is locked")

/-- Whether the file seems to be written by someone else, for which a lock beside it is enough, even
one of our own. -/
def seemsBusy (l : Location) (w : Workspace) (p : Place) : Bool :=
  l.system == .lockedBeside && (!l.unlocked || (Companion.lock.find? w p).isSome)

/-- Whether the journal of an empty file may be taken away. -/
def mayClear (l : Location) : Bool := l.access != .read || l.unlocked || !l.system.hasLogs

/-- Uses up the journal of someone who did not finish writing the file. It has nothing to tell that
could be used, for an empty file least of all, and none if it begins with a zero. -/
def useJournal (l : Location) (p : Place) (isEmpty : Bool) : Filing Unit := do
  let w ← get
  if seemsBusy l w p then return
  match Companion.journal.noticed? w p, isEmpty with
  | none, _ => return
  | some (.file _), true => if mayClear l then set (w.remove (Companion.journal.place p))
  | some _, true => return
  | some (.file (b :: _)), false =>
    if b = 0 then return
    else if l.access = .read then throw cannotOpen
    else set (w.remove (Companion.journal.place p))
  | some _, false => throw cannotOpen

def makeLog (p : Place) : Filing Bytes := do
  let w ← get
  match Companion.log.find? w p with
  | some (.file content) => return content
  | none =>
    if Companion.log.fits p then
      set (w.put (Companion.log.place p) (.file []))
      return []
    else throw cannotOpen
  | some _ => throw cannotOpen

/-- Whether a log can be read without an index: it is too short to tell of anything. -/
def isBlank (log : Bytes) : Bool := log.length < 32 || ((log.drop 16).take 8).all (· = 0)

def openLog (l : Location) (p : Place) : Filing LogIndex := do
  let log ← makeLog p
  if l.system = .exclusive ∧ l.access ≠ .read then return .inMemory
  let w ← get
  match Companion.index.find? w p, l.readOnlyIndex with
  | none, false | some (.file _), false =>
    set (w.put (Companion.index.place p) (.file indexMark))
    return .beside
  | none, true => throw cannotOpen
  | some _, _ => if isBlank log then return .frozen else throw cannotOpen

/-- Uses the log that stands beside a file; that of an empty file is taken away. -/
def useLog (l : Location) (p : Place) (isEmpty : Bool) : Filing (Option LogIndex) := do
  let w ← get
  match Companion.log.noticed? w p with
  | none => return none
  | some (.file _) =>
    if isEmpty then
      set (w.remove (Companion.log.place p))
      return none
    else if l.keepsLog then return some (← openLog l p)
    else throw cannotOpen
  | some _ => throw cannotOpen

def ofPath (l : Location) (path : Bytes) : Filing OpenFile := do
  let some p := locate? (← get) path | throw cannotOpen
  if let some model := l.model then
    if !((← get).follow model).isOk then throw cannotOpen
  let isEmpty := (← content p l.access).length ≤ 1
  if l.immutable then return { location := l, place := p }
  checkLock l p
  useJournal l p isEmpty
  return { location := l, place := p, log := ← useLog l p isEmpty }

def hasRoomForJournal (f : OpenFile) (w : Workspace) : Bool :=
  Companion.journal.fits f.place &&
    match Companion.journal.find? w f.place with
    | none | some (.file _) => true
    | some _ => false

/-- Writes the file at once. The journal that stands beside it meanwhile is taken away. -/
def writeAtOnce (f : OpenFile) (content : Bytes) : Filing Unit := do
  let w ← get
  if f.hasRoomForJournal w then
    set ((w.remove (Companion.journal.place f.place)).put f.place (.file content))
  else throw cannotOpen

def write (f : OpenFile) (content : Bytes) : Filing Unit :=
  match f.log with
  | some _ => modify (·.put (Companion.log.place f.place) (.file (logMark ++ content)))
  | none => f.writeAtOnce content

/-- Opens a log if the header of the file asks for it. -/
def joinLog (f : OpenFile) : Filing OpenFile := do
  let content ← content f.place .read
  if f.log.isSome || f.location.immutable || content.length ≤ 1 then return f
  match Header.ofContent? content with
  | none => throw notADatabase
  | some h =>
    if !h.hasLog then return f
    else if f.location.keepsLog then return { f with log := some (← openLog f.location f.place) }
    else throw cannotOpen

/-- The database in the file. From here on the file has a log if it can have one. -/
def read (f : OpenFile) : Filing (OpenFile × DatabaseFile) := do
  match DatabaseFile.ofBytes? (← content f.place .read) with
  | none => throw notADatabase
  | some stored =>
    let l := f.location
    if f.log.isSome || l.immutable || !l.keepsLog then return (f, stored)
    else if l.isFrozen || stored.header.isFrozen then throw FrozenDatabase.refusal
    else
      let stored := { stored with header := stored.header.withLog }
      f.writeAtOnce stored.toBytes
      return ({ f with log := some (← openLog l f.place) }, stored)

/-- Closes the file. What is in the log is written to the file, and log and index are taken away,
unless they may only be read. -/
def close (f : OpenFile) (w : Workspace) : Workspace :=
  let log := Companion.log.place f.place
  match f.log with
  | none | some .frozen => w
  | some index =>
    if f.location.access = .read then w
    else
      let w :=
        -- What the log tells goes into the file, unless it is not our log.
        match w.find? log with
        | some (.file content) =>
          if logMark.isPrefixOf content then
            w.put f.place (.file (content.drop logMark.length))
          else w
        | _ => w
      let w := w.remove log
      if index = .beside then w.remove (Companion.index.place f.place) else w

def closing (f : OpenFile) (step : EStateM ε Workspace α) : EStateM ε Workspace α := fun w =>
  match step w with
  | .ok a w => .ok a (f.close w)
  | .error e w => .error e (f.close w)

/-- Uses the database at a path. The file is opened in steps, and closed in the end if any of them
has opened a log. -/
def use (wrap : Failure → ε) (l : Location) (path : Bytes)
    (step : OpenFile → DatabaseFile → EStateM ε Workspace α) : EStateM ε Workspace α := do
  let f ← (ofPath l path).adaptExcept wrap
  f.closing do
    let f ← f.joinLog.adaptExcept wrap
    f.closing do
      let (f, stored) ← f.read.adaptExcept wrap
      f.closing (step f stored)

end OpenFile

end MapAudit
