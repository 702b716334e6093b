import MapAudit.Command.Workspace

namespace MapAudit
open MapAudit.Stream (Bytes)

inductive Companion where
  | journal
  | log
  | index
  | lock
  deriving DecidableEq, Repr

namespace Companion

def all : List Companion := [journal, log, index, lock]

def ending : Companion → String
  | journal => "-journal"
  | log => "-wal"
  | index => "-shm"
  | lock => ".lock"

def place (c : Companion) : Place → Place
  | [] => []
  | name :: above => (name ++ c.ending.toUTF8.toList) :: above

/-- Whether a name of a file leaves room for the ending. -/
def fits (c : Companion) (p : Place) : Bool :=
  ((c.place p).headD []).length ≤ Workspace.nameLimit

def find? (c : Companion) (w : Workspace) (p : Place) : Option Entry := w.find? (c.place p)

/-- What stands beside a file and is worth a look; an empty file is not. -/
def noticed? (c : Companion) (w : Workspace) (p : Place) : Option Entry :=
  match c.find? w p with
  | some (.file []) => none
  | e => e

end Companion

/-- The bytes that a log begins with, before the content of its file as it will be. -/
def logMark : Bytes := [0x37, 0x7f, 0x06, 0x82]

def indexMark : Bytes := [0x18, 0xe2, 0x2d, 0x00]

end MapAudit
