import MapAudit.Decimal.Digit
import MapAudit.Stream.Bytes
import MapAudit.Text.Basic

namespace MapAudit
open MapAudit.Stream (Bytes)

/-- What the user of a database may do. -/
inductive Access where
  /-- Use a database that has no file. -/
  | transient
  | read
  | write
  /-- Write, also where there is no file yet. -/
  | create
  deriving DecidableEq, Repr

namespace Access

/-- The access that the option `mode` asks for. -/
def ofName? : String → Option Access
  | "memory" => some transient
  | "ro" => some read
  | "rw" => some write
  | "rwc" => some create
  | _ => none

def rank : Access → Nat
  | transient => 0
  | read => 1
  | write => 2
  | create => 3

/-- Access may be asked for again, but not more of it; what follows a transient one is free. -/
def narrow? (old new : Access) : Option Access :=
  if old = transient ∨ new.rank ≤ old.rank then some new else none

end Access

/-- Systems of files, by the way in which they guard a file that is in use. -/
inductive FileSystem where
  | shared
  | exclusive
  | unguarded
  /-- A directory beside the file is the lock. -/
  | lockedBeside
  | memory
  deriving DecidableEq, Repr

namespace FileSystem

def ofName? : String → Option FileSystem
  | "unix" => some shared
  | "unix-excl" => some exclusive
  | "unix-none" => some unguarded
  | "unix-dotfile" => some lockedBeside
  | "memdb" => some memory
  | _ => none

/-- Whether its locks are good for a log. -/
def hasLogs (s : FileSystem) : Bool := s == shared || s == exclusive

end FileSystem

structure Location where
  /-- The path of the file; a database without one lives only as long as it is open. -/
  path : Option Bytes
  access : Access := .create
  system : FileSystem := .shared
  unlocked : Bool := false
  immutable : Bool := false
  readOnlyIndex : Bool := false
  /-- The path of a file that lends its permissions, and so has to be there. -/
  model : Option Bytes := none
  deriving DecidableEq, Repr

namespace Location

abbrev Options := List (String × String)

/-- One character for each byte. -/
def spell (bs : Bytes) : String := String.ofList (bs.map fun b => Char.ofNat b.toNat)

def bytes (s : String) : Bytes := s.toUTF8.toList

def unspell (s : String) : Bytes := s.toList.map fun c => UInt8.ofNat c.toNat

/-- The bytes of a part of a URI, where `%` and two hexadecimal digits stand for one. A zero ends
the part. -/
def unescape : Bytes → Bytes
  | 37 :: x :: y :: rest =>
    match Text.hexValue? [Char.ofNat x.toNat, Char.ofNat y.toNat] with
    | some 0 => []
    | some n => UInt8.ofNat n :: unescape rest
    | none => 37 :: unescape (x :: y :: rest)
  | b :: rest => b :: unescape rest
  | [] => []

/-- A URI without its authority, which has to be the machine itself. -/
def dropAuthority? : Bytes → Option Bytes
  | 47 :: 47 :: rest =>
    let authority := rest.takeWhile (· ≠ 47)
    if authority = [] ∨ authority = bytes "localhost" then some (rest.dropWhile (· ≠ 47)) else none
  | uri => some uri

/-- The options of a query in order; those without a name do not count. -/
def options (query : Bytes) : Options :=
  let all := (Stream.parts 38 query).map fun part =>
    let (name, value) := Stream.cut 61 part
    (spell (unescape name), spell (unescape value))
  all.filter fun (name, _) => !name.isEmpty

/-- Whether an option is on: its first value is a number, not zero in its last byte, or a yes. -/
def isOn (options : Options) (name : String) : Bool :=
  match options.lookup name with
  | none => false
  | some value =>
    match (Decimal.takeDigits value.toList).1 with
    | [] => ["on", "yes", "true"].contains value.toLower
    | ds => Decimal.value ds % 256 ≠ 0 && Decimal.value ds < 2147483648

def access? (options : Options) : Option Access :=
  (options.filter (·.1 = "mode")).foldlM
    (fun old (_, mode) => (Access.ofName? mode).bind old.narrow?) .create

/-- Whether all options `cache` are known. How databases share memory makes no difference here. -/
def hasKnownCaches (options : Options) : Bool :=
  (options.filter (·.1 = "cache")).all fun (_, mode) => mode = "shared" || mode = "private"

/-- Paths of databases without a file. -/
def transientPaths : List Bytes := [[], bytes ":memory:"]

def ofPath (path : Bytes) : Location :=
  { path := if transientPaths.contains path then none else some path }

def ofUri? (uri : Bytes) : Option Location := do
  let rest ← dropAuthority? uri
  -- A query begins with 63, the question mark; what follows 35, the number sign, does not count.
  let (path, query) := Stream.cut 63 (rest.takeWhile (· ≠ 35))
  let options := options query
  let access ← access? options
  let system ← FileSystem.ofName? ((options.reverse.lookup "vfs").getD "unix")
  let named := (ofPath (unescape path)).path.filter fun _ => access ≠ .transient
  if hasKnownCaches options then
    return {
      path := if system = .memory then none else named
      access := access
      system := system
      unlocked := isOn options "nolock"
      immutable := named.isSome && isOn options "immutable"
      readOnlyIndex := isOn options "readonly_shm"
      model := (options.lookup "modeof").map unspell }
  else none

/-- The location of a name, unless it is a URI that makes no sense. -/
def ofName? (name : Bytes) : Option Location :=
  let scheme := bytes "file:"
  if scheme.isPrefixOf name then ofUri? (name.drop scheme.length) else some (ofPath name)

def isFrozen (l : Location) : Bool := l.access == .read || l.immutable

def keepsLog (l : Location) : Bool := !l.unlocked && l.system.hasLogs

end Location

end MapAudit
