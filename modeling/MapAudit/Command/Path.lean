import MapAudit.Stream.Bytes

namespace MapAudit
open MapAudit.Stream (Bytes)

/-- Where a file or a directory stands: its name and the names of the directories above it, from the
inside to the outside. The root has none. -/
abbrev Place := List Bytes

namespace Path

def slash : UInt8 := 47
def dot : UInt8 := 46

inductive Move where
  | stay
  | up
  | down (name : Bytes)
  deriving DecidableEq, Repr

namespace Move

def ofPart (part : Bytes) : Move :=
  if part = [] ∨ part = [dot] then stay
  else if part = [dot, dot] then up
  else down part

/-- Where a move leads, whatever is there. Above the root is the root. -/
def apply (p : Place) : Move → Place
  | stay => p
  | up => p.tail
  | down name => name :: p

end Move

def moves (path : Bytes) : List Move := (Stream.parts slash path).map Move.ofPart

def movesAbove (path : Bytes) : List Move := ((moves path).filter (· ≠ .stay)).dropLast

def start (base : Place) (path : Bytes) : Place := if path.head? = some slash then [] else base

/-- The places that moves pass. -/
def trail (p : Place) : List Move → List Place
  | [] => [p]
  | m :: ms => p :: trail (m.apply p) ms

/-- The place of a path, whatever stands on the way. -/
def place (base : Place) (path : Bytes) : Place := (moves path).foldl Move.apply (start base path)

end Path

def Path.size (names : List Bytes) : Nat := names.foldl (fun n name => n + (name.length + 1)) 0

def Place.size (p : Place) : Nat := Path.size p

/-- The path of a place from the root on, if it is a text. -/
def Place.text? (p : Place) : Option String :=
  let path := p.reverse.flatMap (Path.slash :: ·)
  String.fromUTF8? ⟨(if path.isEmpty then [Path.slash] else path).toArray⟩

end MapAudit
