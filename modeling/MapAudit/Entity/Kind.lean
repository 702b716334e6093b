namespace MapAudit

inductive EntityKind where
  | point
  | line
  | relation
  deriving DecidableEq, Hashable, Repr

namespace EntityKind

def all : List EntityKind := [point, line, relation]

/-- The letter that stands for the kind in stored rows. -/
def code : EntityKind → String
  | point => "P"
  | line => "L"
  | relation => "R"

def ofCode? : String → Option EntityKind
  | "P" => some point
  | "L" => some line
  | "R" => some relation
  | _ => none

def name : EntityKind → String
  | point => "Point"
  | line => "Line"
  | relation => "Relation"

def tag : EntityKind → String
  | point => "point"
  | line => "line"
  | relation => "relation"

def ofTag? : String → Option EntityKind
  | "point" => some point
  | "line" => some line
  | "relation" => some relation
  | _ => none

/-- Reads a name in any ASCII case. Map feeds call a point `node` and a line `way`. -/
def ofName? (s : String) : Option EntityKind :=
  match s.toLower with
  | "point" | "node" => some point
  | "line" | "way" => some line
  | "relation" => some relation
  | _ => none

end EntityKind

end MapAudit
