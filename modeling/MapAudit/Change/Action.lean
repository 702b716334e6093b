namespace MapAudit

inductive Action where
  | create
  | modify
  | delete
  deriving DecidableEq, Repr

namespace Action

def all : List Action := [create, modify, delete]

def name : Action → String
  | create => "CREATE"
  | modify => "MODIFY"
  | delete => "DELETE"

def tag : Action → String
  | create => "create"
  | modify => "modify"
  | delete => "delete"

def ofTag? : String → Option Action
  | "create" => some create
  | "modify" => some modify
  | "delete" => some delete
  | _ => none

/-- Reads a name in any ASCII case. -/
def ofName? (s : String) : Option Action := ofTag? s.toLower

end Action

end MapAudit
