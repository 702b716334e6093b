import MapAudit.Failure
import MapAudit.Text.Basic

namespace MapAudit

inductive Policy where
  | ignore
  | log
  | stop
  deriving DecidableEq, Repr

namespace Policy

def all : List Policy := [ignore, log, stop]

def name : Policy → String
  | ignore => "ignore"
  | log => "log"
  | stop => "break"

def ofTag? : String → Option Policy
  | "ignore" => some ignore
  | "log" => some log
  | "break" => some stop
  | _ => none

/-- Reads a name in any ASCII case, between blanks. -/
def ofName? (s : String) : Option Policy := ofTag? (Text.trim s).toLower

def parse (s : String) : Except Refusal Policy :=
  (ofName? s).elim (.error (.unknownPolicy s)) .ok

/-- Whether the run goes on after an invalid action. -/
def handle (p : Policy) (i : InvalidAction) : Except Failure Unit :=
  match p with
  | ignore | log => .ok ()
  | stop => .error (Refusal.invalidAction i).toFailure

end Policy

end MapAudit
