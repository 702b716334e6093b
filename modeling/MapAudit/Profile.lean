import MapAudit.Failure

namespace MapAudit

inductive Profile where
  /-- Text for people. -/
  | development
  /-- One JSON object an event. -/
  | production
  /-- Events are captured. -/
  | test
  deriving DecidableEq, Repr

namespace Profile

def name : Profile → String
  | development => "Development"
  | production => "Production"
  | test => "Test"

def ofName? (s : String) : Option Profile :=
  match s.toLower with
  | "development" | "dev" => some development
  | "production" | "prod" | "json" => some production
  | "test" => some test
  | _ => none

def parse (s : String) : Except Failure Profile :=
  match ofName? s with
  | some p => .ok p
  | none =>
    .error
      { kind := .invalidInput
        operation := "parse_log_profile"
        message := s!"unknown log profile: {s.toLower}" }

def directive : Profile → String
  | development => "geodiff=debug"
  | production | test => "geodiff=info"

end Profile

end MapAudit
