import MapAudit.Command.Help
import MapAudit.Decimal.Digit

namespace MapAudit.Arguments

inductive Stop where
  | misuse
  | help (topic : Topic)
  deriving DecidableEq, Repr

/-- What a command takes. -/
structure Grammar where
  /-- What help is about when it is asked for. -/
  topic : Topic
  valued : List String := []
  flags : List String := []
  positional : Nat := 0
  subcommands : List String := []
  /-- Whether an option takes a value. -/
  takes : String → String → Bool := fun _ _ => true
  /-- Whether a positional argument may be so. -/
  admits : String → Bool := fun _ => true

structure Given where
  values : List (String × String) := []
  flags : List String := []
  positional : List String := []
  subcommand : Option (String × List String) := none

namespace Given

def addValue (g : Given) (grammar : Grammar) (name value : String) : Except Stop Given :=
  if (g.values.lookup name).isSome || !grammar.takes name value then .error .misuse
  else .ok { g with values := (name, value) :: g.values }

def addFlag (g : Given) (name : String) : Except Stop Given :=
  if name ∈ g.flags then .error .misuse else .ok { g with flags := name :: g.flags }

def addPositional (g : Given) (grammar : Grammar) (value : String) : Except Stop Given :=
  if g.positional.length < grammar.positional && grammar.admits value then
    .ok { g with positional := g.positional ++ [value] }
  else .error .misuse

def value? (g : Given) (name : String) : Option String := g.values.lookup name

def hasFlag (g : Given) (name : String) : Bool := g.flags.contains name

end Given

/-- The name and the attached value of a long option. -/
def long? (argument : String) : Option (String × Option String) :=
  match argument.toList with
  | '-' :: '-' :: c :: cs =>
    let name := (c :: cs).takeWhile (· ≠ '=')
    match (c :: cs).dropWhile (· ≠ '=') with
    | [] => some (String.ofList name, none)
    | _ :: value => some (String.ofList name, some (String.ofList value))
  | _ => none

/-- Looks like an option; a single dash does not. -/
def isOption (argument : String) : Bool :=
  match argument.toList with
  | '-' :: _ :: _ => true
  | _ => false

/-- Short options; help may be asked for everywhere. -/
def short (topic : Topic) (argument : String) : Stop :=
  match argument.toList with
  | '-' :: 'h' :: _ => .help topic
  | _ => .misuse

def scan (grammar : Grammar) (g : Given) : List String → Except Stop Given
  | [] => .ok g
  | "--" :: rest => rest.foldlM (fun g value => g.addPositional grammar value) g
  | a :: rest =>
    match long? a with
    | some (name, attached) =>
      if name ∈ grammar.flags then
        if attached.isSome then .error .misuse
        else do (scan grammar (← g.addFlag name) rest)
      else if name ∈ grammar.valued then
        match attached, rest with
        | some value, rest => do scan grammar (← g.addValue grammar name value) rest
        | none, value :: rest =>
          if isOption value then .error .misuse
          else do scan grammar (← g.addValue grammar name value) rest
        | none, [] => .error .misuse
      else if name = "help" ∧ attached.isNone then .error (.help grammar.topic)
      else .error .misuse
    | none =>
      if isOption a then .error (short grammar.topic a)
      else if a ∈ grammar.subcommands then .ok { g with subcommand := some (a, rest) }
      else if a = "help" ∧ !grammar.subcommands.isEmpty then
        .error ((rest.foldlM Topic.below? grammar.topic).elim .misuse .help)
      else do scan grammar (← g.addPositional grammar a) rest

def natural? (cs : List Char) : Option Nat :=
  match Decimal.takeDigits cs with
  | ([], _) => none
  | (ds, []) => some (Decimal.value ds)
  | _ => none

/-- A natural number of at most 64 bits; a plus sign may stand before it. -/
def nat64? (s : String) : Option Nat :=
  let n? :=
    match s.toList with
    | '+' :: cs => natural? cs
    | cs => natural? cs
  n?.filter (· < UInt64.size)

def int64? (s : String) : Option Int64 := do
  let i : Int ←
    match s.toList with
    | '+' :: cs => (natural? cs).map fun n => (n : Int)
    | '-' :: cs => (natural? cs).map fun n => -(n : Int)
    | cs => (natural? cs).map fun n => (n : Int)
  if Int64.minValue.toInt ≤ i ∧ i ≤ Int64.maxValue.toInt then some (Int64.ofInt i) else none

end MapAudit.Arguments
