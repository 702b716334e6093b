import MapAudit.Run.Processor
import MapAudit.Stream.Bytes
import MapAudit.Toml.Assignments

namespace MapAudit

inductive SettingsError where
  | malformed
  | unknownKey (key : String)
  | repeatedKey (key : String)
  | wrongType (key : String)
  | refused (r : Refusal)
  deriving DecidableEq, Repr

namespace SettingsError

def message : SettingsError → String
  | malformed => "not a list of settings"
  | unknownKey k => s!"unknown setting {k}"
  | repeatedKey k => s!"setting {k} is given twice"
  | wrongType k => s!"setting {k} has a value of the wrong type"
  | refused r => r.message

def toFailure (e : SettingsError) : Failure :=
  { kind := .invalidInput, operation := "load_config", message := e.message }

end SettingsError

namespace Options
open Toml

def set (o : Options) : String → Scalar → Except SettingsError Options
  | "invalid_actions", .text s =>
    match Policy.parse s with
    | .ok policy => .ok { o with policy }
    | .error r => .error (.refused r)
  | "changeset_cache_capacity", .integer i =>
    if 0 ≤ i then .ok { o with windowCapacity := i.toNat }
    else .error (.wrongType "changeset_cache_capacity")
  | "skip_applied_versions", .bool b => .ok { o with skipApplied := b }
  | "apply_entity_state", .bool b => .ok { o with applyState := b }
  | key, _ =>
    -- A known key that has come this far has a value of another type.
    if key ∈ ["invalid_actions", "changeset_cache_capacity", "skip_applied_versions",
        "apply_entity_state"] then
      .error (.wrongType key)
    else .error (.unknownKey key)

/-- The options with all settings changed; no key may come twice. -/
def setAll (o : Options) : List (String × Scalar) → Except SettingsError Options
  | [] => .ok o
  | (key, value) :: rest => do
    if key ∈ rest.map Prod.fst then throw (.repeatedKey key)
    (← o.set key value).setAll rest

/-- The options that a document gives, the default ones where it is silent. -/
def ofToml (text : String) : Except Failure Options :=
  match assignments? text with
  | none => .error SettingsError.malformed.toFailure
  | some settings => ({ : Options }.setAll settings).mapError (·.toFailure)

def ofBytes (content : Stream.Bytes) : Except Failure Options :=
  match String.fromUTF8? ⟨content.toArray⟩ with
  | some text => ofToml text
  | none => .error (.inputOutput "load_config" "stream did not contain valid UTF-8")

end Options

end MapAudit
