import MapAudit.Json.Fields
import MapAudit.Json.Printer
import MapAudit.Json.Reader
import MapAudit.Time.Rfc3339

namespace MapAudit
open Time

/-- A type whose values are stored and exchanged as JSON. Reading is told how many arrays and
objects are open around the value. -/
class Codec (α : Type) where
  toJson : α → Json
  ofJson? : Nat → Json → Option α

namespace Codec

def encode [Codec α] (a : α) : String := (toJson a).compact

def decode? [Codec α] (s : String) : Option α := (Json.parse? s).bind (ofJson? 0)

end Codec

instance : Codec Int64 := ⟨.int64, fun _ => Json.toInt64?⟩
instance : Codec String := ⟨.string, fun _ => Json.toText?⟩
instance : Codec Bool := ⟨.bool, fun _ => Json.toBool?⟩

instance : Codec Instant where
  toJson t := .string (Rfc3339.text t)
  ofJson? _ v := v.toText?.bind Rfc3339.read?

instance [Codec α] : Codec (List α) where
  toJson := Json.list Codec.toJson
  ofJson? depth := Json.toList? (Codec.ofJson? (depth + 1))

end MapAudit
