import MapAudit.Json.Codec
import MapAudit.Run.Processor

namespace MapAudit
open Codec

instance : Codec RunId := ⟨fun r => .string r.text, fun _ v => v.toText?.map RunId.mk⟩

instance : Codec RunStats where
  toJson n :=
    .object
      [("processed", .nat n.processed), ("skipped", .nat n.skipped), ("invalid", .nat n.invalid)]
  ofJson? _ v := do
    let f ← v.fields? ["processed", "skipped", "invalid"]
    return {
      processed := ← f.required? "processed" Json.toNat64?
      skipped := ← f.required? "skipped" Json.toNat64?
      invalid := ← f.required? "invalid" Json.toNat64? }

namespace RunReport

/-- The fields of a report, to which a summary adds its own. -/
def members (r : RunReport) : List (String × Json) :=
  [("run_id", toJson r.runId), ("stats", toJson r.stats), ("changesets", toJson r.changesets)]

end RunReport

instance : Codec RunReport where
  toJson r := .object r.members
  ofJson? depth v := do
    let f ← v.fields? ["run_id", "stats", "changesets"]
    return {
      runId := ← f.required? "run_id" (ofJson? depth)
      stats := ← f.required? "stats" (ofJson? depth)
      changesets := ← f.required? "changesets" (ofJson? depth) }

end MapAudit
