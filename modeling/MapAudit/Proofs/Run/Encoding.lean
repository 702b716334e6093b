import MapAudit.Proofs.Change.Encoding
import MapAudit.Proofs.Database.Row
import MapAudit.Run.Encoding

namespace MapAudit
open Codec Time Json.Fields

theorem Json.Number.toNat64?_ofNat {n : Nat} (h : n < UInt64.size) :
    (ofNat n).toNat64? = some n := by
  have hint : (ofNat n).toInt? = some (n : Int) := rfl
  have hrange : 0 ≤ (n : Int) ∧ (n : Int) < UInt64.size := by omega
  unfold toNat64?
  rw [hint, Option.bind_eq_bind, Option.bind_some, if_pos hrange, Int.toNat_natCast]

theorem RunId.faithful (r : RunId) : Faithful r := fun _ => rfl

namespace RunStats

def fields (n : RunStats) : Json.Fields :=
  ⟨false,
    [("processed", .nat n.processed), ("skipped", .nat n.skipped), ("invalid", .nat n.invalid)]⟩

structure Countable (n : RunStats) : Prop where
  processed : n.processed < UInt64.size
  skipped : n.skipped < UInt64.size
  invalid : n.invalid < UInt64.size

theorem faithful {n : RunStats} (h : n.Countable) : Faithful n := by
  intro depth
  have hprocessed : n.fields.required? "processed" Json.toNat64? = some n.processed :=
    required?_of_lookup rfl (Json.Number.toNat64?_ofNat h.processed)
  have hskipped : n.fields.required? "skipped" Json.toNat64? = some n.skipped :=
    required?_of_lookup rfl (Json.Number.toNat64?_ofNat h.skipped)
  have hinvalid : n.fields.required? "invalid" Json.toNat64? = some n.invalid :=
    required?_of_lookup rfl (Json.Number.toNat64?_ofNat h.invalid)
  refine (Json.bind_fields?_object n.fields ["processed", "skipped", "invalid"] _
    rfl rfl (by decide)).trans ?_
  simp only [Option.bind_eq_bind, hprocessed, hskipped, hinvalid, Option.bind_some,
    Option.pure_def]

end RunStats

theorem RunReport.faithful {r : RunReport} (h : r.stats.Countable) : Faithful r := by
  intro depth
  let f : Json.Fields := ⟨false, r.members⟩
  have hid : f.required? "run_id" (ofJson? depth) = some r.runId :=
    required?_of_lookup rfl (r.runId.faithful depth)
  have hstats : f.required? "stats" (ofJson? depth) = some r.stats :=
    required?_of_lookup rfl (RunStats.faithful h depth)
  have hchangesets : f.required? "changesets" (ofJson? depth) = some r.changesets :=
    required?_of_lookup rfl (faithful_list (fun c _ => faithful_int64 c) depth)
  refine (Json.bind_fields?_object f ["run_id", "stats", "changesets"] _
    rfl rfl (by decide)).trans ?_
  simp only [Option.bind_eq_bind, hid, hstats, hchangesets, Option.bind_some, Option.pure_def]

/-- What is encoded into a column is decoded from it, for any texts as keys, values, roles and
names and at any instant, which is one that a timestamp or a number of milliseconds can name: a leap
second ends its minute. Coordinates come back as far as each is read back from its own text, and counts
as far as they are of 64 bits. -/
theorem column_of_encoded (column : String) :
    (∀ s : Snapshot, (∀ p ∈ s.positions, p.Printable) → Row.value column (encode s) = .ok s) ∧
    (∀ r : ChangeRecord, r.Printable → Row.value column (encode r) = .ok r) ∧
    (∀ c : Changeset, c.Countable → Row.value column (encode c) = .ok c) ∧
    (∀ g : Geometry, (∀ p ∈ g.positions, p.Printable) → Row.value column (encode g) = .ok g) ∧
    (∀ t : Tags, Row.value column (encode t) = .ok t) ∧
    (∀ ms : List Member, Row.value column (encode ms) = .ok ms) ∧
    (∀ u : User, Row.value column (encode u) = .ok u) ∧
    (∀ i : InvalidAction, Row.value column (encode i) = .ok i) ∧
    (∀ d : TagDiff, Row.value column (encode d) = .ok d) ∧
    (∀ r : RunReport, r.stats.Countable → Row.value column (encode r) = .ok r) :=
  ⟨fun _ h => Row.value_encode column (Snapshot.faithful h),
    fun _ h => Row.value_encode column (ChangeRecord.faithful h),
    fun _ h => Row.value_encode column (Changeset.faithful h),
    fun _ h => Row.value_encode column (Geometry.faithful h),
    fun t => Row.value_encode column (Tags.faithful t),
    fun _ => Row.value_encode column (faithful_list fun m _ => m.faithful),
    fun u => Row.value_encode column u.faithful,
    fun i => Row.value_encode column i.faithful,
    fun d => Row.value_encode column d.faithful,
    fun _ h => Row.value_encode column (RunReport.faithful h)⟩

def Changeset.fullest : Changeset :=
  ⟨500, -1, Rfc3339.lateLeap, some Rfc3339.lateLeap, 9223372036854775807⟩

def RunReport.fullest : RunReport := ⟨⟨"first"⟩, ⟨18446744073709551615, 0, 1⟩, [500]⟩

/-- Values with the greatest counts, of the year 10000, with texts that need escapes. -/
theorem column_of_encoded_quoting :
    Row.value "entities" (encode Snapshot.quoting) = .ok Snapshot.quoting ∧
    Row.value "changes" (encode (ChangeRecord.introducing .create Snapshot.quoting)) =
      .ok (ChangeRecord.introducing .create Snapshot.quoting) ∧
    Row.value "changesets" (encode Changeset.fullest) = .ok Changeset.fullest ∧
    Row.value "entities.geom" (encode (Geometry.point ⟨1.5, 2.5⟩)) =
      .ok (Geometry.point ⟨1.5, 2.5⟩) ∧
    Row.value "report" (encode RunReport.fullest) = .ok RunReport.fullest := by
  have hpositions := Snapshot.printable_quoting
  have hrecord : (ChangeRecord.introducing .create Snapshot.quoting).Printable := by
    refine ⟨fun g hg => (nomatch hg), fun g hg p hp => hpositions p ?_⟩
    have hshape : Snapshot.quoting.shape = some g := hg
    exact Snapshot.positions_of_shape (hshape ▸ hp)
  have hchangeset : Changeset.fullest.Countable := ⟨by decide +kernel, by decide +kernel⟩
  have hstats : RunReport.fullest.stats.Countable := ⟨by decide, by decide, by decide⟩
  obtain ⟨hsnapshot, -⟩ := column_of_encoded "entities"
  obtain ⟨-, hchange, -⟩ := column_of_encoded "changes"
  obtain ⟨-, -, hcount, -⟩ := column_of_encoded "changesets"
  obtain ⟨-, -, -, hgeometry, -⟩ := column_of_encoded "entities.geom"
  obtain ⟨-, -, -, -, -, -, -, -, -, hreport⟩ := column_of_encoded "report"
  exact ⟨hsnapshot _ hpositions, hchange _ hrecord, hcount _ hchangeset,
    hgeometry (.point ⟨1.5, 2.5⟩) hpositions, hreport _ hstats⟩

end MapAudit
