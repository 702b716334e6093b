import MapAudit.Proofs.Change.Record

namespace MapAudit

namespace Geometry

/-- The geometries that stay as they are: a line of a line entity has two positions. -/
def IsNormal (kind : EntityKind) (g : Geometry) : Prop := kind = .line → g.isValid = true

theorem isValid_iff {g : Geometry} :
    g.isValid = true ↔ (∃ p, g = .point p) ∨ ∃ ps, g = .line ps ∧ 2 ≤ ps.length := by
  cases g with
  | point p => simp [isValid]
  | line ps => simp [isValid]

theorem normalize_of_isNormal {kind : EntityKind} {g : Geometry} (h : g.IsNormal kind) :
    normalize kind g = some g := by
  unfold normalize
  split
  · exact absurd (h rfl) (by decide)
  · next p => exact absurd (h rfl) (by simp [isValid])
  · rfl

theorem isNormal_of_normalize {kind : EntityKind} {g h : Geometry}
    (hg : normalize kind g = some h) : h.IsNormal kind := by
  unfold normalize at hg
  split at hg
  · cases hg
  · cases hg
    exact fun _ => rfl
  · next hempty hsingle =>
    cases hg
    rintro rfl
    -- Neither of the two degenerate forms is left.
    match g with
    | .point p => rfl
    | .line [] => exact absurd rfl (hempty rfl)
    | .line [p] => exact absurd rfl (hsingle p rfl)
    | .line (p :: q :: ps) => simp [isValid]

/-- Normal geometries, and no others, are their own normal forms. -/
theorem normalize_eq_self_iff {kind : EntityKind} {g : Geometry} :
    normalize kind g = some g ↔ g.IsNormal kind :=
  ⟨isNormal_of_normalize, normalize_of_isNormal⟩

theorem isNormal_of_mem_normal {kind : EntityKind} {g : Option Geometry} {h : Geometry}
    (hh : h ∈ normal kind g) : h.IsNormal kind := by
  obtain ⟨g, -, hg⟩ := Option.bind_eq_some_iff.1 hh
  exact isNormal_of_normalize hg

/-- A normal form is its own normal form. -/
theorem normal_normal (kind : EntityKind) (g : Option Geometry) :
    normal kind (normal kind g) = normal kind g := by
  cases h : normal kind g with
  | none => rfl
  | some n => exact normalize_eq_self_iff.2 (isNormal_of_mem_normal h)

end Geometry

namespace Snapshot

def normalized (s : Snapshot) : Snapshot := { s with geometry := s.shape }

@[simp] theorem shape_normalized (s : Snapshot) : s.normalized.shape = s.shape :=
  Geometry.normal_normal s.kind s.geometry

@[simp] theorem normalized_normalized (s : Snapshot) : s.normalized.normalized = s.normalized := by
  unfold normalized
  rw [show shape { s with geometry := s.shape } = s.shape from s.shape_normalized]

end Snapshot

namespace ChangeRecord
variable {action : Action} {previous previous' : Option Snapshot} {next next' : Snapshot}

theorem build_normalized (action : Action) (previous : Option Snapshot) (next : Snapshot) :
    build action (previous.map Snapshot.normalized) next.normalized =
      build action previous next := by
  have hintroducing : introducing action next.normalized = introducing action next := by
    unfold introducing
    rw [Snapshot.shape_normalized]
    rfl
  cases action with
  | create => exact hintroducing
  | modify =>
    cases previous with
    | none => exact hintroducing
    | some p =>
      change comparing p.normalized next.normalized = comparing p next
      unfold comparing
      rw [Snapshot.shape_normalized, Snapshot.shape_normalized]
      rfl
  | delete =>
    cases previous with
    | none => rfl
    | some p =>
      change removing (some p.normalized) next.normalized = removing (some p) next
      unfold removing
      rw [Option.bind_some, Option.bind_some, Snapshot.shape_normalized]
      rfl

/-- Versions that agree up to the normal form of their geometries have the same record. -/
theorem build_congr (hp : previous.map Snapshot.normalized = previous'.map Snapshot.normalized)
    (hn : next.normalized = next'.normalized) :
    build action previous next = build action previous' next' := by
  rw [← build_normalized action previous, hp, hn, build_normalized]

end ChangeRecord

/-- The record of a change sees geometries through their normal forms alone: it stays the same if the
geometry of the new version, of the previous one, or of both is put into normal form first. A normal
form is its own normal form, and all geometries are normal but the degenerate lines of line entities;
where both versions are of line entities, each geometry in the record is a point or a line of at least
two positions. -/
theorem record_sees_normal_forms (action : Action) (previous : Option Snapshot) (next : Snapshot) :
    let r := ChangeRecord.build action previous next
    ChangeRecord.build action previous next.normalized = r ∧
      ChangeRecord.build action (previous.map Snapshot.normalized) next = r ∧
      ChangeRecord.build action (previous.map Snapshot.normalized) next.normalized = r ∧
      (∀ (kind : EntityKind) (g : Option Geometry),
        Geometry.normal kind (Geometry.normal kind g) = Geometry.normal kind g) ∧
      (∀ (kind : EntityKind) (g : Geometry),
        Geometry.normal kind (some g) = some g ↔ (kind = .line → g.isValid = true)) ∧
      (next.kind = .line → (∀ p ∈ previous, p.kind = .line) →
        ∀ g, g ∈ r.previousGeometry ∨ g ∈ r.newGeometry →
          (∃ p, g = .point p) ∨ ∃ ps, g = .line ps ∧ 2 ≤ ps.length) := by
  intro r
  have hprevious : (previous.map Snapshot.normalized).map Snapshot.normalized =
      previous.map Snapshot.normalized := by
    cases previous with
    | none => rfl
    | some p => exact congrArg some p.normalized_normalized
  refine ⟨ChangeRecord.build_congr rfl next.normalized_normalized,
    ChangeRecord.build_congr hprevious rfl, ChangeRecord.build_normalized action previous next,
    Geometry.normal_normal, fun kind g => Geometry.normalize_eq_self_iff, ?_⟩
  intro hline hlines g hg
  apply Geometry.isValid_iff.1
  rcases hg with hg | hg
  · obtain ⟨p, hp, hshape⟩ := ChangeRecord.mem_previousGeometry hg
    exact Geometry.isNormal_of_mem_normal hshape (hlines p hp)
  · exact Geometry.isNormal_of_mem_normal (ChangeRecord.mem_newGeometry hg) hline

/-- A line of one position grows: its record has a point on the previous side. -/
theorem record_of_growing_line :
    let previous : Snapshot :=
      { id := 7, kind := .line, version := 1, changesetId := 500
        geometry := some (.line [⟨1.5, 2.5⟩]) }
    let next : Snapshot :=
      { previous with version := 2, geometry := some (.line [⟨1.5, 2.5⟩, ⟨3.5, 4.5⟩]) }
    let r := ChangeRecord.build .modify (some previous) next
    (next.kind = .line ∧ ∀ p ∈ some previous, p.kind = .line) ∧
      r.previousGeometry = some (.point ⟨1.5, 2.5⟩) ∧ r.newGeometry = next.geometry ∧
      (∀ g, g ∈ r.previousGeometry ∨ g ∈ r.newGeometry →
        (∃ p, g = .point p) ∨ ∃ ps, g = .line ps ∧ 2 ≤ ps.length) ∧
      ChangeRecord.build .modify ((some previous).map Snapshot.normalized) next = r := by
  intro previous next r
  have hlines : ∀ p ∈ some previous, p.kind = .line := by
    rintro p ⟨⟩
    rfl
  obtain ⟨-, hsame, -, -, -, hvalid⟩ := record_sees_normal_forms .modify (some previous) next
  exact ⟨⟨rfl, hlines⟩, rfl, rfl, hvalid rfl hlines, hsame⟩

end MapAudit
