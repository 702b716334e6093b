import MapAudit.Change.Record
import MapAudit.Proofs.Change.TagDiff
import MapAudit.Proofs.Entity.Geometry

namespace MapAudit

/-- Tags differ if and only if a key is missing or has another value on one side. -/
theorem Tags.ne_iff {a b : Tags} : a ≠ b ↔ ∃ key : String, a[key]? ≠ b[key]? := by
  constructor
  · intro hne
    refine Classical.byContradiction fun hnone => hne (Std.ExtTreeMap.ext_getElem? fun {key} => ?_)
    exact Classical.byContradiction fun hkey => hnone ⟨key, hkey⟩
  · rintro ⟨key, hkey⟩ rfl
    exact hkey rfl

namespace ChangeRecord
variable (action : Action) (previous : Option Snapshot) (next : Snapshot)

@[simp] theorem key_build : (build action previous next).key = next.key := by
  cases action <;> cases previous <;> rfl

@[simp] theorem action_build : (build action previous next).action = action := by
  cases action <;> cases previous <;> rfl

@[simp] theorem changesetId_build :
    (build action previous next).changesetId = next.changesetId := by
  cases action <;> cases previous <;> rfl

@[simp] theorem timestamp_build :
    (build action previous next).timestamp = next.timestamp := by
  cases action <;> cases previous <;> rfl

@[simp] theorem version_build : (build action previous next).version = next.version := by
  cases action <;> cases previous <;> rfl

theorem tagsChanged_comparing (p : Snapshot) :
    (comparing p next).tagsChanged = true ↔ p.tags ≠ next.tags := by
  have hequal := TagDiff.isEqual_between (some p.tags) (some next.tags)
  rw [Option.getD_some, Option.getD_some] at hequal
  rw [Ne, ← hequal]
  change (!(TagDiff.between (some p.tags) (some next.tags)).isEqual) = true ↔ _
  simp

theorem geometryChanged_comparing (p : Snapshot) :
    (comparing p next).geometryChanged = true ↔ (p.shape == next.shape) = false := by
  change (!(p.shape == next.shape)) = true ↔ _
  simp

/-- What is not changed has no new side. -/
theorem new_comparing (p : Snapshot) :
    ((comparing p next).tagsChanged = false → (comparing p next).newTags = none) ∧
      ((comparing p next).geometryChanged = false → (comparing p next).newGeometry = none) := by
  constructor
  · intro h
    change (if (comparing p next).tagsChanged then some next.tags else none) = none
    rw [h]
    rfl
  · intro h
    change (if (comparing p next).geometryChanged then next.shape else none) = none
    rw [h]
    rfl

/-- Unless the entity is deleted, the record holds the tags of the new version. -/
theorem tags_build (h : action ≠ .delete) :
    (if (build action previous next).tagsChanged then (build action previous next).newTags
      else (build action previous next).previousTags) = some next.tags := by
  cases action with
  | create => rfl
  | delete => exact absurd rfl h
  | modify =>
    cases previous with
    | none => rfl
    | some p =>
      change (if (comparing p next).tagsChanged then
        (if (comparing p next).tagsChanged then some next.tags else none)
        else some p.tags) = some next.tags
      by_cases hchanged : (comparing p next).tagsChanged = true
      · rw [if_pos hchanged, if_pos hchanged]
      · rw [if_neg hchanged, Classical.not_not.1 (mt (tagsChanged_comparing next p).2 hchanged)]

/-- Unless the entity is deleted, the record holds the geometry of the new version in normal form, up
to equality of floats. -/
theorem geometry_build (h : action ≠ .delete) (hn : ∀ p ∈ next.positions, p.IsNumber) :
    ((if (build action previous next).geometryChanged then
      (build action previous next).newGeometry
      else (build action previous next).previousGeometry) == next.shape) = true := by
  have hself := Snapshot.shape_beq_self hn
  cases action with
  | create => exact hself
  | delete => exact absurd rfl h
  | modify =>
    cases previous with
    | none => exact hself
    | some p =>
      change ((if (comparing p next).geometryChanged then
        (if (comparing p next).geometryChanged then next.shape else none)
        else p.shape) == next.shape) = true
      by_cases hchanged : (comparing p next).geometryChanged = true
      · rw [if_pos hchanged, if_pos hchanged]
        exact hself
      · rw [if_neg hchanged]
        -- The geometry was not found to differ, so the previous one serves.
        exact Bool.of_not_eq_false (mt (geometryChanged_comparing next p).2 hchanged)

/-- The record of a modification or deletion copies the stored version that it starts from. -/
theorem previous_build (p : Snapshot) (h : action ≠ .create) :
    (build action (some p) next).previousTags = some p.tags ∧
      (build action (some p) next).previousGeometry = p.shape := by
  cases action with
  | create => exact absurd rfl h
  | modify => exact ⟨rfl, rfl⟩
  | delete => exact ⟨rfl, rfl⟩

/-- The geometries of a record are those of the versions it is made from, in normal form. -/
theorem mem_previousGeometry {action : Action} {previous : Option Snapshot} {next : Snapshot}
    {g : Geometry}
    (h : g ∈ (build action previous next).previousGeometry) : ∃ p ∈ previous, g ∈ p.shape := by
  cases previous with
  | none => cases action <;> cases h
  | some p =>
    cases action with
    | create => cases h
    | modify => exact ⟨p, rfl, h⟩
    | delete => exact ⟨p, rfl, h⟩

theorem mem_newGeometry {action : Action} {previous : Option Snapshot} {next : Snapshot}
    {g : Geometry} (h : g ∈ (build action previous next).newGeometry) :
    g ∈ next.shape := by
  cases action with
  | create => exact h
  | delete => cases h
  | modify =>
    cases previous with
    | none => exact h
    | some p =>
      -- The new side is kept only where it differs.
      change g ∈ (if p.shape != next.shape then next.shape else none) at h
      split at h
      · exact h
      · cases h

end ChangeRecord

/-- The record of a change loses nothing and holds no more than it has to. The tags and the geometry
of a created or modified version are found in it again, and so are those of the version before, where
a modification or deletion has one. A modification is told to change tags if and only if a key is
missing or has another value on one side, and the geometry if and only if the normal forms differ; what
it does not change has no new side. Without a version before there is no previous side, and of a
deletion no new one. -/
theorem record_lossless_and_minimal (action : Action) (previous : Option Snapshot)
    {next : Snapshot} (hn : ∀ p ∈ next.positions, p.IsNumber) :
    let r := ChangeRecord.build action previous next
    (action ≠ .delete →
      (if r.tagsChanged then r.newTags else r.previousTags) = some next.tags ∧
      ((if r.geometryChanged then r.newGeometry else r.previousGeometry) == next.shape) = true) ∧
    (action ≠ .create → ∀ p, previous = some p →
      r.previousTags = some p.tags ∧ r.previousGeometry = p.shape) ∧
    (action = .modify → ∀ p, previous = some p →
      (r.tagsChanged = true ↔ ∃ key : String, p.tags[key]? ≠ next.tags[key]?) ∧
      (r.geometryChanged = true ↔ (p.shape == next.shape) = false) ∧
      (r.tagsChanged = false → r.newTags = none) ∧
      (r.geometryChanged = false → r.newGeometry = none)) ∧
    (action = .create ∨ action = .modify ∧ previous = none →
      r.previousTags = none ∧ r.previousGeometry = none) ∧
    (action = .delete → r.newTags = none ∧ r.newGeometry = none) := by
  intro r
  refine ⟨fun hkeep => ?_, ?_, ?_, ?_, ?_⟩
  · exact ⟨ChangeRecord.tags_build action previous next hkeep,
      ChangeRecord.geometry_build action previous next hkeep hn⟩
  · rintro hcreate p rfl
    exact ChangeRecord.previous_build action next p hcreate
  · rintro rfl p rfl
    refine ⟨?_, ChangeRecord.geometryChanged_comparing next p,
      (ChangeRecord.new_comparing next p).1, (ChangeRecord.new_comparing next p).2⟩
    rw [← Tags.ne_iff]
    exact ChangeRecord.tagsChanged_comparing next p
  · rintro (rfl | ⟨rfl, rfl⟩)
    · exact ⟨rfl, rfl⟩
    · exact ⟨rfl, rfl⟩
  · rintro rfl
    exact ⟨rfl, rfl⟩

/-- A line with one position gets a tag: its record has the new tags, and of the geometry only the
previous side, which is that of the new version as well. -/
theorem record_of_tagged_line :
    let previous : Snapshot :=
      { id := 7, kind := .line, version := 1, changesetId := 500
        geometry := some (.line [⟨1.5, 2.5⟩]) }
    let next := { previous with version := 2 }.withTag "highway" "path"
    let r := ChangeRecord.build .modify (some previous) next
    (∀ p ∈ next.positions, p.IsNumber) ∧
      (r.tagsChanged = true ∧ r.previousTags = some previous.tags ∧ r.newTags = some next.tags) ∧
      r.geometryChanged = false ∧ r.newGeometry = none ∧
      (r.previousGeometry == next.shape) = true := by
  intro previous next r
  have hn : ∀ p ∈ next.positions, p.IsNumber := by
    intro p hp
    obtain rfl : p = ⟨1.5, 2.5⟩ := List.mem_singleton.1 hp
    exact ⟨by decide +kernel, by decide +kernel⟩
  obtain ⟨hnew, hprevious, hmodify, -, -⟩ :=
    record_lossless_and_minimal .modify (some previous) hn
  obtain ⟨htags, hgeometry, -, hnone⟩ := hmodify rfl previous rfl
  obtain ⟨hnewTags, hnewGeometry⟩ := hnew (by decide)
  have hchanged : r.tagsChanged = true :=
    htags.2 ⟨"highway", by simp [previous, next, Snapshot.withTag]⟩
  have hunchanged : r.geometryChanged = false := by
    have hsame : (previous.shape == next.shape) = true := Snapshot.shape_beq_self hn
    rw [← Bool.not_eq_true, hgeometry, hsame]
    decide
  rw [if_pos hchanged] at hnewTags
  rw [if_neg (Bool.eq_false_iff.1 hunchanged)] at hnewGeometry
  exact ⟨hn, ⟨hchanged, (hprevious (by decide) previous rfl).1, hnewTags⟩, hunchanged,
    hnone hunchanged, hnewGeometry⟩

end MapAudit
