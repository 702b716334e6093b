import MapAudit.Proofs.Change.TagDiff

namespace MapAudit
open Std

def ValueChange.inverse (c : ValueChange) : ValueChange := ⟨c.new, c.old⟩

namespace TagDiff

/-- The tags after a change: removed keys are deleted, changed ones set to their new values, and added
ones inserted. -/
def patch (d : TagDiff) (tags : Tags) : Tags :=
  (tags \ d.removed) ∪ d.changed.map (fun _ c => c.new) ∪ d.added

/-- The tags before a change: added keys are deleted, changed ones set to their old values, and removed
ones inserted. -/
def unpatch (d : TagDiff) (tags : Tags) : Tags :=
  (tags \ d.added) ∪ d.changed.map (fun _ c => c.old) ∪ d.removed

def inverse (d : TagDiff) : TagDiff where
  added := d.removed
  removed := d.added
  changed := d.changed.map fun _ c => c.inverse

/-- To go back is to patch in the other direction. -/
theorem patch_inverse (d : TagDiff) (tags : Tags) : d.inverse.patch tags = d.unpatch tags := by
  have hchanged : (d.changed.map fun _ c => c.inverse).map (fun _ c => c.new) =
      d.changed.map fun _ c => c.old := by
    apply ExtTreeMap.ext_getElem?
    intro key
    rw [ExtTreeMap.getElem?_map, ExtTreeMap.getElem?_map, ExtTreeMap.getElem?_map, Option.map_map]
    rfl
  unfold patch unpatch inverse
  rw [hchanged]

theorem getElem?_patch (d : TagDiff) (tags : Tags) (key : String) :
    (d.patch tags)[key]? =
      d.added[key]?.or ((d.changed[key]?.map (·.new)).or
        (if d.removed[key]?.isSome then none else tags[key]?)) := by
  unfold patch
  rw [ExtTreeMap.getElem?_union, ExtTreeMap.getElem?_union, ExtTreeMap.getElem?_map,
    ExtTreeMap.getElem?_diff]
  simp only [ExtTreeMap.mem_iff_isSome_getElem?]

variable (previous next : Option Tags)

theorem patch_between : (between previous next).patch (previous.getD ∅) = next.getD ∅ := by
  apply ExtTreeMap.ext_getElem?
  intro key
  rw [getElem?_patch, added_between, changed_between, removed_between]
  cases hp : (previous.getD ∅)[key]? with
  | none => cases (next.getD ∅)[key]? <;> rfl
  | some before =>
    cases (next.getD ∅)[key]? with
    | none => rfl
    | some value =>
      by_cases e : before = value
      · simp [e]
      · simp [e]

/-- What is added one way is removed the other way. -/
theorem added_swap : (between next previous).added = (between previous next).removed := by
  apply ExtTreeMap.ext_getElem?
  intro key
  rw [added_between, removed_between]

/-- A comparison the other way round is the inverse one. -/
theorem between_swap : between next previous = (between previous next).inverse := by
  have hchanged : (between next previous).changed =
      (between previous next).changed.map fun _ c => c.inverse := by
    apply ExtTreeMap.ext_getElem?
    intro key
    rw [ExtTreeMap.getElem?_map, changed_between, changed_between]
    cases (previous.getD ∅)[key]? with
    | none => cases (next.getD ∅)[key]? <;> rfl
    | some before =>
      cases (next.getD ∅)[key]? with
      | none => rfl
      | some value =>
        by_cases e : before = value
        · simp [e]
        · simp [e, Ne.symm e, ValueChange.inverse]
  have hremoved : (between next previous).removed = (between previous next).added :=
    (added_swap next previous).symm
  exact congr (congr (congrArg TagDiff.mk (added_swap previous next)) hremoved) hchanged

/-- The way back is the way forth of the opposite comparison. -/
theorem unpatch_between : (between previous next).unpatch (next.getD ∅) = previous.getD ∅ := by
  rw [← patch_inverse, ← between_swap, patch_between]

end TagDiff

/-- The difference between two sets of tags is an exact and reversible patch. Its three parts have no
key in common; applied to the old tags it yields the new ones, and taken back from these the old ones;
the difference the other way round is its inverse; and there is none if and only if the tags are the
same. -/
theorem diff_is_reversible_patch (previous next : Option Tags) :
    let d := TagDiff.between previous next
    (∀ key : String, ¬(key ∈ d.added ∧ key ∈ d.removed) ∧ ¬(key ∈ d.added ∧ key ∈ d.changed) ∧
      ¬(key ∈ d.removed ∧ key ∈ d.changed)) ∧
      d.patch (previous.getD ∅) = next.getD ∅ ∧
      d.unpatch (next.getD ∅) = previous.getD ∅ ∧
      TagDiff.between next previous = d.inverse ∧
      (d.isEqual = true ↔ previous.getD ∅ = next.getD ∅) :=
  ⟨TagDiff.disjoint_between previous next, TagDiff.patch_between previous next,
    TagDiff.unpatch_between previous next, TagDiff.between_swap previous next,
    TagDiff.isEqual_between previous next⟩

end MapAudit
