import MapAudit.Proofs.Change.TagDiff
import MapAudit.Proofs.Text.ByteOrder

namespace MapAudit
open Std

namespace TagDiff
variable {d : TagDiff} {key : String}

theorem mem_changedKeys :
    key ∈ d.changedKeys ↔ key ∈ d.added ∨ key ∈ d.removed ∨ key ∈ d.changed := by
  unfold changedKeys
  rw [List.mem_mergeSort, List.mem_append, List.mem_append, ExtTreeMap.mem_keys,
    ExtTreeMap.mem_keys, ExtTreeMap.mem_keys, or_assoc]

theorem nodup_changedKeys (h : ∀ key : String, ¬(key ∈ d.added ∧ key ∈ d.removed) ∧
    ¬(key ∈ d.added ∧ key ∈ d.changed) ∧ ¬(key ∈ d.removed ∧ key ∈ d.changed)) :
    d.changedKeys.Nodup := by
  unfold changedKeys
  rw [(List.mergeSort_perm _ _).nodup_iff, List.nodup_append, List.nodup_append]
  refine ⟨⟨ExtTreeMap.nodup_keys, ExtTreeMap.nodup_keys, ?_⟩, ExtTreeMap.nodup_keys, ?_⟩
  · rintro key ha _ hr rfl
    exact (h key).1 ⟨ExtTreeMap.mem_keys.1 ha, ExtTreeMap.mem_keys.1 hr⟩
  · rintro key har _ hc rfl
    rw [List.mem_append, ExtTreeMap.mem_keys, ExtTreeMap.mem_keys] at har
    rw [ExtTreeMap.mem_keys] at hc
    rcases har with ha | hr
    · exact (h key).2.1 ⟨ha, hc⟩
    · exact (h key).2.2 ⟨hr, hc⟩

theorem pairwise_changedKeys (d : TagDiff) : d.changedKeys.Pairwise (· ≤ ·) := by
  have hle (a b : String) : (compare a b).isLE = true ↔ a ≤ b :=
    isLE_compareOfLessAndEq String.le_antisymm String.not_le String.le_total
  refine (List.pairwise_mergeSort ?_ ?_ _).imp fun h => (hle _ _).1 h
  · intro a b c hab hbc
    rw [hle] at *
    exact String.le_trans hab hbc
  · intro a b
    rw [Bool.or_eq_true, hle, hle]
    exact String.le_total a b

/-- A key is in one of the parts if and only if it is not the same on both sides. -/
theorem mem_between_iff (previous next : Option Tags) (key : String) :
    key ∈ (between previous next).changedKeys ↔
      (previous.getD ∅)[key]? ≠ (next.getD ∅)[key]? := by
  simp only [mem_changedKeys, ExtTreeMap.mem_iff_isSome_getElem?, added_between, removed_between,
    changed_between]
  cases (previous.getD ∅)[key]? with
  | none => cases (next.getD ∅)[key]? <;> simp
  | some before =>
    cases (next.getD ∅)[key]? with
    | none => simp
    | some value => by_cases e : before = value <;> simp [e]

end TagDiff

/-- The value of a key in tags that may be absent. -/
theorem Tags.getElem?_getD (tags : Option Tags) (key : String) :
    (tags.getD ∅)[key]? = tags.bind (·[key]?) := by
  cases tags with
  | none => exact ExtTreeMap.getElem?_empty
  | some tags => rfl

/-- The changed keys are the exact difference of two sets of tags. They are in the strict order of their
UTF-8 bytes, so none stands twice, and a key is among them if and only if the two sets answer differently
for it: one of them does not have it, or they have it with different values. -/
theorem changed_keys_are_sorted_difference (previous next : Option Tags) :
    let keys := (TagDiff.between previous next).changedKeys
    keys.Pairwise (fun a b => Stream.ofText a < Stream.ofText b) ∧
      ∀ key : String, key ∈ keys ↔ previous.bind (·[key]?) ≠ next.bind (·[key]?) := by
  have hsorted := TagDiff.pairwise_changedKeys (TagDiff.between previous next)
  have hnodup := TagDiff.nodup_changedKeys (TagDiff.disjoint_between previous next)
  refine ⟨(hsorted.and hnodup).imp ?_, fun key => ?_⟩
  · rintro a b ⟨hle, hne⟩
    exact Stream.ofText_lt_ofText (Std.lt_of_le_of_ne hle hne)
  · rw [TagDiff.mem_between_iff, Tags.getElem?_getD, Tags.getElem?_getD]

end MapAudit
