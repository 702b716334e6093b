import MapAudit.Change.TagDiff

namespace MapAudit.TagDiff
open Std

variable (previous next : Option Tags) (key : String)

theorem added_between :
    (between previous next).added[key]? =
      if (previous.getD ∅)[key]?.isSome then none else (next.getD ∅)[key]? := by
  change ((next.getD ∅).filter fun k _ => !(previous.getD ∅).contains k)[key]? = _
  rw [ExtTreeMap.getElem?_filter', ExtTreeMap.isSome_getElem?_eq_contains]
  cases (next.getD ∅)[key]? <;> cases (previous.getD ∅).contains key <;> rfl

theorem removed_between :
    (between previous next).removed[key]? =
      if (next.getD ∅)[key]?.isSome then none else (previous.getD ∅)[key]? := by
  change ((previous.getD ∅).filter fun k _ => !(next.getD ∅).contains k)[key]? = _
  rw [ExtTreeMap.getElem?_filter', ExtTreeMap.isSome_getElem?_eq_contains]
  cases (previous.getD ∅)[key]? <;> cases (next.getD ∅).contains key <;> rfl

theorem changed_between :
    (between previous next).changed[key]? =
      (next.getD ∅)[key]?.bind fun value =>
        (previous.getD ∅)[key]?.bind fun before =>
          if before = value then none else some ⟨before, value⟩ := by
  change ((next.getD ∅).filterMap _)[key]? = _
  rw [ExtTreeMap.getElem?_filterMap']
  cases (next.getD ∅)[key]? with
  | none => rfl
  | some value => cases (previous.getD ∅)[key]? <;> rfl

/-- No key is in two parts of a comparison. -/
theorem disjoint_between :
    let d := between previous next
    ¬(key ∈ d.added ∧ key ∈ d.removed) ∧ ¬(key ∈ d.added ∧ key ∈ d.changed) ∧
      ¬(key ∈ d.removed ∧ key ∈ d.changed) := by
  simp only [ExtTreeMap.mem_iff_isSome_getElem?, added_between, removed_between, changed_between]
  -- A key that both sides have may be changed; one that only one side has is added or removed.
  cases (previous.getD ∅)[key]? <;> cases (next.getD ∅)[key]? <;> simp

theorem isEqual_between :
    (between previous next).isEqual = true ↔ previous.getD ∅ = next.getD ∅ := by
  unfold isEqual
  simp only [Bool.and_eq_true, ExtTreeMap.isEmpty_iff]
  constructor
  · rintro ⟨⟨ha, hr⟩, hc⟩
    apply ExtTreeMap.ext_getElem?
    intro key
    have ha := ha ▸ added_between previous next key
    have hr := hr ▸ removed_between previous next key
    have hc := hc ▸ changed_between previous next key
    rw [ExtTreeMap.getElem?_empty] at ha hr hc
    -- The key is in no part of the comparison, so both maps agree on it.
    cases hp : (previous.getD ∅)[key]? with
    | none => simpa [hp] using ha
    | some before =>
      cases hn : (next.getD ∅)[key]? with
      | none => simp [hp, hn] at hr
      | some value =>
        by_cases e : before = value
        · rw [e]
        · simp [hp, hn, e] at hc
  · intro h
    refine ⟨⟨?_, ?_⟩, ?_⟩ <;> apply ExtTreeMap.ext_getElem? <;> intro key
    · rw [added_between, h]
      cases (next.getD ∅)[key]? <;> rfl
    · rw [removed_between, h]
      cases (next.getD ∅)[key]? <;> rfl
    · rw [changed_between, h]
      cases (next.getD ∅)[key]? <;> simp

end MapAudit.TagDiff
