import MapAudit.Changeset.Ledger

namespace MapAudit

namespace IdQueue

theorem toList_push (q : IdQueue) (id : Int64) (h : q.contains id = false) :
    (q.push id h).toList = q.toList ++ [id] := by
  simp [toList, push]

theorem toList_insert (q : IdQueue) (id : Int64) :
    (q.insert id).toList = if id ∈ q.toList then q.toList else q.toList ++ [id] := by
  have hc : q.contains id = true ↔ id ∈ q.toList := contains_iff
  unfold insert
  by_cases h : q.contains id = false
  · rw [dif_pos h, toList_push, if_neg (by simp [← hc, h])]
  · rw [dif_neg h, if_pos (hc.1 (by simpa using h))]

@[simp] theorem mem_insert {q : IdQueue} {id x : Int64} :
    x ∈ (q.insert id).toList ↔ x ∈ q.toList ∨ x = id := by
  rw [toList_insert]
  split
  · grind
  · simp

theorem toList_rotate (q : IdQueue) : q.rotate.toList = q.toList := by
  unfold rotate
  split
  · next h => simp [toList, h]
  · rfl

/-- The oldest id is the head of the list. -/
theorem toList_of_pop? {q rest : IdQueue} {id : Int64} (h : q.pop? = some (id, rest)) :
    q.toList = id :: rest.toList := by
  rw [← toList_rotate]
  unfold pop? at h
  simp only at h
  split at h
  · cases h
  · next hf =>
    cases h
    simp [toList, hf]

/-- Only an empty queue has no oldest id. -/
theorem toList_of_pop?_eq_none {q : IdQueue} (h : q.pop? = none) : q.toList = [] := by
  unfold pop? at h
  simp only at h
  split at h
  · next hfront =>
    rw [← toList_rotate]
    unfold rotate at hfront ⊢
    split at hfront
    · next hf =>
      -- Rotating moved all newer ids to the front, and nothing is there.
      simpa [hf, toList] using hfront
    · next hf => simp [hf] at hfront
  · cases h

theorem nodup_toList (q : IdQueue) : q.toList.Nodup := q.nodup

end IdQueue

namespace Window

theorem contains_iff_mem {w : Window} {id : Int64} : w.contains id = true ↔ id ∈ w.toList :=
  IdQueue.contains_iff

theorem insert_of_contains {w : Window} {id : Int64} (h : w.contains id = true) :
    w.insert id = (none, w) :=
  if_pos h

theorem size_eq (w : Window) : w.size = w.toList.length := w.ids.size_eq

/-- What an insertion does. A present id keeps its place; a new one becomes the newest, and if there is
no room for it the oldest leaves. -/
theorem insert_cases (w : Window) (id : Int64) :
    (w.contains id = true ∧ w.insert id = (none, w)) ∨
    (w.contains id = false ∧ w.toList.length < w.capacity ∧
      ∃ ids : IdQueue, w.insert id = (none, { w with ids }) ∧ ids.toList = w.toList ++ [id]) ∨
    (w.contains id = false ∧ w.capacity ≤ w.toList.length ∧
      ∃ oldest rest, ∃ ids : IdQueue, w.toList = oldest :: rest ∧
        w.insert id = (some oldest, { w with ids }) ∧ ids.toList = rest ++ [id]) := by
  by_cases hc : w.contains id = true
  · exact .inl ⟨hc, insert_of_contains hc⟩
  have habsent : w.contains id = false := Bool.eq_false_iff.2 hc
  have hmem : id ∉ w.ids.toList := mt contains_iff_mem.2 hc
  unfold insert
  rw [if_neg hc, size_eq]
  by_cases hroom : w.toList.length < w.capacity
  · refine .inr (.inl ⟨habsent, hroom, w.ids.insert id, if_pos hroom, ?_⟩)
    rw [IdQueue.toList_insert, if_neg hmem]
    rfl
  · have hfull : w.capacity ≤ w.toList.length := Nat.le_of_not_lt hroom
    refine .inr (.inr ⟨habsent, hfull, ?_⟩)
    rw [if_neg hroom]
    cases hp : w.ids.pop? with
    | none =>
      -- A full window is not empty.
      have hempty : w.toList = [] := IdQueue.toList_of_pop?_eq_none hp
      rw [hempty] at hfull
      exact absurd w.capacity_pos (Nat.not_lt_of_le hfull)
    | some popped =>
      obtain ⟨oldest, ids⟩ := popped
      have hlist : w.ids.toList = oldest :: ids.toList := IdQueue.toList_of_pop? hp
      have hnew : id ∉ ids.toList := fun h => hmem (hlist ▸ List.mem_cons_of_mem _ h)
      refine ⟨oldest, ids.toList, ids.insert id, hlist, rfl, ?_⟩
      rw [IdQueue.toList_insert, if_neg hnew]

/-- An inserted id is remembered, whichever id had to leave for it. -/
theorem mem_insert_self (w : Window) (id : Int64) : id ∈ (w.insert id).2.toList := by
  rcases w.insert_cases id with
    ⟨hc, h⟩ | ⟨-, -, ids, h, hids⟩ | ⟨-, -, oldest, rest, ids, -, h, hids⟩
  · rw [h]
    exact contains_iff_mem.1 hc
  · rw [h]
    change id ∈ ids.toList
    simp [hids]
  · rw [h]
    change id ∈ ids.toList
    simp [hids]

/-- What a window remembers after an insertion was there before or is the new id. -/
theorem mem_of_mem_insert {w : Window} {id x : Int64} (h : x ∈ (w.insert id).2.toList) :
    x ∈ w.toList ∨ x = id := by
  rcases w.insert_cases id with
    ⟨-, hi⟩ | ⟨-, -, ids, hi, hids⟩ | ⟨-, -, oldest, rest, ids, hlist, hi, hids⟩
  · rw [hi] at h
    exact .inl h
  · rw [hi] at h
    change x ∈ ids.toList at h
    rw [hids] at h
    exact (List.mem_append.1 h).imp_right List.mem_singleton.1
  · rw [hi] at h
    change x ∈ ids.toList at h
    rw [hids] at h
    rw [hlist]
    exact (List.mem_append.1 h).imp (List.mem_cons_of_mem _) List.mem_singleton.1

end Window

end MapAudit
