import MapAudit.Proofs.Database.Statement

namespace MapAudit

theorem EntityKind.code_injective {a b : EntityKind} (h : a.code = b.code) : a = b := by
  have ha := EntityKind.parseCode_code a
  rw [h, EntityKind.parseCode_code] at ha
  exact (Except.ok.inj ha).symm

theorem keyOrder_eq_iff {a b : EntityKey} : keyOrder a b = .eq ↔ a = b := by
  unfold keyOrder compareLex compareOn
  rw [Ordering.then_eq_eq, Std.LawfulEqCmp.compare_eq_iff_eq, Std.LawfulEqCmp.compare_eq_iff_eq]
  constructor
  · rintro ⟨hkind, hid⟩
    cases a
    cases b
    cases EntityKind.code_injective hkind
    cases hid
    rfl
  · rintro rfl
    exact ⟨rfl, rfl⟩

namespace EntityTable
variable {t : EntityTable}

theorem find?_of_no_strays (h : t.strays = []) (key : EntityKey) :
    t.find? key = t.rows[key]?.map (.ofKey key) := by
  unfold find?
  cases t.rows[key]? with
  | some row => rfl
  | none => simp [h]

@[simp] theorem key?_ofKey (key : EntityKey) (row : EntityRow) :
    (KeyedRow.ofKey key row).key? = some key := by
  have hkind : EntityKind.ofCode? key.kind.code = some key.kind := by
    cases key.kind <;> rfl
  unfold KeyedRow.key? KeyedRow.ofKey
  simp only [hkind, Cell.int64, Option.bind_eq_bind, Option.bind_some, Int64.ofInt_toInt]
  rfl

theorem save_of_no_strays (h : t.strays = []) (key : EntityKey) (row : EntityRow) :
    (t.save key row).strays = [] ∧ (t.save key row).rows = t.rows.insert key row := by
  unfold save
  by_cases hc : t.rows.contains key
  · rw [if_pos hc]
    exact ⟨h, rfl⟩
  · rw [if_neg hc, if_neg (by simp [h])]
    unfold place
    rw [key?_ofKey]
    exact ⟨h, rfl⟩

theorem getElem?_save (h : t.strays = []) (key : EntityKey) (row : EntityRow) (k : EntityKey) :
    (t.save key row).rows[k]? = if key = k then some row else t.rows[k]? := by
  rw [(save_of_no_strays h key row).2, Std.ExtTreeMap.getElem?_insert]
  by_cases e : key = k
  · rw [if_pos e, if_pos (keyOrder_eq_iff.2 e)]
  · rw [if_neg e, if_neg (mt keyOrder_eq_iff.1 e)]

end EntityTable

namespace Database
variable {db : Database} {users : Std.ExtTreeMap Int64 String} {entities : EntityTable}

/-- The name that is joined to the row of a version. -/
theorem authorName_ofSnapshot (users : Std.ExtTreeMap Int64 String) (s : Snapshot) :
    authorName users (.ofSnapshot s) = s.user.bind fun u => users[u.id]? := by
  unfold authorName EntityRow.ofSnapshot
  cases s.user with
  | none => rfl
  | some u =>
    change users[Int64.ofInt u.id.toInt]? = users[u.id]?
    rw [Int64.ofInt_toInt]

/-- The row of a version is read under the key of the version. -/
theorem entity?_eq (hu : db.users = some users) (he : db.entities = some entities)
    (hstrays : entities.strays = []) {key : EntityKey} {found : Option Snapshot}
    (hrow : entities.rows[key]? = found.map .ofSnapshot)
    (hfound : ∀ s ∈ found, s.key = key ∧ s.Storable) :
    db.entity? key = .ok (found.map fun s => s.restored (s.user.bind fun u => users[u.id]?)) := by
  unfold entity?
  rw [table_of_some he, table_of_some hu, Except.ok_bind, Except.ok_bind,
    EntityTable.find?_of_no_strays hstrays, hrow]
  cases found with
  | none => rfl
  | some s =>
    obtain ⟨rfl, hstorable⟩ := hfound s rfl
    change ((Cell.int64 s.key.id).toInt64 >>= fun id =>
      (EntityRow.ofSnapshot s).toSnapshot ⟨s.key.kind, id⟩
        (authorName users (.ofSnapshot s))).map some = _
    rw [Row.toInt64_int64, Except.ok_bind, authorName_ofSnapshot]
    change ((EntityRow.ofSnapshot s).toSnapshot s.key _).map some = _
    rw [EntityRow.toSnapshot_ofSnapshot hstorable]
    rfl

end Database

namespace ChangeLog
variable {l : ChangeLog}

theorem find?_count (last : Int) {cs : List Counter} (h : cs.any (·.ofLog) = true) :
    ((count last cs).find? (·.ofLog)).elim 0 (·.last) = last := by
  induction cs with
  | nil => cases h
  | cons c cs ih =>
    unfold count
    cases hc : c.ofLog with
    | true => simp
    | false =>
      have hcs : cs.any (·.ofLog) = true := by simpa [hc] using h
      rw [if_neg Bool.false_ne_true, List.find?_cons_of_neg (by simp [hc])]
      exact ih hcs

theorem lastId_counted (l : ChangeLog) (id : Int) : (l.counted id).lastId = max l.lastId id := by
  unfold counted
  by_cases h : l.counters.any (·.ofLog) = true
  · rw [if_pos h]
    exact find?_count _ h
  · have hnone (cs : List Counter) (hcs : ∀ c ∈ cs, c ∈ l.counters) :
        cs.find? (·.ofLog) = none := by
      rw [List.find?_eq_none]
      exact fun c hc he => h (List.any_eq_true.2 ⟨c, hcs c hc, he⟩)
    have hzero : l.lastId = 0 := by
      unfold lastId
      rw [hnone l.counters fun c hc => hc]
      rfl
    -- The new counter is the first of the log, wherever it is put in.
    rw [if_neg h, hzero]
    unfold addCounter lastId
    dsimp only
    rw [List.find?_append, hnone _ fun c hc => (List.takeWhile_sublist _).subset hc]
    rfl

@[simp] theorem lastId_append (l : ChangeLog) (row : ChangeRow) :
    (l.append row).lastId = max l.lastId row.id :=
  l.lastId_counted row.id

/-- No number was brought along, so the rows are numbered from one on. -/
structure Counted (l : ChangeLog) : Prop where
  numbered : l.numbered = false
  lastId : l.lastId = l.rows.length
  newest : ∀ row ∈ l.newestFirst.head?, row.id ≤ l.lastId

theorem Counted.empty : Counted {} where
  numbered := rfl
  lastId := rfl
  newest row h := by cases h

theorem Counted.max_eq (h : l.Counted) :
    max l.lastId (l.newestFirst.head?.elim 0 (·.id)) = l.rows.length := by
  have hlast := h.lastId
  cases hhead : l.newestFirst.head? with
  | none =>
    rw [Option.elim_none]
    omega
  | some row =>
    have := h.newest row hhead
    rw [Option.elim_some]
    omega

theorem Counted.nextId?_eq (h : l.Counted) : l.nextId? = some (l.rows.length + 1 : Int) := by
  unfold nextId?
  rw [h.max_eq, h.numbered]
  rfl

/-- A limit to the numbers makes no difference as long as there are fewer rows than numbers. -/
theorem Counted.nextId?_of_numbered (h : l.Counted)
    (hroom : (l.rows.length : Int) < Int64.maxValue.toInt) :
    ({ l with numbered := true } : ChangeLog).nextId? = l.nextId? := by
  rw [h.nextId?_eq]
  unfold nextId?
  change (if true && decide (Int64.maxValue.toInt ≤ max l.lastId (l.newestFirst.head?.elim 0 (·.id)))
    then none else some (max l.lastId (l.newestFirst.head?.elim 0 (·.id)) + 1)) = _
  rw [h.max_eq, Bool.true_and, if_neg (by simpa using hroom)]

theorem Counted.append (h : l.Counted) {row : ChangeRow} (hid : row.id = l.rows.length + 1) :
    (l.append row).Counted where
  numbered := by
    unfold ChangeLog.append counted
    dsimp only
    split <;> exact h.numbered
  lastId := by
    have := h.lastId
    rw [lastId_append, rows_append, List.length_append, List.length_singleton]
    omega
  newest r hr := by
    obtain rfl : row = r := Option.some.inj hr
    rw [lastId_append]
    exact Int.le_max_right _ _

end ChangeLog

end MapAudit
