import MapAudit.Proofs.Database.Mirror
import MapAudit.Proofs.Database.Writes

namespace MapAudit
open Database

namespace Write

def record? : Write → Option ChangeRecord
  | persist r => some r
  | _ => none

def records (ws : List Write) : List ChangeRecord := ws.filterMap record?

def recordsOf (id : Int64) (ws : List Write) : List ChangeRecord :=
  (records ws).filter (·.changesetId = id)

end Write

structure ChangesetRow.OpenedAs (row : ChangesetRow) (c : Changeset) : Prop where
  id : row.id = c.id
  userId : row.userId = .int64 c.userId
  createdAt : row.createdAt = .integer c.createdAt.toMillis

namespace Database
variable {db db' : Database} {c : Changeset} {w : Write} {ws : List Write} {u : Unit}

def Opened (db : Database) (c : Changeset) : Prop :=
  ∃ changesets row, db.changesets = some changesets ∧ changesets[c.id]? = some row ∧ row.OpenedAs c

def Recorded (db : Database) (rs : List ChangeRecord) : Prop :=
  ∃ log, db.changes = some log ∧ List.Forall₂ Logged rs log.rows

theorem opened_of_createChangeset (h : db.Granted (.createChangeset c) db') : db'.Opened c := by
  cases h
  exact ⟨_, _, rfl, Std.ExtTreeMap.getElem?_insert_self, rfl, rfl, rfl⟩

/-- An opened changeset stays as it was opened. -/
theorem Opened.granted (h : db.Opened c) (hw : db.Granted w db') : db'.Opened c := by
  obtain ⟨changesets, row, ht, hrow, hopened⟩ := h
  cases hw with
  | save | persist | addUser | updateUser => exact ⟨changesets, row, ht, hrow, hopened⟩
  | @createChangeset d changesets' ht' hnew =>
    rw [ht] at ht'
    cases ht'
    refine ⟨_, row, rfl, ?_, hopened⟩
    rw [Std.ExtTreeMap.getElem?_insert, if_neg, hrow]
    intro e
    have hmem : c.id ∈ changesets := Std.ExtTreeMap.mem_iff_isSome_getElem?.2 (by simp [hrow])
    exact hnew (Std.LawfulEqCmp.compare_eq_iff_eq.1 e ▸ hmem)
  | @recompute id changesets' log row' ht' hl hrow' =>
    rw [ht] at ht'
    cases ht'
    by_cases e : id = c.id
    · subst e
      rw [hrow] at hrow'
      cases hrow'
      exact ⟨_, _, rfl, Std.ExtTreeMap.getElem?_insert_self, hopened.id, hopened.userId,
        hopened.createdAt⟩
    · refine ⟨_, row, rfl, ?_, hopened⟩
      rw [Std.ExtTreeMap.getElem?_insert, if_neg (mt Std.LawfulEqCmp.compare_eq_iff_eq.1 e), hrow]

theorem opened_of_mem (h : Write.all ws db = .ok u db') (hc : .createChangeset c ∈ ws) :
    db'.Opened c := by
  induction ws generalizing db with
  | nil => cases hc
  | cons w ws ih =>
    obtain ⟨db₁, hw, hws⟩ := Write.all_cons_eq_ok h
    rcases List.mem_cons.1 hc with rfl | hc
    · have hopened := opened_of_createChangeset (granted_of_step hw)
      exact Write.keeps_all (P := (·.Opened c))
        (fun _ _ _ hstep h => h.granted (granted_of_step hstep)) hws hopened
    · exact ih hws hc

/-- No write takes the tables of users and of changesets away. -/
theorem tables_of_all (h : Write.all ws Database.fresh = .ok u db) :
    (∃ users, db.users = some users) ∧ ∃ changesets, db.changesets = some changesets := by
  refine Write.keeps_all (P := fun db : Database => (∃ users, db.users = some users) ∧
    ∃ changesets, db.changesets = some changesets) ?_ h ⟨⟨∅, rfl⟩, ∅, rfl⟩
  rintro w db db' hstep ⟨hu, hc⟩
  cases granted_of_step hstep with
  | save | persist => exact ⟨hu, hc⟩
  | createChangeset | recompute => exact ⟨hu, _, rfl⟩
  | addUser | updateUser => exact ⟨⟨_, rfl⟩, hc⟩

theorem recorded_fresh : Database.fresh.Recorded [] := ⟨{}, rfl, .nil⟩

/-- A granted write adds its record, if it brings one, at the end of the log. -/
theorem Recorded.granted {rs : List ChangeRecord} (h : db.Recorded rs) (hw : db.Granted w db') :
    db'.Recorded (rs ++ w.record?.toList) := by
  obtain ⟨log, hl, hrows⟩ := h
  cases hw with
  | save | createChangeset | recompute | addUser | updateUser =>
    refine ⟨log, hl, ?_⟩
    change List.Forall₂ Logged (rs ++ []) log.rows
    rw [List.append_nil]
    exact hrows
  | persist ht hl' htime =>
    rw [hl] at hl'
    cases hl'
    refine ⟨_, rfl, ?_⟩
    rw [ChangeLog.rows_append]
    exact List.rel_append hrows (.cons ⟨_, htime, rfl⟩ .nil)

theorem Recorded.all {rs : List ChangeRecord} (h : db.Recorded rs)
    (hws : Write.all ws db = .ok u db') : db'.Recorded (rs ++ Write.records ws) :=
  Write.adds_all (P := fun rs db => db.Recorded rs) Write.record?
    (fun _ _ _ _ hstep h => h.granted (granted_of_step hstep)) hws h

/-- The log of a database holds the records that were written to it from the beginning. -/
theorem recorded_of_all (h : Write.all ws Database.fresh = .ok u db) :
    db.Recorded (Write.records ws) :=
  recorded_fresh.all h

end Database

end MapAudit
