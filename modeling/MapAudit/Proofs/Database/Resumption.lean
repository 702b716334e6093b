import MapAudit.Proofs.Database.Migration

namespace MapAudit

namespace Database
variable {db db' : Database} {s : Script} {ss done : List Script} {f : Failure}

theorem upgrade_cons_of_none (h : db.applyScript s = .ok none) :
    db.upgrade (s :: ss) = db.upgrade ss := by
  conv_lhs => unfold upgrade
  rw [h]

theorem upgrade_cons_of_some (h : db.applyScript s = .ok (some db')) :
    db.upgrade (s :: ss) =
      { db'.upgrade ss with applied := s.id :: (db'.upgrade ss).applied } := by
  conv_lhs => unfold upgrade
  rw [h]

/-- An attempt that came through the scripts `done`, and no further. -/
structure Reached (db : Database) (done : List Script) (u : Upgrade) : Prop where
  brought : db.Brought done u.database
  /-- These scripts alone bring the database as far. -/
  alone : db.withHistory.upgrade done = { u with failure := none }
  applied : u.applied = (db.pending done).map (·.id)

theorem withHistory_eq (h : db.migrations = some db.history) : db.withHistory = db := by
  unfold withHistory
  rw [← h]

namespace Reached
variable {u : Upgrade}

theorem nil (h : db.migrations = some db.history) (f : Option Failure) :
    db.Reached [] { database := db, failure := f } where
  brought := .nil h
  alone := by
    rw [withHistory_eq h]
    rfl
  applied := rfl

theorem pass (happly : db.withHistory.applyScript s = .ok none) (hrecorded : ¬db.IsPending s)
    (hintact : ¬db.IsEdited s) (h : db.Reached done u) : db.Reached (s :: done) u where
  brought := h.brought.pass hrecorded hintact
  alone := by rw [upgrade_cons_of_none happly, h.alone]
  applied := by rw [h.applied, pending_cons_of_neg hrecorded]

theorem run (hrun : db.withHistory.applyScript s =
      .ok (some ((db.extended s.definitions).record s)))
    (hpending : db.IsPending s) (hnew : ∀ d ∈ s.definitions, ¬db.Defines d)
    (hids : ∀ t ∈ done, s.id ≠ t.id)
    (h : ((db.extended s.definitions).record s).Reached done u) :
    db.Reached (s :: done) { u with applied := s.id :: u.applied } where
  brought := h.brought.run hpending hnew hids
  alone := by
    have hrest := h.alone
    rw [withHistory_eq rfl] at hrest
    rw [upgrade_cons_of_some hrun, hrest]
  applied := by
    rw [pending_cons_of_pos hpending, List.map_cons, h.applied,
      pending_record hpending s.definitions hids]

end Reached

end Database
open Database

end MapAudit
