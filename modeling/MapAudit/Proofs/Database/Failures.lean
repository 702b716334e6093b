import MapAudit.Proofs.Database.Statement
import MapAudit.Proofs.Run.Stages
import MapAudit.Run.Authors

namespace MapAudit

structure Failure.Bare (f : Failure) : Prop where
  entity : f.entity = none
  changesetId : f.changesetId = none

/-- A computation that gives a value or a bare failure. -/
def Bare (x : Except Failure α) : Prop := ∀ f, x = .error f → f.Bare

section bare
variable {α β : Type}

theorem bare_ok (a : α) : Bare (.ok a) := by
  intro f h
  cases h

theorem bare_error {f : Failure} (h : f.Bare) : Bare (.error f : Except Failure α) := by
  intro g hg
  cases hg
  exact h

theorem Bare.bind {x : Except Failure α} {f : α → Except Failure β} (hx : Bare x)
    (hf : ∀ a, Bare (f a)) : Bare (x >>= f) := by
  intro g h
  rcases Except.bind_eq_error h with h | ⟨a, -, h⟩
  · exact hx g h
  · exact hf a g h

theorem Bare.map {x : Except Failure α} (h : Bare x) (f : α → β) : Bare (x.map f) := by
  intro g hg
  cases x with
  | error f => exact h g (by cases hg; rfl)
  | ok a => cases hg

end bare

theorem Failure.Bare.statement (reason : String) : (Failure.statement reason).Bare := ⟨rfl, rfl⟩

theorem Failure.Bare.constraint (reason : String) : (Failure.constraint reason).Bare := ⟨rfl, rfl⟩

theorem Cell.bare_toInt (c : Cell) : Bare c.toInt := by
  cases c with
  | integer i => exact bare_ok i
  | real | text => exact bare_error (.statement _)

theorem Cell.bare_toInt64 (c : Cell) : Bare c.toInt64 := c.bare_toInt.map _

theorem Cell.bare_toBool (c : Cell) : Bare c.toBool := c.bare_toInt.map _

namespace Row

theorem bare_instant (table : String) (millis : Int) : Bare (instant table millis) := by
  unfold instant
  split
  · exact bare_ok _
  · exact bare_error ⟨rfl, rfl⟩

theorem bare_value {α : Type} [Codec α] (column text : String) :
    Bare (value column text : Except Failure α) := by
  unfold value
  split
  · exact bare_ok _
  · exact bare_error ⟨rfl, rfl⟩

theorem bare_optional {α β : Type} {read : α → Except Failure β} (h : ∀ a, Bare (read a))
    (a : Option α) : Bare (optional read a) := by
  cases a with
  | none => exact bare_ok none
  | some a => exact (h a).map some

end Row

theorem EntityRow.bare_toSnapshot (r : EntityRow) (key : EntityKey) (userName : Option String) :
    Bare (r.toSnapshot key userName) := by
  unfold toSnapshot
  refine r.version.bare_toInt64.bind fun _ => ?_
  refine r.changesetId.bare_toInt64.bind fun _ => ?_
  refine (Row.bare_optional Cell.bare_toInt _).bind fun _ => ?_
  refine (Row.bare_optional Cell.bare_toInt64 _).bind fun _ => ?_
  refine r.visible.bare_toBool.bind fun _ => ?_
  refine (Row.bare_optional (Row.bare_instant _) _).bind fun _ => ?_
  refine (Row.bare_value _ _).bind fun _ => ?_
  refine (Row.bare_optional (Row.bare_value _) _).bind fun _ => ?_
  refine (Row.bare_value _ _).bind fun _ => ?_
  exact bare_ok _

namespace Database
variable (db : Database)

theorem bare_table {α : Type} (name : String) (t : Option α) : Bare (table name t) := by
  cases t with
  | none => exact bare_error (.statement _)
  | some a => exact bare_ok a

theorem bare_entity? (key : EntityKey) : Bare (db.entity? key) := by
  unfold entity?
  refine (bare_table _ _).bind fun _ => ?_
  refine (bare_table _ _).bind fun _ => ?_
  refine Row.bare_optional (fun r => ?_) _
  exact r.id.bare_toInt64.bind fun _ => r.row.bare_toSnapshot _ _

theorem bare_user? (id : Int64) : Bare (db.user? id) :=
  (bare_table _ _).bind fun _ => bare_ok _

theorem bare_hasChangeset (id : Int64) : Bare (db.hasChangeset id) :=
  (bare_table _ _).bind fun _ => bare_ok _

theorem bare_check (l : Choice) (text : String) : Bare (l.check text) := by
  unfold Choice.check
  split
  · exact bare_ok _
  · exact bare_error (.constraint _)

theorem bare_saveEntity (s : Snapshot) : Bare (db.saveEntity s) := by
  unfold saveEntity
  refine (bare_table _ _).bind fun _ => (bare_check _ _).bind fun _ => ?_
  split
  · exact (bare_error (.constraint _)).bind fun _ => bare_ok _
  · exact bare_ok _

theorem bare_addChangeset (c : Changeset) : Bare (db.addChangeset c) := by
  unfold addChangeset
  refine (bare_table _ _).bind fun _ => ?_
  split
  · exact (bare_error (.constraint _)).bind fun _ => bare_ok _
  · exact bare_ok _

theorem bare_checkReference (id : Int64) : Bare (db.checkReference id) := by
  unfold checkReference
  refine (bare_table _ _).bind fun _ => ?_
  split
  · exact bare_ok _
  · exact bare_error (.constraint _)

theorem bare_addChange (r : ChangeRecord) (time : Time.Instant) : Bare (db.addChange r time) := by
  unfold addChange nextChangeId
  refine (bare_table _ _).bind fun log => ?_
  refine Bare.bind ?_ fun _ => (bare_check _ _).bind fun _ => (bare_check _ _).bind fun _ =>
    (db.bare_checkReference _).bind fun _ => bare_ok _
  split
  · exact bare_ok _
  · exact bare_error (.statement _)

theorem bare_addUser (u : User) : Bare (db.addUser u) := by
  unfold addUser
  refine (bare_table _ _).bind fun _ => ?_
  split
  · exact (bare_error (.constraint _)).bind fun _ => bare_ok _
  · exact bare_ok _

theorem bare_renameUser (u : User) : Bare (db.renameUser u) :=
  (bare_table _ _).bind fun _ => bare_ok _

end Database

/-- Nothing that is done about an author fails but of the tables. -/
theorem Authors.bare_bringUpToDate {u : User} {db db' : Database} {f : Failure}
    (h : bringUpToDate u db = .error f db') : f.Bare := by
  rcases bind_eq_error h with h | ⟨stored, db₁, -, h⟩
  · exact db.bare_user? u.id f (Database.asking_eq_error h)
  · cases stored with
    | none =>
      rcases bind_eq_error h with h | ⟨_, _, -, h⟩
      · exact db₁.bare_addUser u f (Database.writing_eq_error h)
      · cases h
    | some stored =>
      dsimp only at h
      split at h
      · cases h
      · rcases bind_eq_error h with h | ⟨_, _, -, h⟩
        · exact db₁.bare_renameUser u f (Database.writing_eq_error h)
        · cases h

end MapAudit
