import MapAudit.Database.Migration
import MapAudit.Proofs.Database.Row

namespace MapAudit

def Definition.index? : Definition → Option Index
  | .table _ => none
  | .index i => some i

namespace Database

def Defines (db : Database) : Definition → Prop
  | .table t => db.hasTable t = true
  | .index i => i ∈ db.indexes

/-- The database with definitions added. A table that was not there is empty; nothing else is
changed. -/
def extended (db : Database) (ds : List Definition) : Database where
  users := db.users.or (if .table .users ∈ ds then some ∅ else none)
  changesets := db.changesets.or (if .table .changesets ∈ ds then some ∅ else none)
  entities := db.entities.or (if .table .entities ∈ ds then some {} else none)
  changes := db.changes.or (if .table .changes ∈ ds then some {} else none)
  indexes := db.indexes ++ ds.filterMap Definition.index?
  migrations := db.migrations

variable {db db' : Database} {d : Definition} {ds : List Definition}

@[simp] theorem extended_nil (db : Database) : db.extended [] = db := by
  simp [extended]

theorem or_ite_or {α : Type} (a : Option α) (b : α) (p q : Prop) [Decidable p] [Decidable q] :
    (a.or (if p then some b else none)).or (if q then some b else none) =
      a.or (if p ∨ q then some b else none) := by
  cases a with
  | some a => rfl
  | none => by_cases hp : p <;> simp [hp]

theorem extended_extended (db : Database) (ds es : List Definition) :
    (db.extended ds).extended es = db.extended (ds ++ es) := by
  simp only [extended, or_ite_or, List.mem_append, List.filterMap_append, List.append_assoc]

theorem defines_extended : (db.extended ds).Defines d ↔ db.Defines d ∨ d ∈ ds := by
  cases d with
  | table t => cases t <;> simp [Defines, hasTable, extended]
  | index i =>
    have hmem : i ∈ ds.filterMap Definition.index? ↔ .index i ∈ ds := by
      rw [List.mem_filterMap]
      constructor
      · rintro ⟨d, hd, hi⟩
        cases d with
        | table t => cases hi
        | index j =>
          cases hi
          exact hd
      · exact fun hi => ⟨.index i, hi, rfl⟩
    change i ∈ db.indexes ++ ds.filterMap Definition.index? ↔ i ∈ db.indexes ∨ .index i ∈ ds
    rw [List.mem_append, hmem]

end Database

end MapAudit
