import Mathlib.Data.List.Nodup
import MapAudit.Proofs.Database.Definitions

namespace MapAudit

namespace History
variable {h : History} {m n : AppliedMigration} {id : String}

theorem mem_ids : id ∈ h.ids ↔ ∃ m ∈ h.rows, m.id = id := List.mem_map

theorem count_eq (h : History) (id : String) : h.count id = h.ids.count id := by
  unfold count ids
  rw [List.count_eq_countP, List.countP_map]
  rfl

/-- No migration is recorded twice. -/
theorem count_eq_one_iff : h.count id = 1 ↔ id ∈ h.ids := by
  rw [count_eq]
  constructor
  · intro hone
    exact List.count_pos_iff.1 (hone ▸ Nat.one_pos)
  · exact List.count_eq_one_of_mem h.nodup

theorem mem_rows_add (hnew : m.id ∉ h.ids) : n ∈ (h.add m).rows ↔ n ∈ h.rows ∨ n = m := by
  have hrows : (h.add m).rows = h.rows.takeWhile (·.number ≤ m.number) ++
      m :: h.rows.dropWhile (·.number ≤ m.number) := congrArg rows (dif_neg hnew)
  rw [hrows, List.mem_append, List.mem_cons, or_left_comm, ← List.mem_append,
    List.takeWhile_append_dropWhile, or_comm]

/-- What is recorded already stays as it is. -/
theorem rows_sublist_add (h : History) (m : AppliedMigration) :
    h.rows.Sublist (h.add m).rows := by
  unfold add
  split
  · exact .refl _
  · have hsub := (List.Sublist.refl (h.rows.takeWhile (·.number ≤ m.number))).append
      (List.sublist_cons_self m (h.rows.dropWhile (·.number ≤ m.number)))
    rwa [List.takeWhile_append_dropWhile] at hsub

end History

namespace Database

def withHistory (db : Database) : Database := { db with migrations := some db.history }

def IsPending (db : Database) (s : Script) : Prop := s.id ∉ db.history.ids

instance (db : Database) (s : Script) : Decidable (db.IsPending s) :=
  inferInstanceAs (Decidable (¬_))

def pending (db : Database) (ss : List Script) : List Script := ss.filter (db.IsPending ·)

def IsRecordedWith (db : Database) (s : Script) (checksum : String) : Prop :=
  ∃ m ∈ db.history.rows, m.id = s.id ∧ m.checksum = some checksum

/-- The script is recorded with the checksum of another text. -/
def IsEdited (db : Database) (s : Script) : Prop :=
  ∃ c, db.IsRecordedWith s c ∧ c ≠ Sha256.ofText s.text

variable {db db' : Database} {s t : Script} {done : List Script}

theorem pending_cons_of_pos (h : db.IsPending s) : db.pending (s :: done) = s :: db.pending done :=
  List.filter_cons_of_pos (by simpa using h)

theorem pending_cons_of_neg (h : ¬db.IsPending s) : db.pending (s :: done) = db.pending done :=
  List.filter_cons_of_neg (by simpa using h)

theorem not_isPending_of_isRecordedWith {c : String} (h : db.IsRecordedWith s c) :
    ¬db.IsPending s := by
  obtain ⟨m, hm, hid, -⟩ := h
  exact fun hpending => hpending (History.mem_ids.2 ⟨m, hm, hid⟩)

inductive Takes (db : Database) (s : Script) : Except Failure (Option Database) → Prop
  | pass (hrecorded : ¬db.IsPending s) (hintact : ¬db.IsEdited s) : Takes db s (.ok none)
  | refuse {c : String} (hrecorded : db.IsRecordedWith s c) (hedited : c ≠ Sha256.ofText s.text) :
    Takes db s (.error (.checksumMismatch s.id c (Sha256.ofText s.text)))
  | stop {reason : String} (hpending : db.IsPending s)
    (hreason : db.defineAll s.definitions = .error reason) :
    Takes db s (.error (.migration s.id reason))
  | run (hpending : db.IsPending s) (hnew : ∀ d ∈ s.definitions, ¬db.Defines d) :
    Takes db s (.ok (some ((db.extended s.definitions).record s)))

section record
variable (hpending : db.IsPending s)
include hpending

theorem mem_rows_record (ds : List Definition) {m : AppliedMigration} :
    m ∈ ((db.extended ds).record s).history.rows ↔
      m ∈ db.history.rows ∨ m = ⟨db.history.nextNumber, s.id, some (Sha256.ofText s.text)⟩ :=
  History.mem_rows_add hpending

theorem isPending_record (ds : List Definition) :
    ((db.extended ds).record s).IsPending t ↔ db.IsPending t ∧ s.id ≠ t.id := by
  unfold IsPending
  rw [History.mem_ids, History.mem_ids, ← not_or, not_iff_not]
  simp only [mem_rows_record hpending, or_and_right, exists_or, exists_eq_left]

theorem pending_record (ds : List Definition) (hids : ∀ t ∈ done, s.id ≠ t.id) :
    ((db.extended ds).record s).pending done = db.pending done :=
  List.filter_congr fun t ht => by simp [isPending_record hpending, hids t ht]

theorem isRecordedWith_record (ds : List Definition) {c : String} (hne : s.id ≠ t.id) :
    ((db.extended ds).record s).IsRecordedWith t c ↔ db.IsRecordedWith t c := by
  unfold IsRecordedWith
  simp only [mem_rows_record hpending, or_and_right, exists_or, exists_eq_left, hne, false_and,
    or_false]

end record

/-- A database that the scripts `done` were applied to, and nothing else. None of them was edited. Those
that were pending were new in all of their parts, and now these parts are in place; tables that were there
before have not changed. Each of the scripts is recorded once: those that were pending with their
checksums, and the others as they were before. -/
structure Brought (db : Database) (done : List Script) (db' : Database) : Prop where
  intact : ∀ s ∈ done, ¬db.IsEdited s
  fresh : ∀ s ∈ db.pending done, ∀ d ∈ s.definitions, ¬db.Defines d
  defined : db' = { db.extended ((db.pending done).flatMap (·.definitions)) with
    migrations := some db'.history }
  kept : db.history.rows.Sublist db'.history.rows
  added : ∀ m ∈ db'.history.rows, m ∈ db.history.rows ∨
    ∃ s ∈ db.pending done, m.id = s.id ∧ m.checksum = some (Sha256.ofText s.text)
  recorded : ∀ s ∈ done, db'.history.count s.id = 1

namespace Brought

theorem nil (h : db.migrations = some db.history) : db.Brought [] db where
  intact s hs := absurd hs List.not_mem_nil
  fresh s hs := absurd hs List.not_mem_nil
  defined := by
    change db = { db.extended [] with migrations := some db.history }
    rw [extended_nil, ← h]
  kept := .refl _
  added m hm := .inl hm
  recorded s hs := absurd hs List.not_mem_nil

/-- A script that is recorded is passed. -/
theorem pass (hrecorded : ¬db.IsPending s) (hintact : ¬db.IsEdited s) (h : db.Brought done db') :
    db.Brought (s :: done) db' := by
  constructor
  · exact List.forall_mem_cons.2 ⟨hintact, h.intact⟩
  · rw [pending_cons_of_neg hrecorded]
    exact h.fresh
  · rw [pending_cons_of_neg hrecorded]
    exact h.defined
  · exact h.kept
  · rw [pending_cons_of_neg hrecorded]
    exact h.added
  · refine List.forall_mem_cons.2 ⟨?_, h.recorded⟩
    rw [History.count_eq_one_iff]
    exact (h.kept.map _).subset (not_not.1 hrecorded)

/-- A script that is pending is run, and then the others are applied. -/
theorem run (hpending : db.IsPending s) (hnew : ∀ d ∈ s.definitions, ¬db.Defines d)
    (hids : ∀ t ∈ done, s.id ≠ t.id)
    (h : ((db.extended s.definitions).record s).Brought done db') :
    db.Brought (s :: done) db' := by
  have hcons : db.pending (s :: done) = s :: db.pending done := pending_cons_of_pos hpending
  have hrest := pending_record hpending s.definitions hids
  have hrow := (mem_rows_record hpending s.definitions).2 (.inr rfl)
  constructor
  · -- A script that was not recorded cannot have been edited, and for the others nothing has
    -- changed.
    refine List.forall_mem_cons.2 ⟨fun ⟨c, hc, _⟩ => ?_, fun t ht ⟨c, hc, hne⟩ => ?_⟩
    · exact not_isPending_of_isRecordedWith hc hpending
    · exact h.intact t ht ⟨c, (isRecordedWith_record hpending _ (hids t ht)).2 hc, hne⟩
  · rw [hcons]
    refine List.forall_mem_cons.2 ⟨hnew, fun t ht d hd hdefined => ?_⟩
    exact h.fresh t (hrest ▸ ht) d hd (defines_extended.2 (.inl hdefined))
  · rw [hcons, List.flatMap_cons, ← extended_extended, ← hrest]
    exact h.defined
  · exact (History.rows_sublist_add _ _).trans h.kept
  · rw [hcons]
    intro m hm
    rcases h.added m hm with hm | ⟨t, ht, hid, hchecksum⟩
    · rcases (mem_rows_record hpending s.definitions).1 hm with hm | rfl
      · exact .inl hm
      · exact .inr ⟨s, List.mem_cons_self, rfl, rfl⟩
    · exact .inr ⟨t, List.mem_cons_of_mem s (hrest ▸ ht), hid, hchecksum⟩
  · refine List.forall_mem_cons.2 ⟨?_, h.recorded⟩
    rw [History.count_eq_one_iff, History.mem_ids]
    exact ⟨_, h.kept.subset hrow, rfl⟩

end Brought

end Database

end MapAudit
