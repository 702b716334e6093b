import MapAudit.Proofs.Database.Chronicle
import MapAudit.Proofs.Database.Mirroring

namespace MapAudit
open Database

namespace Snapshot

def lastOf (key : EntityKey) (versions : List Snapshot) : Option Snapshot :=
  (versions.filter (·.key = key)).getLast?

variable {key : EntityKey} {versions : List Snapshot} {s : Snapshot}

theorem mem_of_lastOf (h : lastOf key versions = some s) : s ∈ versions ∧ s.key = key := by
  obtain ⟨hs, hkey⟩ := List.mem_filter.1 (List.mem_of_getLast? h)
  exact ⟨hs, of_decide_eq_true hkey⟩

theorem lastOf_concat (key : EntityKey) (versions : List Snapshot) (s : Snapshot) :
    lastOf key (versions ++ [s]) = if s.key = key then some s else lastOf key versions := by
  unfold lastOf
  rw [List.filter_append]
  by_cases e : s.key = key
  · simp [e]
  · simp [e]

end Snapshot

namespace Write

def version? : Write → Option Snapshot
  | save s => some s
  | _ => none

def versions (ws : List Write) : List Snapshot := ws.filterMap version?

theorem mem_versions {s : Snapshot} {ws : List Write} (h : s ∈ versions ws) : .save s ∈ ws := by
  obtain ⟨w, hw, hs⟩ := List.mem_filterMap.1 h
  cases w with
  | save s' =>
    cases hs
    exact hw
  | _ => cases hs

end Write

namespace Database
variable {db db' : Database} {versions : List Snapshot} {w : Write} {ws : List Write} {u : Unit}

/-- The table of entities holds the last of the versions under each key. -/
def Holds (db : Database) (versions : List Snapshot) : Prop :=
  ∃ entities, db.entities = some entities ∧ entities.strays = [] ∧ ∀ key : EntityKey,
    entities.rows[key]? = (Snapshot.lastOf key versions).map EntityRow.ofSnapshot

theorem holds_fresh : Database.fresh.Holds [] :=
  ⟨{}, rfl, rfl, fun _ => Std.ExtTreeMap.getElem?_empty⟩

/-- A granted write puts the version that it saves, if it saves one, in the place of the one before. -/
theorem Holds.granted (h : db.Holds versions) (hw : db.Granted w db') :
    db'.Holds (versions ++ w.version?.toList) := by
  obtain ⟨entities, ht, hstrays, hrows⟩ := h
  cases hw with
  | createChangeset | recompute | persist | addUser | updateUser =>
    refine ⟨entities, ht, hstrays, ?_⟩
    change ∀ key : EntityKey, entities.rows[key]? =
      (Snapshot.lastOf key (versions ++ [])).map EntityRow.ofSnapshot
    rw [List.append_nil]
    exact hrows
  | @save s entities' ht' =>
    rw [ht] at ht'
    cases ht'
    refine ⟨_, rfl, (EntityTable.save_of_no_strays hstrays _ _).1, fun key => ?_⟩
    change _ = (Snapshot.lastOf key (versions ++ [s])).map EntityRow.ofSnapshot
    rw [EntityTable.getElem?_save hstrays, Snapshot.lastOf_concat, hrows, apply_ite (Option.map _)]
    rfl

theorem holds_of_all (h : Write.all ws Database.fresh = .ok u db) : db.Holds (Write.versions ws) :=
  Write.adds_all (P := fun versions db => db.Holds versions) Write.version?
    (fun _ _ _ _ hstep h => h.granted (granted_of_step hstep)) h holds_fresh

end Database

/-- What is found under a key after any granted writes: nothing if no version was saved under it, and else
the version that was saved last, as it was saved, but for its time, which is rounded down to the
millisecond, and the name of its author, which is the one that the table of users holds now, or empty if
it holds none. -/
theorem lookup_gives_last_saved {ws : List Write} {db : Database}
    (h : Write.all ws Database.fresh = .ok () db) (hs : ∀ s, .save s ∈ ws → s.Storable)
    (key : EntityKey) :
    ∃ users, db.users = some users ∧
      Store.lookup key db =
        .ok ((Snapshot.lastOf key (Write.versions ws)).map fun s =>
          s.restored (s.user.bind fun u => users[u.id]?)) db := by
  obtain ⟨⟨users, hu⟩, -⟩ := tables_of_all h
  obtain ⟨entities, he, hstrays, hrows⟩ := holds_of_all h
  have hfound : ∀ s ∈ Snapshot.lastOf key (Write.versions ws), s.key = key ∧ s.Storable := by
    intro s hlast
    obtain ⟨hmem, hkey⟩ := Snapshot.mem_of_lastOf hlast
    exact ⟨hkey, hs s (Write.mem_versions hmem)⟩
  refine ⟨users, hu, asking_of_ok ?_⟩
  rw [entity?_eq hu he hstrays (hrows key) hfound]
  rfl

/-- A line of the last nanosecond before 1970. -/
def Snapshot.eve : Snapshot where
  id := 42
  kind := .line
  version := 3
  changesetId := 9
  timestamp := some ⟨-1, 999999999, by decide, by decide, by decide, by decide⟩
  user := some ⟨4, "dora"⟩
  tags := (∅ : Tags).insert "highway" "service"
  geometry := some (.line [⟨1.5, 2.5⟩])

theorem Snapshot.storable_eve : eve.Storable := by
  refine ⟨fun t ht => ?_, fun p hp => ?_⟩
  · cases ht
    rfl
  · obtain rfl : p = ⟨1.5, 2.5⟩ := List.mem_singleton.1 hp
    exact ⟨by decide +kernel, by decide +kernel⟩

def Write.overEve : List Write :=
  [.addUser ⟨4, "dora"⟩, .save .eve, .save Snapshot.eve.tombstone, .updateUser ⟨4, "doris"⟩]

/-- Tags and geometry of the line are gone, and the deletion is found under the new name. -/
theorem lookup_gives_deletion_of_line :
    ∃ db, Write.all Write.overEve Database.fresh = .ok () db ∧
      Store.lookup ⟨.line, 42⟩ db =
        .ok (some { Snapshot.eve.tombstone with
          timestamp := some ⟨-1, 999000000, by decide, by decide, by decide, by decide⟩
          user := some ⟨4, "doris"⟩ }) db ∧
      Store.lookup ⟨.point, 42⟩ db = .ok none db := by
  obtain ⟨db₁, hadd, h₁⟩ := Mirrors.empty.addUser (u := ⟨4, "dora"⟩) Std.ExtTreeMap.getElem?_empty
  obtain ⟨db₂, hsave, h₂⟩ := h₁.save (s := .eve) (by decide)
  obtain ⟨db₃, hdelete, h₃⟩ := h₂.save (s := Snapshot.eve.tombstone) (by decide)
  obtain ⟨db, hrename, h₄⟩ := h₃.updateUser (u := ⟨4, "doris"⟩) Std.ExtTreeMap.getElem?_insert_self
  have hall : Write.all Write.overEve Database.fresh = .ok () db := by
    unfold Write.overEve
    rw [Write.all_cons_of_ok (w := .addUser _) hadd, Write.all_cons_of_ok (w := .save _) hsave,
      Write.all_cons_of_ok (w := .save _) hdelete]
    exact Write.all_singleton (w := .updateUser _) hrename
  have hstorable : ∀ s, Write.save s ∈ Write.overEve → s.Storable := by
    intro s hs
    simp only [Write.overEve, List.mem_cons, List.not_mem_nil, or_false, Write.save.injEq,
      reduceCtorEq, false_or] at hs
    rcases hs with rfl | rfl
    · exact Snapshot.storable_eve
    · exact ⟨Snapshot.storable_eve.time, List.forall_mem_nil _⟩
  obtain ⟨users, hu, hline⟩ := lookup_gives_last_saved hall hstorable ⟨.line, 42⟩
  obtain ⟨_, -, hpoint⟩ := lookup_gives_last_saved hall hstorable ⟨.point, 42⟩
  -- The table of users holds the new name.
  have hname : users[(4 : Int64)]? = some "doris" := by
    obtain ⟨users', hu', husers⟩ := h₄.users
    rw [hu] at hu'
    cases hu'
    rw [husers]
    exact congrArg (Option.map _) Std.ExtTreeMap.getElem?_insert_self
  refine ⟨db, hall, hline.trans ?_, hpoint⟩
  have hrestored : Snapshot.eve.tombstone.restored users[(4 : Int64)]? =
      { Snapshot.eve.tombstone with
        timestamp := some ⟨-1, 999000000, by decide, by decide, by decide, by decide⟩
        user := some ⟨4, "doris"⟩ } := by
    rw [hname]
    rfl
  exact congrArg (fun s => EStateM.Result.ok (some s) db) hrestored

end MapAudit
