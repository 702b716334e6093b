import MapAudit.Database.Row
import MapAudit.Proofs.Entity.Encoding
import MapAudit.Proofs.Time.Millis

namespace MapAudit
open Time

namespace Except
variable {ε α β : Type}

@[simp] theorem ok_bind (a : α) (f : α → Except ε β) : (Except.ok a >>= f) = f a := rfl

@[simp] theorem error_bind (e : ε) (f : α → Except ε β) :
    ((Except.error e : Except ε α) >>= f) = .error e := rfl

@[simp] theorem pure_eq (a : α) : (pure a : Except ε α) = .ok a := rfl

@[simp] theorem throw_eq (e : ε) : (throw e : Except ε α) = .error e := rfl

theorem bind_eq_ok {x : Except ε α} {f : α → Except ε β} {b : β} (h : (x >>= f) = .ok b) :
    ∃ a, x = .ok a ∧ f a = .ok b := by
  cases x with
  | error e => cases h
  | ok a => exact ⟨a, rfl, h⟩

theorem map_eq_ok {x : Except ε α} {f : α → β} {b : β} (h : x.map f = .ok b) :
    ∃ a, x = .ok a ∧ f a = b := by
  cases x with
  | error e => cases h
  | ok a =>
    cases h
    exact ⟨a, rfl, rfl⟩

theorem mapError_eq_ok {ε' : Type} {f : ε → ε'} {x : Except ε α} {a : α}
    (h : x.mapError f = .ok a) : x = .ok a := by
  cases x with
  | error e => cases h
  | ok b =>
    cases h
    rfl

theorem bind_eq_error {x : Except ε α} {f : α → Except ε β} {e : ε} (h : (x >>= f) = .error e) :
    x = .error e ∨ ∃ a, x = .ok a ∧ f a = .error e := by
  cases x with
  | error e' =>
    cases h
    exact .inl rfl
  | ok a => exact .inr ⟨a, rfl, h⟩

theorem mapError_eq_error {ε' : Type} {f : ε → ε'} {x : Except ε α} {e' : ε'}
    (h : x.mapError f = .error e') : ∃ e, x = .error e ∧ f e = e' := by
  cases x with
  | error e =>
    cases h
    exact ⟨e, rfl, rfl⟩
  | ok a => cases h

theorem length_mapM {f : α → Except ε β} {l : List α} {r : List β} (h : l.mapM f = .ok r) :
    r.length = l.length := by
  induction l generalizing r with
  | nil =>
    cases h
    rfl
  | cons a l ih =>
    rw [List.mapM_cons] at h
    obtain ⟨b, -, h⟩ := bind_eq_ok h
    obtain ⟨bs, hbs, h⟩ := bind_eq_ok h
    cases h
    rw [List.length_cons, List.length_cons, ih hbs]

/-- A list whose elements are all read is read. -/
theorem mapM_of_ok {f : α → Except ε β} {g : α → β} {l : List α} (h : ∀ a ∈ l, f a = .ok (g a)) :
    l.mapM f = .ok (l.map g) := by
  induction l with
  | nil => rfl
  | cons a l ih =>
    rw [List.mapM_cons, h a List.mem_cons_self, ih fun b hb => h b (List.mem_cons_of_mem _ hb)]
    rfl

/-- All of a list is read if and only if each of its elements is. -/
theorem exists_mapM_eq_ok {f : α → Except ε β} {l : List α} :
    (∃ bs, l.mapM f = .ok bs) ↔ ∀ a ∈ l, ∃ b, f a = .ok b := by
  induction l with
  | nil => exact ⟨fun _ a ha => absurd ha List.not_mem_nil, fun _ => ⟨[], rfl⟩⟩
  | cons a l ih =>
    rw [List.forall_mem_cons, ← ih, List.mapM_cons]
    constructor
    · rintro ⟨r, h⟩
      obtain ⟨b, hb, h⟩ := bind_eq_ok h
      obtain ⟨bs, hbs, -⟩ := bind_eq_ok h
      exact ⟨⟨b, hb⟩, bs, hbs⟩
    · rintro ⟨⟨b, hb⟩, bs, hbs⟩
      rw [hb, hbs]
      exact ⟨b :: bs, rfl⟩

end Except

theorem Row.optional_some_eq_ok {α β : Type} {read : α → Except Failure β} {a : α} {b : Option β}
    (h : Row.optional read (some a) = .ok b) : ∃ c, read a = .ok c ∧ b = some c := by
  obtain ⟨c, hread, hc⟩ := Except.map_eq_ok h
  exact ⟨c, hread, hc.symm⟩

theorem Row.optional_eq_some {α β : Type} {read : α → Except Failure β} {a : Option α} {c : β}
    (h : Row.optional read a = .ok (some c)) : ∃ x, a = some x ∧ read x = .ok c := by
  cases a with
  | none => cases h
  | some x =>
    obtain ⟨d, hread, hd⟩ := Row.optional_some_eq_ok h
    cases hd
    exact ⟨x, rfl, hread⟩

theorem ChangesetRow.numChanges_toChangeset {row : ChangesetRow} {c : Changeset} {n : Int}
    (h : row.toChangeset = .ok c) (hn : row.numChanges = .integer n) : n = c.numChanges := by
  unfold toChangeset at h
  obtain ⟨_, -, h⟩ := Except.bind_eq_ok h
  obtain ⟨_, -, h⟩ := Except.bind_eq_ok h
  obtain ⟨_, -, h⟩ := Except.bind_eq_ok h
  obtain ⟨m, hm, h⟩ := Except.bind_eq_ok h
  obtain ⟨_, -, h⟩ := Except.bind_eq_ok h
  obtain ⟨_, -, h⟩ := Except.bind_eq_ok h
  cases h
  rw [hn] at hm
  cases hm
  rfl

theorem ChangeRow.length_toRecords {rows : List ChangeRow} {rs : List ChangeRecord}
    (h : ChangeRow.toRecords rows = .ok rs) : rs.length = rows.length := by
  obtain ⟨_, -, h⟩ := Except.bind_eq_ok h
  exact Except.length_mapM h

/-- Rows are read together if each of them can be read. -/
theorem ChangeRow.exists_toRecords_eq_ok {rows : List ChangeRow} :
    (∃ rs, toRecords rows = .ok rs) ↔ ∀ row ∈ rows, ∃ r, row.toRecord = .ok r := by
  constructor
  · rintro ⟨rs, h⟩
    obtain ⟨_, -, h⟩ := Except.bind_eq_ok h
    exact Except.exists_mapM_eq_ok.1 ⟨rs, h⟩
  · intro h
    obtain ⟨ns, hns⟩ : ∃ ns, rows.mapM numbers = .ok ns := by
      refine Except.exists_mapM_eq_ok.2 fun row hrow => ?_
      obtain ⟨r, hr⟩ := h row hrow
      obtain ⟨n, hn, -⟩ := Except.bind_eq_ok hr
      exact ⟨n, hn⟩
    unfold toRecords
    rw [hns, Except.ok_bind]
    exact Except.exists_mapM_eq_ok.2 h

/-- A version that a row can hold: no leap second, and all coordinates are read back from their
texts. -/
structure Snapshot.Storable (s : Snapshot) : Prop where
  time : ∀ t ∈ s.timestamp, t.isLeap = false
  positions : ∀ p ∈ s.positions, p.Printable

structure ChangeRecord.Storable (r : ChangeRecord) : Prop where
  time : ∀ t ∈ r.timestamp, t.isLeap = false
  previous : ∀ g ∈ r.previousGeometry, ∀ p ∈ g.positions, p.Printable
  new : ∀ g ∈ r.newGeometry, ∀ p ∈ g.positions, p.Printable

structure Changeset.Storable (c : Changeset) : Prop where
  created : c.createdAt.isLeap = false
  closed : ∀ t ∈ c.closedAt, t.isLeap = false

def ChangeRecord.floored (r : ChangeRecord) : ChangeRecord :=
  { r with timestamp := r.timestamp.map Instant.floored }

def Changeset.floored (c : Changeset) : Changeset :=
  { c with createdAt := c.createdAt.floored, closedAt := c.closedAt.map Instant.floored }

/-- A version as it is read back, its author under the name that is known now. -/
def Snapshot.restored (s : Snapshot) (name : Option String) : Snapshot :=
  { s with
    timestamp := s.timestamp.map Instant.floored
    user := s.user.map fun u => ⟨u.id, name.getD ""⟩ }

namespace Row

theorem instant_toMillis (table : String) {t : Instant} (h : t.isLeap = false) :
    instant table t.toMillis = .ok t.floored := by
  unfold instant
  rw [Instant.ofMillis?_toMillis h]

theorem instant_eq_ok {table : String} {ms : Int} {t : Instant} :
    instant table ms = .ok t ↔ Instant.ofMillis? ms = some t := by
  unfold instant
  cases Instant.ofMillis? ms with
  | none => simp
  | some u => simp

theorem optional_instant_toMillis (table : String) {t : Option Instant}
    (h : ∀ x ∈ t, x.isLeap = false) :
    optional (instant table) (t.map Instant.toMillis) = .ok (t.map Instant.floored) := by
  cases t with
  | none => rfl
  | some t =>
    change (instant table t.toMillis).map some = _
    rw [instant_toMillis table (h t rfl)]
    rfl

theorem optional_toInt (i : Option Int) :
    optional Cell.toInt (i.map .integer) = .ok i := by
  cases i <;> rfl

theorem toInt64_int64 (i : Int64) : (Cell.int64 i).toInt64 = .ok i := by
  change Except.ok (Int64.ofInt i.toInt) = _
  rw [Int64.ofInt_toInt]

theorem optional_toInt64 (i : Option Int64) :
    optional Cell.toInt64 (i.map .int64) = .ok i := by
  cases i with
  | none => rfl
  | some i =>
    change ((Cell.int64 i).toInt64).map some = _
    rw [toInt64_int64]
    rfl

theorem toBool_bool (b : Bool) : (Cell.bool b).toBool = .ok b := by
  cases b <;> rfl

theorem value_encode {α : Type} [Codec α] (column : String) {a : α} (h : Codec.Faithful a) :
    value column (Codec.encode a) = .ok a := by
  unfold value
  rw [Codec.decode?_encode h]

theorem optional_value_encode {α : Type} [Codec α] (column : String) {a : Option α}
    (h : ∀ x ∈ a, Codec.Faithful x) :
    optional (value column) (a.map Codec.encode) = .ok a := by
  cases a with
  | none => rfl
  | some a =>
    change (value column (Codec.encode a)).map some = _
    rw [value_encode column (h a rfl)]
    rfl

end Row

theorem EntityRow.toSnapshot_ofSnapshot {s : Snapshot} (h : s.Storable) (name : Option String) :
    (ofSnapshot s).toSnapshot s.key name = .ok (s.restored name) := by
  have hmillis : (ofSnapshot s).millis = (s.timestamp.map Instant.toMillis).map .integer := by
    rw [Option.map_map]
    rfl
  have huser : (ofSnapshot s).userId = (s.user.map (·.id)).map .int64 := by
    rw [Option.map_map]
    rfl
  have hgeometry : ∀ g ∈ s.geometry, Codec.Faithful g := fun g hg =>
    Geometry.faithful fun p hp => h.positions p (Snapshot.mem_positions hg hp)
  unfold toSnapshot
  rw [hmillis, huser, Row.optional_toInt, Row.optional_toInt64]
  simp only [ofSnapshot, Row.toInt64_int64, Row.toBool_bool, Except.ok_bind,
    Row.optional_instant_toMillis "entities" h.time,
    Row.value_encode "entities.tags" (Tags.faithful s.tags),
    Row.optional_value_encode "entities.geom" hgeometry,
    Row.value_encode "entities.members"
      (Codec.faithful_list fun m (_ : m ∈ s.members) => Member.faithful m)]
  rw [Option.map_map]
  rfl

theorem EntityKind.parseCode_code (k : EntityKind) : parseCode k.code = .ok k := by
  cases k <;> rfl

theorem Action.parse_name (a : Action) : parse a.name = .ok a := by
  have hname : ofName? a.name = some a := by
    cases a <;> decide +kernel
  unfold parse
  rw [hname]
  rfl

theorem ChangeRow.numbers_ofRecord (id : Int) (r : ChangeRecord) (time : Instant) :
    (ofRecord id r time).numbers =
      .ok ⟨r.entityId, r.version, time.toMillis, r.tagsChanged, r.geometryChanged,
        r.membersChanged⟩ := by
  unfold numbers
  simp only [ofRecord, Row.toInt64_int64, Row.toBool_bool, Except.ok_bind, Cell.toInt]
  rfl

theorem ChangeRow.toRecord_ofRecord (id : Int) {r : ChangeRecord} (h : r.Storable) {time : Instant}
    (ht : r.timestamp = some time) : (ofRecord id r time).toRecord = .ok r.floored := by
  have htags (t : Option Tags) : ∀ x ∈ t, Codec.Faithful x := fun x _ => Tags.faithful x
  have hprevious : ∀ g ∈ r.previousGeometry, Codec.Faithful g := fun g hg =>
    Geometry.faithful (h.previous g hg)
  have hnew : ∀ g ∈ r.newGeometry, Codec.Faithful g := fun g hg =>
    Geometry.faithful (h.new g hg)
  unfold toRecord
  rw [numbers_ofRecord]
  simp only [ofRecord, Except.ok_bind, Row.kind, EntityKind.parseCode_code, Action.parse_name,
    Except.mapError, Row.instant_toMillis "changes" (h.time time ht),
    Row.optional_value_encode "changes.current_tags" (htags r.previousTags),
    Row.optional_value_encode "changes.new_tags" (htags r.newTags),
    Row.optional_value_encode "changes.current_geom" hprevious,
    Row.optional_value_encode "changes.new_geom" hnew]
  unfold ChangeRecord.floored
  rw [ht]
  rfl

theorem ChangesetRow.toChangeset_ofChangeset {c : Changeset} (h : c.Storable) :
    (ofChangeset c).toChangeset = .ok c.floored := by
  have hclosed : (ofChangeset c).closedAt = (c.closedAt.map Instant.toMillis).map .integer := by
    rw [Option.map_map]
    rfl
  unfold toChangeset
  rw [hclosed, Row.optional_toInt]
  simp only [ofChangeset, Row.toInt64_int64, Cell.toInt, Except.ok_bind,
    Row.instant_toMillis "changesets" h.created,
    Row.optional_instant_toMillis "changesets" h.closed]
  rfl

end MapAudit
