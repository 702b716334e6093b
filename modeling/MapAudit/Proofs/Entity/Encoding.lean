import MapAudit.Entity.Encoding
import MapAudit.Proofs.Entity.Geometry
import MapAudit.Proofs.Json.Fields
import MapAudit.Proofs.Json.RoundTrip
import MapAudit.Proofs.Time.Rfc3339

namespace MapAudit
open Codec Time Json.Fields

namespace Codec

/-- The value is read back from its encoding, at any depth. -/
def Faithful {α : Type} [Codec α] (a : α) : Prop := ∀ depth, ofJson? depth (toJson a) = some a

theorem decode?_encode {α : Type} [Codec α] {a : α} (h : Faithful a) :
    decode? (encode a) = some a := by
  unfold decode? encode
  rw [Json.parse?_compact]
  exact h 0

theorem toInt?_ofInt (i : Int) : (Json.Number.ofInt i).toInt? = some i := by
  unfold Json.Number.toInt? Json.Number.isInteger Json.Number.ofInt
  by_cases h : i < 0
  · have hz : (i.natAbs == 0) = false := by
      rw [beq_eq_false_iff_ne]
      omega
    simp only [h, decide_true, hz, Bool.and_false, Bool.not_false, List.isEmpty_nil,
      Option.isNone_none, Bool.and_self, if_true]
    congr 1
    omega
  · simp only [h, decide_false, Bool.false_and, Bool.not_false, List.isEmpty_nil,
      Option.isNone_none, Bool.and_self, if_true, Bool.false_eq_true, if_false]
    congr 1
    omega

theorem faithful_int64 (i : Int64) : Faithful i := by
  intro depth
  change (Json.Number.ofInt i.toInt).toInt64? = some i
  unfold Json.Number.toInt64?
  rw [toInt?_ofInt]
  change (if Int64.minValue.toInt ≤ i.toInt ∧ i.toInt ≤ Int64.maxValue.toInt then
    some (Int64.ofInt i.toInt) else none) = some i
  rw [if_pos ⟨i.minValue_le_toInt, i.toInt_le⟩, Int64.ofInt_toInt]

theorem faithful_string (s : String) : Faithful s := fun _ => rfl

theorem faithful_bool (b : Bool) : Faithful b := fun _ => rfl

theorem faithful_instant (t : Instant) : Faithful t := by
  intro depth
  change (some (Rfc3339.text t)).bind Rfc3339.read? = some t
  rw [Option.bind_some, Rfc3339.read?_text]

theorem nullable?_instant (t : Option Instant) (depth : Nat) :
    Json.nullable? (ofJson? depth) (Json.option toJson t) = some t :=
  Json.nullable?_option (fun x _ => faithful_instant x depth) fun _ => Json.noConfusion

theorem faithful_kind (k : EntityKind) : Faithful k := by
  intro depth
  cases k <;> rfl

theorem faithful_list {α : Type} [Codec α] {as : List α} (h : ∀ a ∈ as, Faithful a) :
    Faithful as := by
  intro depth
  change (as.map toJson).mapM (ofJson? (depth + 1)) = some as
  exact Json.mapM_map_eq_some fun a ha => h a ha (depth + 1)

end Codec

def Member.fields (m : Member) : Json.Fields :=
  ⟨false, [("member_type", toJson m.kind), ("member_id", toJson m.id), ("role", toJson m.role)]⟩

theorem Member.faithful (m : Member) : Faithful m := by
  intro depth
  have hkind : m.fields.required? "member_type" (ofJson? depth) = some m.kind :=
    required?_of_lookup rfl (faithful_kind m.kind depth)
  have hid : m.fields.required? "member_id" (ofJson? depth) = some m.id :=
    required?_of_lookup rfl (faithful_int64 m.id depth)
  have hrole : m.fields.withDefault? "role" "" (ofJson? depth) = some m.role :=
    withDefault?_of_lookup rfl (faithful_string m.role depth)
  refine (Json.bind_fields?_object m.fields ["member_type", "member_id", "role"] _
    rfl rfl (by decide)).trans ?_
  simp only [Option.bind_eq_bind, hkind, hid, hrole, Option.bind_some, Option.pure_def]

namespace Json
variable {α : Type} {read : Json → Option α} {write : α → Json}

/-- The keys of a map are distinct, so no later entry overwrites an earlier one. -/
theorem foldl_insert_toList (m : Std.ExtTreeMap String α) :
    m.toList.foldl (fun m e => m.insert e.1 e.2) (∅ : Std.ExtTreeMap String α) = m := by
  rw [← Std.ExtTreeMap.insertMany_list_eq_foldl]
  apply Std.ExtTreeMap.ext_getElem?
  intro k
  cases hk : m[k]? with
  | some v =>
    exact Std.ExtTreeMap.getElem?_insertMany_list_of_mem Std.ReflCmp.compare_self
      Std.ExtTreeMap.distinct_keys_toList
      (Std.ExtTreeMap.mem_toList_iff_getElem?_eq_some.2 hk)
  | none =>
    have hmem : k ∉ m := by
      rw [Std.ExtTreeMap.mem_iff_isSome_getElem?, hk]
      exact Bool.false_ne_true
    rw [Std.ExtTreeMap.getElem?_insertMany_list_of_contains_eq_false]
    · exact Std.ExtTreeMap.getElem?_empty
    · rw [Std.ExtTreeMap.map_fst_toList_eq_keys]
      simpa using hmem

/-- A map is read back if its values are, whatever its keys. -/
theorem toMap?_ofMap (h : ∀ a, read (write a) = some a) (m : Std.ExtTreeMap String α) :
    toMap? read (ofMap write m) = some m := by
  have hentry (e : String × α) : (read (write e.2)).map (e.1, ·) = some e := by
    rw [h]
    rfl
  change ((m.toList.map fun e => (e.1, write e.2)).mapM
    (fun e => (read e.2).map (e.1, ·))).bind (fun entries =>
      some (entries.foldl (fun m e => m.insert e.1 e.2) ∅)) = some m
  rw [mapM_map_eq_some fun e _ => hentry e, Option.bind_some, foldl_insert_toList]

end Json

theorem Tags.faithful (t : Tags) : Faithful t := by
  intro depth
  have htext (s : String) : Json.toText? (.string s) = some s := rfl
  exact Json.toMap?_ofMap htext t

theorem Tags.nullable?_option (t : Option Tags) (depth : Nat) :
    Json.nullable? (ofJson? depth) (Json.option toJson t) = some t :=
  Json.nullable?_option (fun x _ => faithful x depth) fun _ => Json.noConfusion

def User.fields (u : User) : Json.Fields := ⟨false, [("id", toJson u.id), ("name", toJson u.name)]⟩

theorem User.faithful (u : User) : Faithful u := by
  intro depth
  have hid : u.fields.required? "id" (ofJson? depth) = some u.id :=
    required?_of_lookup rfl (faithful_int64 u.id depth)
  have hname : u.fields.required? "name" (ofJson? depth) = some u.name :=
    required?_of_lookup rfl (faithful_string u.name depth)
  refine (Json.bind_fields?_object u.fields ["id", "name"] _ rfl rfl (by decide)).trans ?_
  simp only [Option.bind_eq_bind, hid, hname, Option.bind_some, Option.pure_def]

namespace Position

/-- The coordinate is read back from its own text; only a finite one is. -/
def ReadsBack (x : Float) : Prop := (Json.parse? (axis x).compact).bind axis? = some x

instance (x : Float) : Decidable (ReadsBack x) :=
  inferInstanceAs (Decidable ((Json.parse? (axis x).compact).bind axis? = some x))

theorem axis?_axis {x : Float} (h : ReadsBack x) : axis? (axis x) = some x := by
  unfold ReadsBack at h
  rwa [Json.parse?_compact] at h

structure Printable (p : Position) : Prop where
  lon : ReadsBack p.lon
  lat : ReadsBack p.lat

def fields (p : Position) : Json.Fields := ⟨false, [("lon", axis p.lon), ("lat", axis p.lat)]⟩

theorem faithful {p : Position} (h : p.Printable) : Faithful p := by
  intro depth
  have hlon : p.fields.required? "lon" axis? = some p.lon :=
    required?_of_lookup rfl (axis?_axis h.lon)
  have hlat : p.fields.required? "lat" axis? = some p.lat :=
    required?_of_lookup rfl (axis?_axis h.lat)
  change ofJson? (.object p.fields.given) = some p
  unfold ofJson?
  refine (Json.bind_fields?_object p.fields names _ rfl rfl (by decide)).trans ?_
  simp only [Option.bind_eq_bind, hlon, hlat, Option.bind_some, Option.pure_def]

end Position

namespace Geometry

def typeName : Geometry → String
  | .point _ => "Point"
  | .line _ => "LineString"

def coordinates : Geometry → Json
  | .point p => Codec.toJson p
  | .line ps => Codec.toJson ps

theorem toJson_eq (g : Geometry) :
    Codec.toJson g = .object [("type", .string g.typeName), ("coordinates", g.coordinates)] := by
  cases g <;> rfl

theorem ofParts?_coordinates {g : Geometry} (h : ∀ p ∈ g.positions, p.Printable) :
    ofParts? (.string g.typeName) g.coordinates = some g := by
  cases g with
  | point p =>
    change (Codec.ofJson? 0 (Codec.toJson p)).map point = some (point p)
    rw [Position.faithful (h p (List.mem_singleton.2 rfl)) 0]
    rfl
  | line ps =>
    change (Codec.ofJson? 0 (Codec.toJson ps)).map line = some (line ps)
    have hps : Faithful ps := faithful_list fun p hp => Position.faithful (h p hp)
    rw [hps 0]
    rfl

theorem faithful {g : Geometry} (h : ∀ p ∈ g.positions, p.Printable) : Faithful g := by
  intro depth
  rw [toJson_eq]
  exact ofParts?_coordinates h

theorem toJson_ne_null (g : Geometry) : Codec.toJson g ≠ .null := by
  cases g <;> exact Json.noConfusion

/-- A geometry that may be absent. -/
theorem nullable?_option {g : Option Geometry}
    (h : ∀ x ∈ g, ∀ p ∈ x.positions, p.Printable) (depth : Nat) :
    Json.nullable? (Codec.ofJson? depth) (Json.option Codec.toJson g) = some g :=
  Json.nullable?_option (fun x hx => faithful (h x hx) depth) toJson_ne_null

end Geometry

namespace Snapshot

def fields (s : Snapshot) : Json.Fields :=
  ⟨false,
    [("entity_id", Codec.toJson s.id), ("entity_type", Codec.toJson s.kind),
      ("version", Codec.toJson s.version), ("changeset_id", Codec.toJson s.changesetId),
      ("timestamp", Json.option Codec.toJson s.timestamp),
      ("user", Json.option Codec.toJson s.user), ("tags", Codec.toJson s.tags),
      ("geometry", Json.option Codec.toJson s.geometry), ("members", Codec.toJson s.members),
      ("visible", Codec.toJson s.visible)]⟩

/-- The field has the value that it gets where it is left out. -/
def LeftOut (s : Snapshot) : String → Prop
  | "timestamp" => s.timestamp = none
  | "user" => s.user = none
  | "tags" => s.tags = ∅
  | "geometry" => s.geometry = none
  | "members" => s.members = []
  | "visible" => s.visible = true
  | _ => False

def Gives (s : Snapshot) (f : Json.Fields) (name : String) : Prop :=
  f.given.lookup name = s.fields.given.lookup name ∨
    f.given.lookup name = none ∧ s.LeftOut name

section Gives
variable {α : Type} {s : Snapshot} {f : Json.Fields} {name : String} {v : Json} {a : α}
  {read : Json → Option α}

theorem Gives.required? (h : s.Gives f name) (hleft : ¬s.LeftOut name)
    (hv : s.fields.given.lookup name = some v) (hread : read v = some a) :
    f.required? name read = some a := by
  rcases h with hgiven | ⟨-, h⟩
  · exact required?_of_lookup (hgiven.trans hv) hread
  · exact absurd h hleft

theorem Gives.withDefault? {fallback : α} (h : s.Gives f name)
    (hleft : s.LeftOut name → a = fallback) (hv : s.fields.given.lookup name = some v)
    (hread : read v = some a) :
    f.withDefault? name fallback read = some a := by
  rcases h with hgiven | ⟨hnone, h⟩
  · exact withDefault?_of_lookup (hgiven.trans hv) hread
  · unfold Json.Fields.withDefault?
    rw [hnone, hleft h]

end Gives

/-- A version is read from its fields. The geometry is told apart, since it has two encodings. -/
theorem ofJson?_of_gives {s : Snapshot} {depth : Nat} {v : Json} {f : Json.Fields}
    (hv : v.fields? fieldNames = some f)
    (h : ∀ name ∈ fieldNames, name ≠ "geometry" → s.Gives f name)
    (hgeometry : f.withDefault? "geometry" none (Json.nullable? (Codec.ofJson? (depth + 1))) =
      some s.geometry) :
    Codec.ofJson? depth v = some s := by
  have hid : f.required? "entity_id" (Codec.ofJson? (depth + 1)) = some s.id :=
    (h "entity_id" (by decide) (by decide)).required? (fun hleft => hleft) rfl
      (faithful_int64 s.id _)
  have hkind : f.required? "entity_type" (Codec.ofJson? (depth + 1)) = some s.kind :=
    (h "entity_type" (by decide) (by decide)).required? (fun hleft => hleft) rfl
      (faithful_kind s.kind _)
  have hversion : f.required? "version" (Codec.ofJson? (depth + 1)) = some s.version :=
    (h "version" (by decide) (by decide)).required? (fun hleft => hleft) rfl
      (faithful_int64 s.version _)
  have hchangeset : f.required? "changeset_id" (Codec.ofJson? (depth + 1)) = some s.changesetId :=
    (h "changeset_id" (by decide) (by decide)).required? (fun hleft => hleft) rfl
      (faithful_int64 s.changesetId _)
  have htime : f.withDefault? "timestamp" none (Json.nullable? (Codec.ofJson? (depth + 1))) =
      some s.timestamp :=
    (h "timestamp" (by decide) (by decide)).withDefault? (fun hleft => hleft) rfl
      (nullable?_instant s.timestamp _)
  have huser : f.withDefault? "user" none (Json.nullable? (Codec.ofJson? (depth + 1))) =
      some s.user :=
    (h "user" (by decide) (by decide)).withDefault? (fun hleft => hleft) rfl
      (Json.nullable?_option (fun u _ => u.faithful _) fun _ => Json.noConfusion)
  have htags : f.withDefault? "tags" ∅ (Codec.ofJson? (depth + 1)) = some s.tags :=
    (h "tags" (by decide) (by decide)).withDefault? (fun hleft => hleft) rfl
      (Tags.faithful s.tags _)
  have hmembers : f.withDefault? "members" [] (Codec.ofJson? (depth + 1)) = some s.members :=
    (h "members" (by decide) (by decide)).withDefault? (fun hleft => hleft) rfl
      (faithful_list (fun m _ => m.faithful) _)
  have hvisible : f.withDefault? "visible" true (Codec.ofJson? (depth + 1)) = some s.visible :=
    (h "visible" (by decide) (by decide)).withDefault? (fun hleft => hleft) rfl
      (faithful_bool s.visible _)
  change ofJson? depth v = some s
  unfold ofJson?
  -- All fields are found, so the reader comes to its end.
  simp only [hv, Option.bind_eq_bind, hid, hkind, hversion, hchangeset, htime, huser, htags,
    hgeometry, hmembers, hvisible, Option.bind_some, Option.pure_def]

theorem faithful {s : Snapshot} (h : ∀ p ∈ s.positions, p.Printable) : Faithful s := fun _ =>
  ofJson?_of_gives (Json.fields?_object s.fields fieldNames rfl rfl (by decide))
    (fun _ _ _ => .inl rfl)
    (withDefault?_of_lookup rfl
      (Geometry.nullable?_option (fun _ hg p hp => h p (mem_positions hg hp)) _))

/-- A line of one point, in a leap second, with quotes, line breaks and control characters in its
texts. -/
def quoting : Snapshot where
  id := Int64.minValue
  kind := .line
  version := Int64.maxValue
  changesetId := 500
  timestamp := some Rfc3339.lateLeap
  user := some ⟨-1, "\"\\\n\u0000é𝄞"⟩
  tags := (∅ : Tags).insert "\r\n" "\t"
  geometry := some (.line [⟨1.5, 2.5⟩])
  members := [⟨.relation, 0, "\""⟩]

theorem printable_quoting : ∀ p ∈ quoting.positions, p.Printable := by
  intro p hp
  obtain rfl : p = ⟨1.5, 2.5⟩ := List.mem_singleton.1 hp
  exact ⟨by decide +kernel, by decide +kernel⟩

end Snapshot

end MapAudit
