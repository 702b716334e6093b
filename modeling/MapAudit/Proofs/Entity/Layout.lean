import MapAudit.Proofs.Entity.Encoding
import MapAudit.Proofs.Json.RoundTrip

namespace MapAudit
open Json.Fields

namespace Position
variable {p : Position}

theorem canWait_axis {x : Float} (h : ReadsBack x) (room : Nat) :
    (axis x).canWait room = true := by
  have hread := axis?_axis h
  unfold axis at hread ⊢
  cases hliteral : Json.Number.ofFloat? x with
  | none =>
    rw [hliteral] at hread
    cases hread
  | some n =>
    rw [hliteral] at hread
    change n.toFloat?.isSome = true
    rw [show n.toFloat? = some x from hread]
    rfl

theorem canWait_toJson (h : p.Printable) (room : Nat) :
    (Codec.toJson p).canWait (room + 1) = true := by
  change (Json.object p.fields.given).canWait (room + 1) = true
  simp [fields, Json.canWait, Json.membersCanWait, canWait_axis h.lon, canWait_axis h.lat]

theorem itemsCanWait_toJson {ps : List Position} (h : ∀ p ∈ ps, p.Printable) (room : Nat) :
    Json.itemsCanWait (room + 1) (ps.map Codec.toJson) = true := by
  induction ps with
  | nil => rfl
  | cons p ps ih =>
    obtain ⟨hp, hps⟩ := List.forall_mem_cons.1 h
    rw [List.map_cons, Json.itemsCanWait, canWait_toJson hp, ih hps]
    rfl

end Position

namespace Geometry
variable {g : Geometry}

/-- The encoded geometry with its parts the other way round. -/
def swapped (g : Geometry) : Json :=
  .object [("coordinates", g.coordinates), ("type", .string g.typeName)]

theorem canWait_coordinates (h : ∀ p ∈ g.positions, p.Printable) (room : Nat) :
    g.coordinates.canWait (room + 2) = true := by
  cases g with
  | point p => exact Position.canWait_toJson (h p (List.mem_singleton.2 rfl)) (room + 1)
  | line ps =>
    have hps : Json.itemsCanWait (room + 1) (ps.map Codec.toJson) = true :=
      Position.itemsCanWait_toJson h room
    change (decide (0 < room + 2) && Json.itemsCanWait (room + 1) (ps.map Codec.toJson)) = true
    rw [hps, Bool.and_true]
    exact decide_eq_true (Nat.succ_pos _)

/-- Coordinates that come before their type are set aside, and then read as they are behind it. -/
theorem ofJson?_swapped (h : ∀ p ∈ g.positions, p.Printable) {depth : Nat}
    (hdepth : depth + 3 ≤ nestingLimit) : Codec.ofJson? depth g.swapped = some g := by
  obtain ⟨room, hroom⟩ : ∃ room, nestingLimit - (depth + 1) = room + 2 :=
    ⟨nestingLimit - (depth + 3), by omega⟩
  have hwait : g.coordinates.canWait (nestingLimit - (depth + 1)) = true := by
    rw [hroom]
    exact canWait_coordinates h room
  change (if g.coordinates.canWait (nestingLimit - (depth + 1)) then
    ofParts? (.string g.typeName) g.coordinates else none) = some g
  rw [if_pos hwait, ofParts?_coordinates h]

end Geometry

namespace Snapshot

def requiredNames : List String := ["entity_id", "entity_type", "version", "changeset_id"]

/-- The member is one of the encoded fields, the parts of a geometry in either order. -/
def Encodes (s : Snapshot) (m : String × Json) : Prop :=
  m ∈ s.fields.given ∨ ∃ g ∈ s.geometry, m = ("geometry", g.swapped)

/-- The members of an object give the version: each field at most once, with its encoded value, and none
missing unless it has the value that it then gets. Members under other texts may be anything. -/
structure GivenBy (s : Snapshot) (members : List (String × Json)) : Prop where
  once : ∀ name ∈ fieldNames, (members.map Prod.fst).count name ≤ 1
  encoded : ∀ m ∈ members, m.1 ∈ fieldNames → s.Encodes m
  missing : ∀ name ∈ fieldNames, name ∉ members.map Prod.fst → s.LeftOut name

namespace GivenBy
variable {s : Snapshot} {members : List (String × Json)} {name : String}

theorem lookup (h : s.GivenBy members) (hname : name ∈ fieldNames) :
    (∃ v, (Json.known fieldNames members).lookup name = some v ∧ s.Encodes (name, v)) ∨
      (Json.known fieldNames members).lookup name = none ∧ s.LeftOut name := by
  rw [Json.lookup_known hname]
  cases hlookup : members.lookup name with
  | some v => exact .inl ⟨v, rfl, h.encoded (name, v) (Json.mem_of_lookup hlookup) hname⟩
  | none =>
    refine .inr ⟨rfl, h.missing name hname fun hmem => ?_⟩
    obtain ⟨m, hm, rfl⟩ := List.mem_map.1 hmem
    exact bne_iff_ne.1 (List.lookup_eq_none_iff.1 hlookup m hm) rfl

theorem lookup_of_given {v : Json} (h : (name, v) ∈ s.fields.given) :
    s.fields.given.lookup name = some v :=
  Json.lookup_eq_of_mem (by decide : fieldNames.Nodup) h

theorem gives (h : s.GivenBy members) (hname : name ∈ fieldNames) (hne : name ≠ "geometry") :
    s.Gives ⟨false, Json.known fieldNames members⟩ name := by
  rcases h.lookup hname with ⟨v, hv, hgiven | ⟨g, -, hg⟩⟩ | ⟨hnone, hleft⟩
  · exact .inl (hv.trans (lookup_of_given hgiven).symm)
  · exact absurd (congrArg Prod.fst hg) hne
  · exact .inr ⟨hnone, hleft⟩

theorem geometry (h : s.GivenBy members) (hprintable : ∀ p ∈ s.positions, p.Printable) {depth : Nat}
    (hdepth : depth + 3 ≤ Geometry.nestingLimit) :
    withDefault? ⟨false, Json.known fieldNames members⟩ "geometry" none
      (Json.nullable? (Codec.ofJson? depth)) = some s.geometry := by
  rcases h.lookup (by decide : "geometry" ∈ fieldNames) with
    ⟨v, hv, hgiven | ⟨g, hg, hv'⟩⟩ | ⟨hnone, hleft⟩
  · obtain rfl : Json.option Codec.toJson s.geometry = v :=
      Option.some.inj (lookup_of_given hgiven)
    exact withDefault?_of_lookup hv
      (Geometry.nullable?_option (fun g hg p hp => hprintable p (mem_positions hg hp)) depth)
  · obtain rfl : v = g.swapped := congrArg Prod.snd hv'
    have hread : Codec.ofJson? depth g.swapped = some g :=
      Geometry.ofJson?_swapped (fun p hp => hprintable p (mem_positions hg hp)) hdepth
    refine withDefault?_of_lookup hv ?_
    change (Codec.ofJson? depth g.swapped).map some = some s.geometry
    rw [hread, show s.geometry = some g from hg]
    rfl
  · unfold Json.Fields.withDefault?
    rw [hnone]
    exact congrArg some (Eq.symm hleft)

end GivenBy

variable {members : List (String × Json)}

theorem ofJson?_of_givenBy {s : Snapshot} (h : s.GivenBy members)
    (hprintable : ∀ p ∈ s.positions, p.Printable) {depth : Nat}
    (hdepth : depth + 4 ≤ Geometry.nestingLimit) :
    Codec.ofJson? depth (.object members) = some s :=
  ofJson?_of_gives (Json.fields?_of_count h.once) (fun _ => h.gives)
    (h.geometry hprintable (by omega))

theorem ofJson?_of_repeated {name : String} (hname : name ∈ fieldNames)
    (h : 1 < (members.map Prod.fst).count name) (depth : Nat) :
    (Codec.ofJson? depth (.object members) : Option Snapshot) = none := by
  change ofJson? depth (.object members) = none
  unfold ofJson?
  rw [Json.fields?_of_repeated hname h]
  rfl

/-- What is read as a version has all that a version must have. -/
theorem isSome_lookup_of_ofJson? {s : Snapshot} {depth : Nat} {v : Json}
    (h : Codec.ofJson? depth v = some s) :
    ∃ f, v.fields? fieldNames = some f ∧
      ∀ name ∈ requiredNames, (f.given.lookup name).isSome = true := by
  change ofJson? depth v = some s at h
  unfold ofJson? at h
  simp only [Option.bind_eq_bind, Option.bind_eq_some_iff] at h
  obtain ⟨f, hf, _, hid, _, hkind, _, hversion, _, hchangeset, -⟩ := h
  refine ⟨f, hf, ?_⟩
  simp only [requiredNames, List.forall_mem_cons]
  exact ⟨isSome_lookup_of_required? hid, isSome_lookup_of_required? hkind,
    isSome_lookup_of_required? hversion, isSome_lookup_of_required? hchangeset,
    List.forall_mem_nil _⟩

theorem ofJson?_of_absent {name : String} (hname : name ∈ requiredNames)
    (h : name ∉ members.map Prod.fst) (depth : Nat) :
    (Codec.ofJson? depth (.object members) : Option Snapshot) = none := by
  refine Option.eq_none_iff_forall_ne_some.2 fun s hs => ?_
  obtain ⟨f, hf, hpresent⟩ := isSome_lookup_of_ofJson? hs
  have hsome := hpresent name hname
  rw [Json.given_of_fields? hf, Json.lookup_known_eq_none h] at hsome
  cases hsome

theorem ofJson?_unpaired (depth : Nat) : (Codec.ofJson? depth .unpaired : Option Snapshot) = none :=
  rfl

theorem decode?_writtenObject {members : List Json.Member} {text : String}
    (h : Json.WrittenObject members text) :
    (Codec.decode? text : Option Snapshot) =
      if members.all (·.1.isSome) then Codec.ofJson? 0 (.object (Json.named members)) else none := by
  unfold Codec.decode?
  rw [Json.parse?_writtenObject h, Option.bind_some, Json.ofMembers_eq]
  split
  · rfl
  · exact ofJson?_unpaired 0

/-- A version is read from every text of an object that gives its fields, however that is written and
whatever else it holds, as long as its keys spell texts. From an object with a key that spells none, with a
repeated field, or without one that a version must have, nothing is read. -/
theorem decoded_however_written :
    (∀ (s : Snapshot) (members : List Json.Member) (text : String),
      (∀ p ∈ s.positions, p.Printable) → s.GivenBy (Json.named members) →
        Json.WrittenObject members text →
          Codec.decode? text = if members.all (·.1.isSome) then some s else none) ∧
    ∀ (members : List Json.Member) (text : String), Json.WrittenObject members text →
      (∃ name ∈ fieldNames, 1 < ((Json.named members).map Prod.fst).count name) ∨
        (∃ name ∈ requiredNames, name ∉ (Json.named members).map Prod.fst) →
      (Codec.decode? text : Option Snapshot) = none := by
  refine ⟨fun s members text hprintable hgiven hwritten => ?_, fun members text hwritten h => ?_⟩
  · rw [decode?_writtenObject hwritten, ofJson?_of_givenBy hgiven hprintable (by decide)]
  · have hread : (Codec.ofJson? 0 (.object (Json.named members)) : Option Snapshot) = none := by
      rcases h with ⟨name, hname, hcount⟩ | ⟨name, hname, habsent⟩
      · exact ofJson?_of_repeated hname hcount 0
      · exact ofJson?_of_absent hname habsent 0
    rw [decode?_writtenObject hwritten, hread, ite_self]

def bare : Snapshot where
  id := 7
  kind := .point
  version := 2
  changesetId := 500
  geometry := some (.point ⟨1.5, 2.5⟩)

/-- Its fields from the last to the first, what can be left out left out, and a member that is none of
them. -/
def bareMembers : List (String × Json) :=
  [("geometry", (Geometry.point ⟨1.5, 2.5⟩).swapped), ("changeset_id", .int 500),
    ("source", .array [.unpaired, .object [("version", .null), ("version", .bool true)]]),
    ("version", .int 2), ("entity_type", .string "point"), ("entity_id", .int 7)]

theorem givenBy_bareMembers : bare.GivenBy bareMembers where
  once := by decide
  encoded := by
    simp only [bareMembers, List.forall_mem_cons]
    exact ⟨fun _ => .inr ⟨_, rfl, rfl⟩, fun _ => .inl (Json.mem_of_lookup rfl),
      fun h => absurd h (by decide), fun _ => .inl (Json.mem_of_lookup rfl),
      fun _ => .inl (Json.mem_of_lookup rfl), fun _ => .inl (Json.mem_of_lookup rfl),
      List.forall_mem_nil _⟩
  missing := by
    have hgiven {name : String} (h : name ∈ bareMembers.map Prod.fst)
        (habsent : name ∉ bareMembers.map Prod.fst) : bare.LeftOut name := absurd h habsent
    simp only [fieldNames, List.forall_mem_cons]
    exact ⟨hgiven (by decide), hgiven (by decide), hgiven (by decide), hgiven (by decide),
      fun _ => rfl, fun _ => rfl, fun _ => rfl, hgiven (by decide), fun _ => rfl, fun _ => rfl,
      List.forall_mem_nil _⟩

/-- The point is read from its members in their odd order. Given twice they are no version, nor are they
without the last of them. -/
theorem decoded_however_written_bare :
    Codec.decode? ((Json.object bareMembers).spaced ['\n', '\t']) = some bare ∧
      (Codec.decode? (Json.object (bareMembers ++ bareMembers)).compact : Option Snapshot) = none ∧
      (Codec.decode? (Json.object (bareMembers.take 5)).compact : Option Snapshot) = none := by
  have hspace : ∀ c ∈ ['\n', '\t'], Json.isSpace c = true := by
    simp [Json.isSpace]
  have hwritten {members : List (String × Json)} {text : String}
      (h : (Json.object members).Written text) := Json.writtenObject_of_written h
  have hgiven : bare.GivenBy (Json.named (bareMembers.map fun m => (some m.1, m.2))) := by
    rw [Json.named_map_some]
    exact givenBy_bareMembers
  exact ⟨decoded_however_written.1 bare _ _ printable_quoting hgiven
      (hwritten (Json.written_spaced hspace _)),
    decoded_however_written.2 _ _ (hwritten (Json.written_compact _))
      (.inl ⟨"version", by decide, by decide⟩),
    decoded_however_written.2 _ _ (hwritten (Json.written_compact _))
      (.inr ⟨"entity_id", by decide, by decide⟩)⟩

def plain : Snapshot where
  id := 7
  kind := .point
  version := 2
  changesetId := 500

/-- Its fields, and a member whose name is half of a pair of surrogates. -/
def plainMembers : List Json.Member :=
  [(some "entity_id", .int 7), (some "entity_type", .string "point"), (some "version", .int 2),
    (some "changeset_id", .int 500), (none, .int 0)]

def plainText : String :=
  "\x7b\"entity_id\":7,\"entity_type\":\"point\",\"version\":2,\"changeset_id\":500,\"\\ud800\":0\x7d"

theorem givenBy_plainMembers : plain.GivenBy (Json.named plainMembers) where
  once := by decide
  encoded := by
    have hnamed : Json.named plainMembers = [("entity_id", .int 7), ("entity_type", .string "point"),
        ("version", .int 2), ("changeset_id", .int 500)] := rfl
    simp only [hnamed, List.forall_mem_cons]
    exact ⟨fun _ => .inl (Json.mem_of_lookup rfl), fun _ => .inl (Json.mem_of_lookup rfl),
      fun _ => .inl (Json.mem_of_lookup rfl), fun _ => .inl (Json.mem_of_lookup rfl),
      List.forall_mem_nil _⟩
  missing := by
    have hgiven {name : String} (h : name ∈ (Json.named plainMembers).map Prod.fst)
        (habsent : name ∉ (Json.named plainMembers).map Prod.fst) : plain.LeftOut name :=
      absurd h habsent
    simp only [fieldNames, List.forall_mem_cons]
    exact ⟨hgiven (by decide), hgiven (by decide), hgiven (by decide), hgiven (by decide),
      fun _ => rfl, fun _ => rfl, fun _ => rfl, fun _ => rfl, fun _ => rfl, fun _ => rfl,
      List.forall_mem_nil _⟩

theorem writtenObject_plainText : Json.WrittenObject plainMembers plainText := by
  refine ⟨plainMembers.map fun m => (m, m.2.tokens), rfl, ?_, ?_⟩
  · rw [List.forall_mem_map]
    exact fun m _ => Json.spelled_tokens m.2
  · exact Json.Token.spread_text (List.forall_mem_nil _) _

/-- The fields of a point do not make a version in company of that name, though it is not the name of a
field. -/
theorem lone_surrogate_name_refused :
    (∀ p ∈ plain.positions, p.Printable) ∧ plain.GivenBy (Json.named plainMembers) ∧
      Json.WrittenObject plainMembers plainText ∧
      (Codec.decode? plainText : Option Snapshot) = none ∧
      (Codec.decode? plainText : Option Snapshot) ≠ some plain := by
  have hnone : (Codec.decode? plainText : Option Snapshot) = none :=
    decode?_writtenObject writtenObject_plainText
  refine ⟨fun p hp => (nomatch hp), givenBy_plainMembers, writtenObject_plainText, hnone, ?_⟩
  rw [hnone]
  exact nofun

end Snapshot

end MapAudit
