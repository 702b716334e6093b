import Mathlib.Data.List.Nodup
import MapAudit.Json.Fields

namespace MapAudit.Json

section Members
variable {names : List String} {members : List (String × Json)} {name : String}

theorem lookup_known (h : name ∈ names) :
    (known names members).lookup name = members.lookup name := by
  unfold known
  induction members with
  | nil => rfl
  | cons m ms ih =>
    obtain ⟨k, v⟩ := m
    by_cases hk : name = k
    · subst hk
      simp only [List.filter_cons, List.contains_iff_mem.2 h, if_true, List.lookup_cons_self]
    · have hbeq : (name == k) = false := beq_eq_false_iff_ne.2 hk
      rw [List.filter_cons]
      split <;> simp only [List.lookup_cons, hbeq, ih]

theorem mem_of_lookup {v : Json} (h : members.lookup name = some v) : (name, v) ∈ members := by
  obtain ⟨before, after, rfl, -⟩ := List.lookup_eq_some_iff.1 h
  exact List.mem_append_right before List.mem_cons_self

/-- Where names do not repeat, every member is found under its name. -/
theorem lookup_eq_of_mem {v : Json} (hn : (members.map Prod.fst).Nodup)
    (h : (name, v) ∈ members) : members.lookup name = some v := by
  obtain ⟨before, after, rfl⟩ := List.append_of_mem h
  refine List.lookup_eq_some_iff.2 ⟨before, after, rfl, fun m hm => bne_iff_ne.2 ?_⟩
  rw [List.map_append, List.map_cons] at hn
  exact fun hname => (List.nodup_append.1 hn).2.2 _ (List.mem_map_of_mem hm) _
    List.mem_cons_self hname.symm

theorem map_fst_known (names : List String) (members : List (String × Json)) :
    (known names members).map Prod.fst = (members.map Prod.fst).filter names.contains := by
  rw [List.filter_map]
  rfl

/-- Fields that are each given at most once are read from among the members. -/
theorem fields?_of_count (h : ∀ name ∈ names, (members.map Prod.fst).count name ≤ 1) :
    (object members).fields? names = some ⟨false, known names members⟩ := by
  have hnodup : ((known names members).map Prod.fst).Nodup := by
    rw [map_fst_known]
    refine List.nodup_iff_count_le_one.2 fun name => ?_
    by_cases hname : name ∈ names
    · rw [List.count_filter (List.contains_iff_mem.2 hname)]
      exact h name hname
    · rw [List.count_eq_zero_of_not_mem fun hmem =>
        hname (List.contains_iff_mem.1 (List.mem_filter.1 hmem).2)]
      exact Nat.zero_le 1
  unfold fields?
  simp only [hnodup, if_true]

/-- A field that is given more than once is not read, whatever stands under its name. -/
theorem fields?_of_repeated (hname : name ∈ names) (h : 1 < (members.map Prod.fst).count name) :
    (object members).fields? names = none := by
  have hnodup : ¬((known names members).map Prod.fst).Nodup := fun hn => by
    have hcount := List.nodup_iff_count_le_one.1 hn name
    rw [map_fst_known, List.count_filter (List.contains_iff_mem.2 hname)] at hcount
    omega
  unfold fields?
  simp only [hnodup, if_false]

theorem given_of_fields? {f : Fields} (h : (object members).fields? names = some f) :
    f.given = known names members := by
  unfold fields? at h
  dsimp only at h
  split at h
  · rw [← Option.some.inj h]
  · cases h

/-- A field that is not among the members is not found. -/
theorem lookup_known_eq_none (h : name ∉ members.map Prod.fst) :
    (known names members).lookup name = none := by
  refine List.lookup_eq_none_iff.2 fun m hm => bne_iff_ne.2 fun hname => h ?_
  rw [hname]
  exact List.mem_map_of_mem (List.mem_filter.1 hm).1

end Members

theorem fields?_object (f : Fields) (names : List String) (hobject : f.byPosition = false)
    (hnames : f.given.map Prod.fst = names) (hn : names.Nodup) :
    (object f.given).fields? names = some f := by
  have hknown : known names f.given = f.given := by
    unfold known
    rw [List.filter_eq_self]
    intro m hm
    exact List.contains_iff_mem.2 (hnames ▸ List.mem_map_of_mem hm)
  obtain ⟨byPosition, given⟩ := f
  cases hobject
  unfold fields?
  simp only [hknown, hnames, hn, if_true]

/-- Whatever reads the fields of a record finds them as they were written. -/
theorem bind_fields?_object {α : Type} (f : Fields) (names : List String)
    (read : Fields → Option α) (hobject : f.byPosition = false)
    (hnames : f.given.map Prod.fst = names) (hn : names.Nodup) :
    ((object f.given).fields? names).bind read = read f := by
  rw [fields?_object f names hobject hnames hn, Option.bind_some]

namespace Fields
variable {α : Type} {f : Fields} {name : String} {v : Json} {read : Json → Option α} {a : α}

theorem required?_of_lookup (hlookup : f.given.lookup name = some v) (hread : read v = some a) :
    f.required? name read = some a := by
  unfold required?
  rw [hlookup, Option.bind_some, hread]

theorem isSome_lookup_of_required? (h : f.required? name read = some a) :
    (f.given.lookup name).isSome = true := by
  obtain ⟨v, hv, -⟩ := Option.bind_eq_some_iff.1 h
  rw [hv]
  rfl

theorem optional?_of_lookup {a : Option α} (hlookup : f.given.lookup name = some v)
    (hread : nullable? read v = some a) : f.optional? name read = some a := by
  unfold optional?
  rw [hlookup]
  exact hread

theorem withDefault?_of_lookup {fallback : α} (hlookup : f.given.lookup name = some v)
    (hread : read v = some a) : f.withDefault? name fallback read = some a := by
  unfold withDefault?
  rw [hlookup]
  exact hread

end Fields

/-- A value that may be absent is read back, unless it is written as an absent one is. -/
theorem nullable?_option {α : Type} {read : Json → Option α} {write : α → Json} {a : Option α}
    (hread : ∀ x ∈ a, read (write x) = some x) (hnull : ∀ x, write x ≠ .null) :
    nullable? read (option write a) = some a := by
  cases a with
  | none => rfl
  | some x =>
    change nullable? read (write x) = some (some x)
    unfold nullable?
    split
    · next h => exact absurd h (hnull x)
    · rw [hread x rfl]
      rfl

end MapAudit.Json
