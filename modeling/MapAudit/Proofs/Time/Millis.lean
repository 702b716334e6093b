import MapAudit.Time.Instant

namespace MapAudit.Time.Instant

def floored (t : Instant) : Instant where
  seconds := t.seconds
  nanos := t.nanos / 1000000 * 1000000
  first_le := t.first_le
  le_last := t.le_last
  nanos_lt := by
    have := t.nanos_lt
    omega
  minute_ends h := t.minute_ends (by omega)

theorem nanos_lt_of_not_leap {t : Instant} (h : t.isLeap = false) : t.nanos < 1000000000 := by
  unfold isLeap at h
  rw [decide_eq_false_iff_not] at h
  omega

theorem ofMillis?_toMillis {t : Instant} (h : t.isLeap = false) :
    ofMillis? t.toMillis = some t.floored := by
  have hn := nanos_lt_of_not_leap h
  -- Only a leap second would spill its nanoseconds into the next second.
  have hseconds : t.toMillis / 1000 = t.seconds := by
    unfold toMillis
    omega
  have hnanos : (t.toMillis % 1000).toNat * 1000000 = t.floored.nanos := by
    unfold toMillis floored
    dsimp only
    omega
  unfold ofMillis? ofParts?
  rw [hseconds, hnanos]
  exact dif_pos ⟨t.first_le, t.le_last, t.floored.nanos_lt, t.floored.minute_ends⟩

theorem isLT_compare_iff {a b : Instant} :
    (compare a b).isLT = true ↔
      a.seconds < b.seconds ∨ a.seconds = b.seconds ∧ a.nanos < b.nanos := by
  change ((compare a.seconds b.seconds).then (compare a.nanos b.nanos)).isLT = true ↔ _
  -- The nanoseconds count only if the seconds are equal.
  rcases Int.lt_trichotomy a.seconds b.seconds with h | h | h
  · rw [Int.compare_eq_lt.2 h]
    simp [h]
  · rw [Int.compare_eq_eq.2 h]
    simp only [Ordering.eq_then, Ordering.isLT_iff_eq_lt, Nat.compare_eq_lt]
    omega
  · rw [Int.compare_eq_gt.2 h]
    simp only [Ordering.gt_then]
    constructor
    · intro e
      cases e
    · omega

/-- The later of two instants has the greater number of milliseconds. -/
theorem toMillis_later {a b : Instant} (ha : a.isLeap = false) (hb : b.isLeap = false) :
    (later a b).toMillis = max a.toMillis b.toMillis := by
  have hna := nanos_lt_of_not_leap ha
  have hnb := nanos_lt_of_not_leap hb
  unfold later
  split
  · next h =>
    rw [isLT_compare_iff] at h
    unfold toMillis
    omega
  · next h =>
    rw [isLT_compare_iff] at h
    unfold toMillis
    omega

theorem isLeap_later {a b : Instant} (ha : a.isLeap = false) (hb : b.isLeap = false) :
    (later a b).isLeap = false := by
  unfold later
  split
  · exact hb
  · exact ha

theorem isLeap_laterOf {a b : Option Instant} (ha : ∀ t ∈ a, t.isLeap = false)
    (hb : ∀ t ∈ b, t.isLeap = false) : ∀ t ∈ laterOf a b, t.isLeap = false := by
  cases a with
  | none => exact hb
  | some a =>
    cases b with
    | none => exact ha
    | some b =>
      intro t ht
      cases ht
      exact isLeap_later (ha a rfl) (hb b rfl)

/-- A number of milliseconds is that of the instant it gives. -/
theorem toMillis_of_ofMillis? {ms : Int} {t : Instant} (h : ofMillis? ms = some t) :
    t.toMillis = ms := by
  unfold ofMillis? ofParts? at h
  split at h
  · cases h
    unfold toMillis
    dsimp only
    omega
  · cases h

/-- The milliseconds of the instant can be read back. Those of a leap second at the very end lie in a
second beyond the last. -/
def Recoverable (t : Instant) : Prop := ¬(t.isLeap = true ∧ t.seconds = lastSecond)

instance (t : Instant) : Decidable t.Recoverable :=
  inferInstanceAs (Decidable (¬(t.isLeap = true ∧ t.seconds = lastSecond)))

theorem exists_ofMillis?_toMillis {t : Instant} :
    (∃ u, ofMillis? t.toMillis = some u) ↔ t.Recoverable := by
  cases hleap : t.isLeap with
  | false =>
    refine ⟨fun _ h => ?_, fun _ => ⟨_, ofMillis?_toMillis hleap⟩⟩
    rw [hleap] at h
    exact Bool.false_ne_true h.1
  | true =>
    have hn : 1000000000 ≤ t.nanos := by
      unfold isLeap at hleap
      exact decide_eq_true_iff.1 hleap
    have hlt := t.nanos_lt
    have hfirst := t.first_le
    have hlast := t.le_last
    -- The leap second counts on into the second after it.
    have hseconds : t.toMillis / 1000 = t.seconds + 1 := by
      unfold toMillis
      omega
    have hmillis : (t.toMillis % 1000).toNat < 1000 := by omega
    unfold Recoverable ofMillis? ofParts?
    rw [hleap, hseconds]
    constructor
    · rintro ⟨u, hu⟩ ⟨-, hend⟩
      rw [dif_neg (by omega)] at hu
      cases hu
    · intro hend
      have hne : t.seconds ≠ lastSecond := fun e => hend ⟨rfl, e⟩
      exact ⟨_, dif_pos ⟨by omega, by omega, by omega, fun h => by omega⟩⟩

/-- A leap second has more milliseconds than an instant after it. -/
def Overtakes (s t : Instant) : Prop :=
  s.isLeap = true ∧ s.seconds + 1 = t.seconds ∧ t.toMillis < s.toMillis

instance (s t : Instant) : Decidable (s.Overtakes t) :=
  inferInstanceAs (Decidable (s.isLeap = true ∧ s.seconds + 1 = t.seconds ∧ t.toMillis < s.toMillis))

/-- Milliseconds keep the order of instants but where a leap second overtakes. -/
theorem toMillis_le_iff {s t : Instant} (h : ¬(compare t s).isLT = true) :
    s.toMillis ≤ t.toMillis ↔ ¬s.Overtakes t := by
  rw [isLT_compare_iff] at h
  have hs := s.nanos_lt
  have ht := t.nanos_lt
  constructor
  · rintro hle ⟨-, -, hlt⟩
    omega
  · intro hnot
    refine Int.not_lt.1 fun hlt => hnot ⟨?_, ?_, hlt⟩
    · unfold toMillis at hlt
      unfold isLeap
      rw [decide_eq_true_iff]
      omega
    · unfold toMillis at hlt
      omega

structure Greatest (t : Instant) (ts : List Instant) : Prop where
  mem : t ∈ ts
  not_lt : ∀ s ∈ ts, ¬(compare t s).isLT = true

namespace Greatest
variable {t : Instant} {ts : List Instant}

theorem singleton (t : Instant) : t.Greatest [t] where
  mem := List.mem_cons_self
  not_lt s hs := by
    cases List.mem_singleton.1 hs
    rw [isLT_compare_iff]
    omega

/-- The later of two instants stands for both. -/
theorem of_later {a b : Instant} (h : t.Greatest (later a b :: ts)) :
    t.Greatest (a :: b :: ts) := by
  have hlater := h.not_lt (later a b) List.mem_cons_self
  rw [isLT_compare_iff] at hlater
  have hab : ¬(compare t a).isLT = true ∧ ¬(compare t b).isLT = true := by
    rw [isLT_compare_iff, isLT_compare_iff]
    unfold later at hlater
    split at hlater
    · next hlt =>
      rw [isLT_compare_iff] at hlt
      omega
    · next hlt =>
      rw [isLT_compare_iff] at hlt
      omega
  refine ⟨?_, fun s hs => ?_⟩
  · rcases List.mem_cons.1 h.mem with rfl | hmem
    · unfold later
      split <;> simp
    · exact List.mem_cons_of_mem _ (List.mem_cons_of_mem _ hmem)
  · rcases List.mem_cons.1 hs with rfl | hs
    · exact hab.1
    · rcases List.mem_cons.1 hs with rfl | hs
      · exact hab.2
      · exact h.not_lt s (List.mem_cons_of_mem _ hs)

theorem of_laterOf {a b : Option Instant} (h : t.Greatest ((laterOf a b).toList ++ ts)) :
    t.Greatest (a.toList ++ (b.toList ++ ts)) := by
  cases a with
  | none => exact h
  | some a =>
    cases b with
    | none => exact h
    | some b => exact of_later h

theorem exists_max?_toMillis (h : t.Greatest ts) : ∃ last, (ts.map toMillis).max? = some last := by
  cases hnone : (ts.map toMillis).max? with
  | some last => exact ⟨last, rfl⟩
  | none =>
    obtain rfl := List.map_eq_nil_iff.1 (List.max?_eq_none_iff.1 hnone)
    cases h.mem

/-- The greatest number of milliseconds is that of the greatest instant if and only if no leap second
overtakes it. -/
theorem max?_toMillis_eq_iff (h : t.Greatest ts) {last : Int}
    (hlast : (ts.map toMillis).max? = some last) :
    last = t.toMillis ↔ ∀ s ∈ ts, ¬s.Overtakes t := by
  obtain ⟨hmem, hreach⟩ := List.max?_eq_some_iff.1 hlast
  constructor
  · rintro rfl s hs
    rw [← toMillis_le_iff (h.not_lt s hs)]
    exact hreach s.toMillis (List.mem_map_of_mem hs)
  · intro hnot
    refine Int.le_antisymm ?_ (hreach t.toMillis (List.mem_map_of_mem h.mem))
    obtain ⟨s, hs, rfl⟩ := List.mem_map.1 hmem
    exact (toMillis_le_iff (h.not_lt s hs)).2 (hnot s hs)

end Greatest

end MapAudit.Time.Instant
