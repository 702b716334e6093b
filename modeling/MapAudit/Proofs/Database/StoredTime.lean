import MapAudit.Proofs.Database.Row

namespace MapAudit
open Time

namespace Time.Instant

theorem isLE_compare_iff {a b : Instant} :
    (compare a b).isLE = true ↔
      a.seconds < b.seconds ∨ a.seconds = b.seconds ∧ a.nanos ≤ b.nanos := by
  change ((compare a.seconds b.seconds).then (compare a.nanos b.nanos)).isLE = true ↔ _
  rcases Int.lt_trichotomy a.seconds b.seconds with h | h | h
  · rw [Int.compare_eq_lt.2 h]
    simp [h]
  · rw [Int.compare_eq_eq.2 h, Ordering.eq_then, Nat.isLE_compare]
    omega
  · rw [Int.compare_eq_gt.2 h]
    simp only [Ordering.gt_then]
    constructor
    · intro e
      cases e
    · omega

def IsWhole (t : Instant) : Prop := t.nanos % 1000000 = 0

/-- The greatest instant of whole milliseconds that is not after `t`. -/
structure FloorOf (u t : Instant) : Prop where
  whole : u.IsWhole
  le : (compare u t).isLE = true
  greatest : ∀ w : Instant, w.IsWhole → (compare w t).isLE = true → (compare w u).isLE = true

theorem floorOf_floored (t : Instant) : t.floored.FloorOf t where
  whole := by
    unfold IsWhole floored
    dsimp only
    omega
  le := by
    rw [isLE_compare_iff]
    unfold floored
    dsimp only
    omega
  greatest w hw hle := by
    rw [isLE_compare_iff] at hle ⊢
    unfold IsWhole at hw
    unfold floored
    dsimp only
    omega

/-- Without leap seconds an earlier instant has no more milliseconds than a later one. -/
theorem toMillis_mono {s t : Instant} (hs : s.isLeap = false) (h : (compare s t).isLE = true) :
    s.toMillis ≤ t.toMillis := by
  have hnanos := nanos_lt_of_not_leap hs
  rw [isLE_compare_iff] at h
  unfold toMillis
  omega

/-- The milliseconds of an instant fit in 64 bits. -/
theorem toInt_ofInt_toMillis (t : Instant) : (Int64.ofInt t.toMillis).toInt = t.toMillis := by
  have hfirst := t.first_le
  have hlast := t.le_last
  have hnanos := t.nanos_lt
  unfold firstSecond at hfirst
  unfold lastSecond at hlast
  apply Int64.toInt_ofInt_of_le
  · unfold toMillis
    omega
  · unfold toMillis
    omega

/-- No number of milliseconds gives a leap second. -/
theorem isLeap_of_ofMillis? {ms : Int} {t : Instant} (h : ofMillis? ms = some t) :
    t.isLeap = false := by
  unfold ofMillis? ofParts? at h
  split at h
  · cases h
    unfold isLeap
    rw [decide_eq_false_iff_not]
    dsimp only
    omega
  · cases h

end Time.Instant
open Instant

/-- The numbers of milliseconds that can be read are those of instants. -/
theorem Row.exists_instant_eq_ok_iff {table : String} {ms : Int} :
    (∃ u, Row.instant table ms = .ok u) ↔ ∃ t : Instant, t.isLeap = false ∧ t.toMillis = ms := by
  constructor
  · rintro ⟨u, hu⟩
    rw [Row.instant_eq_ok] at hu
    exact ⟨u, isLeap_of_ofMillis? hu, toMillis_of_ofMillis? hu⟩
  · rintro ⟨t, ht, rfl⟩
    exact ⟨t.floored, Row.instant_toMillis table ht⟩

/-- The number of milliseconds that is stored for an instant is an exact floor. It fits in 64 bits; but for
leap seconds it is read back, as the greatest instant of whole milliseconds that is not after the one
stored, and an earlier instant has no greater number than a later one. The numbers of 64 bits that can be
read are those of instants, and each is the number of the instant that is read from it. -/
theorem stored_millis_are_exact_floor (table : String) :
    (∀ t : Instant, (Int64.ofInt t.toMillis).toInt = t.toMillis) ∧
      (∀ t : Instant, t.isLeap = false →
        ∃ u, Row.instant table t.toMillis = .ok u ∧ u.FloorOf t) ∧
      (∀ s t : Instant, s.isLeap = false → t.isLeap = false → (compare s t).isLE = true →
        s.toMillis ≤ t.toMillis) ∧
      (∀ m : Int64, (∃ u, Row.instant table m.toInt = .ok u) ↔
        ∃ t : Instant, t.isLeap = false ∧ t.toMillis = m.toInt) ∧
      ∀ (m : Int64) (u : Instant), Row.instant table m.toInt = .ok u →
        u.toMillis = m.toInt ∧ Row.instant table u.toMillis = .ok u := by
  refine ⟨toInt_ofInt_toMillis,
    fun t ht => ⟨t.floored, Row.instant_toMillis table ht, floorOf_floored t⟩,
    fun s t hs _ hle => toMillis_mono hs hle, fun m => Row.exists_instant_eq_ok_iff,
    fun m u hu => ?_⟩
  have hmillis : u.toMillis = m.toInt := toMillis_of_ofMillis? (Row.instant_eq_ok.1 hu)
  exact ⟨hmillis, hmillis.symm ▸ hu⟩

/-- A nanosecond after the very first instant. -/
def Time.Instant.afterBeginning : Instant :=
  ⟨firstSecond, 1, by decide, by decide, by decide, by decide⟩

/-- Two seconds before 1970, but for 1.5 milliseconds. -/
def Time.Instant.endOfSixties : Instant :=
  ⟨-2, 1500000, by decide, by decide, by decide, by decide⟩

/-- A time before 1970 is rounded down and not towards 1970. -/
theorem stored_millis_before_epoch :
    Instant.endOfSixties.toMillis = -1999 ∧
      Instant.afterBeginning.toMillis ≤ Instant.endOfSixties.toMillis ∧
      ∃ u, Row.instant "changes" (-1999) = .ok u ∧ u.FloorOf .endOfSixties ∧
        u.toMillis = -1999 ∧ Row.instant "changes" u.toMillis = .ok u := by
  obtain ⟨-, hfloor, hmono, -, hback⟩ := stored_millis_are_exact_floor "changes"
  have hmillis : Instant.endOfSixties.toMillis = -1999 := by decide
  obtain ⟨u, hu, hgreatest⟩ := hfloor .endOfSixties (by decide)
  rw [hmillis] at hu
  exact ⟨hmillis, hmono .afterBeginning .endOfSixties (by decide) (by decide) (by decide), u, hu,
    hgreatest, hback (-1999) u hu⟩

end MapAudit
