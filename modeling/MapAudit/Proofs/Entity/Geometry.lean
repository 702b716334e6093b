import MapAudit.Entity.Snapshot

namespace MapAudit
open Float.Model

/-- Finite floats of one sign are equal if exponents and mantissas are. -/
theorem unpacked_beq_finite {s : UnpackedFloat.Sign} {m n : Nat} {e f : Int} {p q} :
    (UnpackedFloat.finite s m e p).beq (.finite s n f q) = true ↔ e = f ∧ m = n := by
  cases s with
  | positive =>
    change (some ((compare e f).then (compare m n)) == some .eq) = true ↔ _
    simp [Ordering.then_eq_eq]
  | negative =>
    change (some ((compare e f).then (compare m n)).swap == some .eq) = true ↔ _
    simp [Ordering.then_eq_eq]

theorem unpacked_beq_self (x : UnpackedFloat) (h : x.isNaN = false) : x.beq x = true := by
  cases x with
  | notANumber => cases h
  | infinity s => cases s <;> rfl
  | zero s => rfl
  | finite s m e p => exact unpacked_beq_finite.2 ⟨rfl, rfl⟩

theorem unpacked_beq_symm (x y : UnpackedFloat) (h : x.beq y = true) : y.beq x = true := by
  cases x with
  | notANumber => cases y <;> cases h
  | infinity s =>
    cases y with
    | infinity t => cases s <;> cases t <;> first | rfl | cases h
    | notANumber => cases s <;> cases h
    | zero t => cases s <;> cases h
    | finite t m e p => cases s <;> cases t <;> cases h
  | zero s =>
    cases y with
    | infinity t => cases t <;> cases h
    | notANumber => cases h
    | zero t => rfl
    | finite t m e p => cases t <;> cases h
  | finite s m e p =>
    cases y with
    | infinity t => cases s <;> cases t <;> cases h
    | notANumber => cases s <;> cases h
    | zero t => cases s <;> cases h
    | finite t n f q =>
      by_cases hst : s = t
      · subst hst
        obtain ⟨hexponent, hmantissa⟩ := unpacked_beq_finite.1 h
        exact unpacked_beq_finite.2 ⟨hexponent.symm, hmantissa.symm⟩
      · cases s <;> cases t <;> first | cases h | exact absurd rfl hst

theorem float_beq_self {x : Float} (h : x.isNaN = false) : (x == x) = true :=
  unpacked_beq_self x.toModel.unpack h

theorem float_beq_symm {x y : Float} (h : (x == y) = true) : (y == x) = true :=
  unpacked_beq_symm x.toModel.unpack y.toModel.unpack h

namespace Position

/-- Neither coordinate is a NaN. -/
def IsNumber (p : Position) : Prop := p.lon.isNaN = false ∧ p.lat.isNaN = false

theorem beq_self {p : Position} (h : p.IsNumber) : (p == p) = true :=
  Bool.and_eq_true_iff.2 ⟨float_beq_self h.1, float_beq_self h.2⟩

theorem beq_symm {p q : Position} (h : (p == q) = true) : (q == p) = true := by
  obtain ⟨hlon, hlat⟩ := Bool.and_eq_true_iff.1 h
  exact Bool.and_eq_true_iff.2 ⟨float_beq_symm hlon, float_beq_symm hlat⟩

theorem list_beq_self (ps : List Position) (h : ∀ p ∈ ps, p.IsNumber) : (ps == ps) = true := by
  induction ps with
  | nil => rfl
  | cons p ps ih =>
    exact Bool.and_eq_true_iff.2
      ⟨beq_self (h p List.mem_cons_self), ih fun q hq => h q (List.mem_cons_of_mem _ hq)⟩

theorem list_beq_symm (ps qs : List Position) (h : (ps == qs) = true) : (qs == ps) = true := by
  induction ps generalizing qs with
  | nil =>
    cases qs with
    | nil => rfl
    | cons q qs => cases h
  | cons p ps ih =>
    cases qs with
    | nil => cases h
    | cons q qs =>
      obtain ⟨hp, hps⟩ := Bool.and_eq_true_iff.1 h
      exact Bool.and_eq_true_iff.2 ⟨beq_symm hp, ih qs hps⟩

end Position

namespace Geometry

def positions : Geometry → List Position
  | point p => [p]
  | line ps => ps

theorem beq_self {g : Geometry} (h : ∀ p ∈ g.positions, p.IsNumber) : (g == g) = true := by
  cases g with
  | point p => exact Position.beq_self (h p (List.mem_singleton.2 rfl))
  | line ps => exact Position.list_beq_self ps h

theorem beq_symm {f g : Geometry} (h : (f == g) = true) : (g == f) = true := by
  cases f with
  | point p =>
    cases g with
    | point q => exact Position.beq_symm h
    | line qs => cases h
  | line ps =>
    cases g with
    | point q => cases h
    | line qs => exact Position.list_beq_symm ps qs h

/-- Absent geometries are equal. -/
theorem option_beq_self {g : Option Geometry} (h : ∀ p ∈ g.elim [] positions, p.IsNumber) :
    (g == g) = true := by
  cases g with
  | none => rfl
  | some g => exact beq_self h

theorem option_beq_symm {f g : Option Geometry} (h : (f == g) = true) : (g == f) = true := by
  cases f with
  | none =>
    cases g with
    | none => rfl
    | some g => cases h
  | some f =>
    cases g with
    | none => cases h
    | some g => exact beq_symm h

/-- A normal form has no positions of its own. -/
theorem positions_of_normal {kind : EntityKind} {g : Option Geometry} {p : Position}
    (h : p ∈ (normal kind g).elim [] positions) : p ∈ g.elim [] positions := by
  cases g with
  | none => exact h
  | some g =>
    change p ∈ (normalize kind g).elim [] positions at h
    unfold normalize at h
    split at h
    · cases h
    · exact h
    · exact h

end Geometry

namespace Snapshot

def positions (s : Snapshot) : List Position := s.geometry.elim [] Geometry.positions

theorem mem_positions {s : Snapshot} {g : Geometry} {p : Position} (hg : g ∈ s.geometry)
    (hp : p ∈ g.positions) : p ∈ s.positions := by
  unfold positions
  rw [hg]
  exact hp

theorem positions_of_shape {s : Snapshot} {p : Position}
    (h : p ∈ s.shape.elim [] Geometry.positions) : p ∈ s.positions :=
  Geometry.positions_of_normal h

/-- The geometry of a version whose coordinates are numbers equals itself in normal form. -/
theorem shape_beq_self {s : Snapshot} (h : ∀ p ∈ s.positions, p.IsNumber) :
    (s.shape == s.shape) = true :=
  Geometry.option_beq_self fun p hp => h p (positions_of_shape hp)

end Snapshot

end MapAudit
