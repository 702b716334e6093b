import Mathlib.Algebra.Group.Nat.Defs
import MapAudit.Proofs.Stream.Lines

namespace MapAudit.Stream

theorem cons_lt_cons_of_lt_256 {m n : Nat} (hm : m < 256) (hn : n < 256) {x y : Bytes} :
    UInt8.ofNat m :: x < UInt8.ofNat n :: y ↔ m < n ∨ m = n ∧ x < y := by
  rw [List.cons_lt_cons_iff, UInt8.lt_iff_toNat_lt, ← UInt8.toNat_inj, UInt8.toNat_ofNat',
    UInt8.toNat_ofNat', Nat.mod_eq_of_lt hm, Nat.mod_eq_of_lt hn]

/-- The last `k` bytes of the encoding of a character, with six bits of its number each. -/
def trailing (v : Nat) : Nat → Bytes
  | 0 => []
  | k + 1 => UInt8.ofNat (v / 64 ^ k % 64 + 128) :: trailing v k

def trailingCount (v : Nat) : Nat :=
  if v ≤ 0x7f then 0 else if v ≤ 0x7ff then 1 else if v ≤ 0xffff then 2 else 3

/-- The first byte tells how many follow, and holds the bits that these do not hold. -/
def leading (v : Nat) : Nat :=
  v / 64 ^ trailingCount v + [0, 192, 224, 240].getD (trailingCount v) 0

theorem leading_cases (v : Nat) :
    (v ≤ 0x7f ∧ trailingCount v = 0 ∧ leading v = v) ∨
      (0x80 ≤ v ∧ v ≤ 0x7ff ∧ trailingCount v = 1 ∧ leading v = v / 64 + 192) ∨
      (0x800 ≤ v ∧ v ≤ 0xffff ∧ trailingCount v = 2 ∧ leading v = v / 4096 + 224) ∨
      (0x10000 ≤ v ∧ trailingCount v = 3 ∧ leading v = v / 262144 + 240) := by
  unfold leading trailingCount
  split
  · simp
    omega
  · split
    · simp
      omega
    · split
      · simp
        omega
      · simp
        omega

theorem leading_lt {v : Nat} (h : v < 0x110000) : leading v < 256 := by
  rcases leading_cases v with ⟨_, _, hv⟩ | ⟨_, _, _, hv⟩ | ⟨_, _, _, hv⟩ | ⟨_, _, hv⟩ <;> omega

/-- A greater number has a greater first byte, or else the same one and more in the others. -/
theorem leading_lt_or {m n : Nat} (h : m < n) :
    leading m < leading n ∨ leading m = leading n ∧ trailingCount m = trailingCount n ∧
      m % 64 ^ trailingCount n < n % 64 ^ trailingCount n := by
  rcases leading_cases n with ⟨_, hn, hn'⟩ | ⟨_, _, hn, hn'⟩ | ⟨_, _, hn, hn'⟩ | ⟨_, hn, hn'⟩ <;>
    rcases leading_cases m with ⟨_, hm, hm'⟩ | ⟨_, _, hm, hm'⟩ | ⟨_, _, hm, hm'⟩ | ⟨_, hm, hm'⟩ <;>
    simp only [hn, hm, Nat.reducePow, true_and] <;> omega

theorem trailing_append_lt {m n k : Nat} (h : m % 64 ^ k < n % 64 ^ k) (x y : Bytes) :
    trailing m k ++ x < trailing n k ++ y := by
  induction k with
  | zero => omega
  | succ k ih =>
    rw [Nat.mod_pow_succ, Nat.mod_pow_succ] at h
    have hpos : 0 < 64 ^ k := Nat.pow_pos (by decide)
    have hm := Nat.mod_lt m hpos
    have hn := Nat.mod_lt n hpos
    unfold trailing
    rw [List.cons_append, List.cons_append, cons_lt_cons_of_lt_256 (by omega) (by omega)]
    rcases Nat.lt_trichotomy (m / 64 ^ k % 64) (n / 64 ^ k % 64) with hlt | heq | hgt
    · exact .inl (by omega)
    · rw [heq] at h
      exact .inr ⟨by omega, ih (by omega)⟩
    · -- The remainders cannot make up for a smaller digit.
      have hdigit := Nat.mul_le_mul_left (64 ^ k) (Nat.succ_le_of_lt hgt)
      rw [Nat.mul_succ] at hdigit
      omega

theorem toNat_val_lt (c : Char) : c.val.toNat < 0x110000 := by
  rcases c.valid with h | h
  · exact Nat.lt_trans h (by decide)
  · exact h.2

theorem utf8EncodeChar_eq (c : Char) :
    String.utf8EncodeChar c =
      UInt8.ofNat (leading c.val.toNat) :: trailing c.val.toNat (trailingCount c.val.toNat) := by
  have hc := toNat_val_lt c
  unfold String.utf8EncodeChar
  dsimp only
  generalize c.val.toNat = v at hc
  rcases leading_cases v with ⟨h, hk, hv⟩ | ⟨h, h', hk, hv⟩ | ⟨h, h', hk, hv⟩ | ⟨h, hk, hv⟩
  · rw [if_pos h, hk, hv]
    rfl
  · rw [if_neg (by omega), if_pos h', hk, hv, Nat.mod_eq_of_lt (by omega)]
    simp [trailing]
  · rw [if_neg (by omega), if_neg (by omega), if_pos h', hk, hv, Nat.mod_eq_of_lt (by omega)]
    simp [trailing]
  · rw [if_neg (by omega), if_neg (by omega), if_neg (by omega), hk, hv,
      Nat.mod_eq_of_lt (by omega)]
    simp [trailing]

/-- The bytes of two characters differ before either comes to its end, so what follows does not
matter. -/
theorem utf8EncodeChar_append_lt {c d : Char} (h : c < d) (x y : Bytes) :
    String.utf8EncodeChar c ++ x < String.utf8EncodeChar d ++ y := by
  have hval : c.val.toNat < d.val.toNat := h
  rw [utf8EncodeChar_eq, utf8EncodeChar_eq, List.cons_append, List.cons_append,
    cons_lt_cons_of_lt_256 (leading_lt (toNat_val_lt c)) (leading_lt (toNat_val_lt d))]
  rcases leading_lt_or hval with hlead | ⟨hlead, hcount, hrest⟩
  · exact .inl hlead
  · rw [hcount]
    -- Equal first bytes promise equally many others, so the bits decide.
    exact .inr ⟨hlead, trailing_append_lt hrest x y⟩

theorem flatMap_utf8EncodeChar_lt {cs ds : List Char} (h : cs < ds) :
    cs.flatMap String.utf8EncodeChar < ds.flatMap String.utf8EncodeChar := by
  induction h with
  | nil =>
    rw [List.flatMap_cons, utf8EncodeChar_eq]
    exact List.nil_lt_cons _ _
  | rel h =>
    rw [List.flatMap_cons, List.flatMap_cons]
    exact utf8EncodeChar_append_lt h _ _
  | cons _ ih =>
    rw [List.flatMap_cons, List.flatMap_cons]
    exact List.append_left_lt ih

/-- Texts have the order of their bytes. -/
theorem ofText_lt_ofText {s t : String} (h : s < t) : ofText s < ofText t := by
  rw [ofText_eq, ofText_eq]
  exact flatMap_utf8EncodeChar_lt h

end MapAudit.Stream
