import MapAudit.Proofs.Changeset.Window

namespace MapAudit

namespace Window

@[simp] theorem capacity_insert (w : Window) (id : Int64) :
    (w.insert id).2.capacity = w.capacity := by
  rcases w.insert_cases id with ⟨-, h⟩ | ⟨-, -, ids, h, -⟩ | ⟨-, -, oldest, rest, ids, -, h, -⟩ <;>
    rw [h]

inductive Call where
  | insert (id : Int64)
  | clear
  deriving DecidableEq, Repr

structure History where
  window : Window
  /-- The ids that were not there when they were inserted, in the order of the calls. -/
  admitted : List Int64 := []
  /-- The ids that had to leave, in the order in which they left. -/
  evicted : List Int64 := []

namespace History

def after (h : History) : Call → History
  | .insert id =>
    { window := (h.window.insert id).2
      admitted := if h.window.contains id then h.admitted else h.admitted ++ [id]
      evicted := h.evicted ++ (h.window.insert id).1.toList }
  | .clear => { window := h.window.clear }

/-- Every admitted id either has left or is still there, and there are as many as there is room for. -/
structure Exact (h : History) : Prop where
  conserved : h.evicted ++ h.window.toList = h.admitted
  length_eq : h.window.toList.length = min h.window.capacity h.admitted.length

variable {h : History}

@[simp] theorem capacity_after (h : History) (call : Call) :
    (h.after call).window.capacity = h.window.capacity := by
  cases call with
  | insert id => exact h.window.capacity_insert id
  | clear => rfl

theorem exact_of_empty {w : Window} (hw : w.toList = []) : Exact { window := w } where
  conserved := hw
  length_eq := by simp [hw]

theorem Exact.after (hx : h.Exact) (call : Call) : (h.after call).Exact := by
  obtain ⟨hconserved, hlength⟩ := hx
  cases call with
  | clear => exact exact_of_empty rfl
  | insert id =>
    unfold History.after
    -- The id is there already, or there is room for it, or the oldest one has to leave.
    rcases h.window.insert_cases id with
      ⟨hc, hi⟩ | ⟨hc, hroom, ids, hi, hids⟩ | ⟨hc, hfull, oldest, rest, ids, hlist, hi, hids⟩
    · simp only [hi, hc, if_true, Option.toList_none, List.append_nil]
      exact ⟨hconserved, hlength⟩
    · simp only [hi, hc, Bool.false_eq_true, if_false, Option.toList_none, List.append_nil]
      have hw : Window.toList { h.window with ids } = h.window.toList ++ [id] := hids
      constructor
      · dsimp only
        rw [hw, ← List.append_assoc, hconserved]
      · -- There was room, so nothing had left yet.
        dsimp only
        rw [hw, List.length_append, List.length_append, List.length_singleton]
        omega
    · simp only [hi, hc, Bool.false_eq_true, if_false, Option.toList_some]
      have hw : Window.toList { h.window with ids } = rest ++ [id] := hids
      rw [hlist] at hconserved hlength hfull
      constructor
      · dsimp only
        rw [hw, ← hconserved]
        simp
      · -- One has come and one has left.
        dsimp only
        rw [hw, List.length_append, List.length_append, List.length_singleton]
        rw [List.length_cons] at hlength hfull
        omega

/-- The window remembers the latest admitted ids. -/
theorem Exact.toList_eq_drop (hx : h.Exact) :
    h.window.toList = h.admitted.drop (h.admitted.length - h.window.capacity) := by
  have hlength := hx.length_eq
  rw [← hx.conserved, List.length_append] at hlength
  have hleft : (h.evicted ++ h.window.toList).length - h.window.capacity = h.evicted.length := by
    rw [List.length_append]
    omega
  rw [← hx.conserved, hleft, List.drop_left]

theorem Exact.foldl (hx : h.Exact) (calls : List Call) : (calls.foldl History.after h).Exact := by
  induction calls generalizing h with
  | nil => exact hx
  | cons call calls ih => exact ih (hx.after call)

theorem capacity_foldl (calls : List Call) :
    (calls.foldl History.after h).window.capacity = h.window.capacity := by
  induction calls generalizing h with
  | nil => rfl
  | cons call calls ih => rw [List.foldl_cons, ih, capacity_after]

end History

def history (n : Nat) (calls : List Call) : History :=
  calls.foldl History.after { window := .ofCapacity n }

variable (n : Nat) (calls : List Call)

theorem exact_history : (history n calls).Exact :=
  (History.exact_of_empty rfl).foldl calls

theorem capacity_history : (history n calls).window.capacity = max n 1 :=
  History.capacity_foldl calls

theorem toList_history :
    (history n calls).window.toList =
      (history n calls).admitted.drop ((history n calls).admitted.length - max n 1) := by
  rw [(exact_history n calls).toList_eq_drop, capacity_history]

theorem size_history :
    (history n calls).window.size = min (max n 1) (history n calls).admitted.length := by
  rw [size_eq, (exact_history n calls).length_eq, capacity_history]

end Window

end MapAudit
