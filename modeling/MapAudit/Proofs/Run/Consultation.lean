import MapAudit.Proofs.Changeset.Fifo
import MapAudit.Proofs.Run.InMemory

namespace MapAudit
open Time

namespace MemoryStore

/-- To look for a changeset is to ask once. -/
theorem existsChecks_withChangeset (m : MemoryStore) (c : Changeset) :
    (m.withChangeset c).existsChecks = m.existsChecks + 1 := by
  unfold withChangeset
  split <;> rfl

end MemoryStore

namespace Ledger

/-- A changeset that is to exist, with what it is created with where it does not. -/
structure Request where
  id : Int64
  userId : Int64
  createdAt : Instant
  deriving DecidableEq, Repr

def ensureAll [Store σ] (l : Ledger) : List Request → Step σ Ledger
  | [] => return l
  | r :: rs => do
    let (_, _, l) ← l.ensure r.id r.userId r.createdAt
    l.ensureAll rs

def Request.call (r : Request) : Window.Call := .insert r.id

/-- The store is asked once for an id outside the window, and left alone for one inside it. The window
admits the id either way. -/
theorem ensure_answers (l : Ledger) (r : Request) (m : MemoryStore) :
    ∃ ensured evicted m', l.ensure r.id r.userId r.createdAt m =
        .ok (ensured, evicted, { l with window := (l.window.insert r.id).2 }) m' ∧
      (l.window.contains r.id = true → ensured = .cached ∧ m' = m) ∧
      (l.window.contains r.id = false →
        ensured ≠ .cached ∧ m'.existsChecks = m.existsChecks + 1) := by
  cases hc : l.window.contains r.id with
  | true =>
    refine ⟨.cached, none, m, ?_, fun _ => ⟨rfl, rfl⟩, fun h => by cases h⟩
    rw [Window.insert_of_contains hc]
    exact ensure_of_contains hc r.userId r.createdAt m
  | false =>
    refine ⟨_, _, _, Run.ledger_ensure_eq r.createdAt l m r.id r.userId hc, ?_, ?_⟩
    · intro h
      cases h
    · intro _
      refine ⟨?_, m.existsChecks_withChangeset _⟩
      split
      · decide
      · decide

/-- Requests never fail in memory. The window is the one that the ids alone would have left, and the
store was asked as often as an id was admitted to it. -/
theorem ensureAll_answers {l : Ledger} {h : Window.History} (hw : l.window = h.window)
    (rs : List Request) (m : MemoryStore) :
    let h' := (rs.map Request.call).foldl Window.History.after h
    ∃ l' m', l.ensureAll rs m = .ok l' m' ∧ l'.window = h'.window ∧
      m'.existsChecks + h.admitted.length = m.existsChecks + h'.admitted.length := by
  induction rs generalizing l h m with
  | nil => exact ⟨l, m, rfl, hw, rfl⟩
  | cons r rs ih =>
    obtain ⟨ensured, evicted, m₁, hstep, hin, hout⟩ := l.ensure_answers r m
    have hwindow : (l.window.insert r.id).2 = (h.after r.call).window := by rw [hw]; rfl
    have hasked : m₁.existsChecks + h.admitted.length =
        m.existsChecks + (h.after r.call).admitted.length := by
      -- An id is admitted if and only if the window does not have it.
      change _ = m.existsChecks +
        (if h.window.contains r.id then h.admitted else h.admitted ++ [r.id]).length
      rw [← hw]
      cases hc : l.window.contains r.id with
      | true =>
        rw [(hin hc).2]
        rfl
      | false =>
        rw [(hout hc).2, if_neg (by decide), List.length_append, List.length_singleton]
        omega
    obtain ⟨l', m', hrest, hwindow', hasked'⟩ :=
      ih (l := { l with window := (l.window.insert r.id).2 }) hwindow m₁
    refine ⟨l', m', (bind_of_ok _ hstep).trans hrest, hwindow', ?_⟩
    rw [List.map_cons, List.foldl_cons]
    omega

end Ledger

/-- The window over changeset ids is exactly first in, first out, whatever is inserted and whenever it
is cleared. The ids that left it since, followed by those in it from the oldest to the newest, are the
ids that were new to it; it holds the latest of these, each once and as many as there is room for.
So a ledger that makes sure of changesets asks its store exactly for the ids that are not among the
latest ones admitted: for such an id it asks once, and for any other it leaves the store alone. -/
theorem window_first_in_first_out (n : Nat) :
    (∀ calls : List Window.Call,
      let h := Window.history n calls
      h.evicted ++ h.window.toList = h.admitted ∧
        h.window.toList = h.admitted.drop (h.admitted.length - max n 1) ∧
        h.window.toList.Nodup ∧
        (∀ id, h.window.contains id = true ↔ id ∈ h.window.toList) ∧
        h.window.size = h.window.toList.length ∧
        h.window.size = min (max n 1) h.admitted.length) ∧
      ∀ (m : MemoryStore) (earlier : List Ledger.Request) (r : Ledger.Request),
        let admitted := (Window.history n (earlier.map Ledger.Request.call)).admitted
        let recent := admitted.drop (admitted.length - max n 1)
        ∃ l m₁ ensured evicted l' m₂,
          (Ledger.ofCapacity n).ensureAll earlier m = .ok l m₁ ∧
          m₁.existsChecks = m.existsChecks + admitted.length ∧
          l.ensure r.id r.userId r.createdAt m₁ = .ok (ensured, evicted, l') m₂ ∧
          (r.id ∈ recent → ensured = .cached ∧ m₂ = m₁) ∧
          (r.id ∉ recent → ensured ≠ .cached ∧ m₂.existsChecks = m₁.existsChecks + 1) := by
  constructor
  · intro calls h
    exact ⟨(Window.exact_history n calls).conserved, Window.toList_history n calls,
      h.window.ids.nodup_toList, fun id => Window.contains_iff_mem, h.window.size_eq,
      Window.size_history n calls⟩
  · intro m earlier r admitted recent
    obtain ⟨l, m₁, hall, hwindow, hasked⟩ :=
      Ledger.ensureAll_answers (l := .ofCapacity n) (h := { window := .ofCapacity n }) rfl
        earlier m
    obtain ⟨ensured, evicted, m₂, hstep, hin, hout⟩ := l.ensure_answers r m₁
    -- The latest admitted ids are those that the window holds.
    have hrecent : r.id ∈ recent ↔ l.window.contains r.id = true := by
      have hlist := Window.toList_history n (earlier.map Ledger.Request.call)
      rw [Window.contains_iff_mem, hwindow]
      exact Iff.of_eq (congrArg (r.id ∈ ·) hlist.symm)
    refine ⟨l, m₁, ensured, evicted, _, m₂, hall, hasked, hstep, fun h => hin (hrecent.1 h), ?_⟩
    exact fun h => hout (Bool.eq_false_iff.2 (mt hrecent.2 h))

end MapAudit
