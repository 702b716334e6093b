import MapAudit.Proofs.Change.Record
import MapAudit.Proofs.Database.Mirror
import MapAudit.Proofs.Run.Known

namespace MapAudit
open Time

namespace MemoryStore.WellKept
variable {m : MemoryStore}

/-- Only the tables count, and users may come. -/
theorem withUser (h : m.WellKept) (u : User) : (m.withUser u).WellKept where
  users id v hv := by
    rw [users_withUser] at hv
    split at hv
    · next e =>
      cases hv
      exact e
    · exact h.users id v hv
  changesets := by
    rw [changesets_withUser]
    exact h.changesets
  entities key s hs := by
    rw [entities_withUser] at hs
    obtain ⟨hkey, hstorable, hauthor⟩ := h.entities key s hs
    refine ⟨hkey, hstorable, fun v hv => ?_⟩
    -- No user is ever taken away.
    have hmem := hauthor v hv
    rw [Std.ExtTreeMap.mem_iff_isSome_getElem?] at hmem ⊢
    rw [users_withUser]
    split
    · rfl
    · exact hmem
  changes := by
    rw [changes_withUser]
    exact h.changes

theorem withChangeset (h : m.WellKept) {c : Changeset} (hc : c.Storable) :
    (m.withChangeset c).WellKept where
  users := by
    rw [users_withChangeset]
    exact h.users
  changesets id d hd := by
    rw [changesets_withChangeset] at hd
    cases hm : m.changesets[id]? with
    | some e =>
      rw [hm, Option.some_or] at hd
      cases hd
      exact h.changesets id _ hm
    | none =>
      rw [hm, Option.none_or] at hd
      split at hd
      · next e =>
        cases hd
        exact ⟨e, hc⟩
      · cases hd
  entities := by
    rw [entities_withChangeset, users_withChangeset]
    exact h.entities
  changes := by
    rw [changes_withChangeset]
    exact h.changes

end MemoryStore.WellKept

theorem Snapshot.Storable.leaves {next : Snapshot} (h : next.Storable) (action : Action) :
    (action.leaves next).Storable := by
  unfold Action.leaves
  split
  · exact ⟨h.time, fun p hp => by cases hp⟩
  · exact h

theorem Action.user_leaves (action : Action) (next : Snapshot) :
    (action.leaves next).user = next.user := by
  unfold leaves
  split <;> rfl

/-- The record of versions that can be stored can be stored. -/
theorem ChangeRecord.storable_build (action : Action) {previous : Option Snapshot}
    {next : Snapshot} (hn : next.Storable) (hp : ∀ p ∈ previous, p.Storable) :
    (build action previous next).Storable := by
  have hshape {s : Snapshot} (hs : s.Storable) : ∀ g ∈ s.shape, ∀ p ∈ g.positions,
      p.Printable := fun g hg p hpos => hs.positions p (Snapshot.positions_of_shape (by
    rw [show s.shape = some g from hg]
    exact hpos))
  exact
    { time := by
        rw [timestamp_build]
        exact hn.time
      previous := fun g hg => by
        obtain ⟨p, hprevious, hgeometry⟩ := mem_previousGeometry hg
        exact hshape (hp p hprevious) g hgeometry
      new := fun g hg => hshape hn g (mem_newGeometry hg) }

namespace MemoryStore.WellKept
variable {m : MemoryStore}

theorem written (h : m.WellKept) (o : Options) (action : Action) {next : Snapshot}
    (hn : next.Storable) (hauthor : ∀ u ∈ next.user, u.id ∈ m.users) :
    (m.written o action m.entities[next.key]? next).WellKept where
  users := h.users
  changesets := h.changesets
  entities key s hs := by
    rw [entities_written] at hs
    split at hs
    · next e =>
      cases hs
      refine ⟨by rw [Action.key_leaves]; exact e.2, hn.leaves action, ?_⟩
      rw [Action.user_leaves]
      exact hauthor
    · exact h.entities key s hs
  changes r hr := by
    rw [changes_written, Array.toList_push, List.mem_append, List.mem_singleton] at hr
    rcases hr with hr | rfl
    · exact h.changes r hr
    · exact ChangeRecord.storable_build action hn fun p hp => (h.entities next.key p hp).2.1

/-- The latest of times that are no leap seconds is none. -/
theorem isLeap_latest {rs : List ChangeRecord} (h : ∀ r ∈ rs, r.Storable) :
    ∀ t ∈ latest rs, t.isLeap = false := by
  have hfold (t : Option Instant) (ht : ∀ x ∈ t, x.isLeap = false) :
      ∀ x ∈ rs.foldl (fun t r => Instant.laterOf t r.timestamp) t, x.isLeap = false := by
    induction rs generalizing t with
    | nil => exact ht
    | cons r rs ih =>
      exact ih (fun r hr => h r (List.mem_cons_of_mem _ hr)) _
        (Instant.isLeap_laterOf ht (h r List.mem_cons_self).time)
  exact hfold none fun x hx => by cases hx

theorem recounted (h : m.WellKept) (id : Int64) : (m.recounted id).WellKept where
  users := h.users
  changesets x d hd := by
    rw [changesets_recounted] at hd
    split at hd
    · cases hc : m.changesets[x]? with
      | none =>
        rw [hc] at hd
        cases hd
      | some c =>
        rw [hc] at hd
        cases hd
        obtain ⟨hid, hstorable⟩ := h.changesets x c hc
        refine ⟨hid, hstorable.created, isLeap_latest fun r hr => ?_⟩
        exact h.changes r (List.mem_filter.1 hr).1
    · exact h.changesets x d hd
  entities := h.entities
  changes := h.changes

theorem recountedAll (h : m.WellKept) (ids : List Int64) : (m.recountedAll ids).WellKept := by
  induction ids generalizing m with
  | nil => exact h
  | cons id ids ih => exact ih (h.recounted id)

end MemoryStore.WellKept

/-- A run on a well kept store that knows what it relies on. -/
structure RunState.Sound (s : RunState MemoryStore) : Prop where
  known : Known s
  kept : s.store.WellKept
  seen : ∀ id : Int64, s.authors.seen.contains id = true → id ∈ s.store.users

namespace RunState.Sound
variable {s : RunState MemoryStore} {next : Snapshot} {time : Instant}

theorem start (plan : Plan) {m : MemoryStore} (h : m.WellKept) : (plan.start m).Sound where
  known := .start plan m
  kept := h
  seen id hid := by simp [Plan.start] at hid

/-- Ledger, authors and tables alone count. -/
theorem congr {s' : RunState MemoryStore} (h : s.Sound) (hl : s'.ledger = s.ledger)
    (ha : s'.authors = s.authors) (hs : s'.store = s.store) : s'.Sound where
  known := h.known.congr hl (by rw [hs])
  kept := by
    rw [hs]
    exact h.kept
  seen := by
    rw [ha, hs]
    exact h.seen

theorem withAuthor (h : s.Sound) (user : Option User) : (s.withAuthor user).Sound where
  known := h.known.congr (s.ledger_withAuthor user) (s.changesets_withAuthor user)
  kept := by
    cases user with
    | none => exact h.kept
    | some u =>
      unfold RunState.withAuthor
      dsimp only
      split
      · exact h.kept
      · exact h.kept.withUser u
  seen id hid := by
    rw [seen_withAuthor] at hid
    rw [Std.ExtTreeMap.mem_iff_isSome_getElem?, users_withAuthor]
    by_cases hseen : s.authors.seen.contains id = true
    · rw [if_pos hseen]
      exact Std.ExtTreeMap.mem_iff_isSome_getElem?.1 (h.seen id hseen)
    · rw [if_neg hseen]
      simp only [hseen, Bool.false_or] at hid
      obtain ⟨u, hu⟩ := Option.isSome_iff_exists.1 hid
      rw [hu, Option.some_or]
      rfl

theorem storable_opened (hn : next.Storable) (ht : next.timestamp = some time) :
    (next.opened time).Storable :=
  ⟨hn.time time ht, fun t h => by cases h⟩

theorem enrolled (h : s.Sound) (hn : next.Storable) (ht : next.timestamp = some time) :
    (s.enrolled next time).Sound where
  known := h.known.enrolled next time
  kept := by
    change ((s.withAuthor next.user).withChangeset (next.opened time)).store.WellKept
    have hkept := (h.withAuthor next.user).kept
    unfold RunState.withChangeset
    split
    · exact hkept
    · exact hkept.withChangeset (storable_opened hn ht)
  seen := by
    change ∀ id, ((s.withAuthor next.user).withChangeset (next.opened time)).authors.seen.contains
      id = true → id ∈ ((s.withAuthor next.user).withChangeset (next.opened time)).store.users
    rw [authors_withChangeset, users_withChangeset]
    exact (h.withAuthor next.user).seen

/-- The author of an enrolled change is known. -/
theorem author_enrolled (h : s.Sound) (hn : next.Storable) (ht : next.timestamp = some time) :
    ∀ u ∈ next.user, u.id ∈ (s.enrolled next time).store.users := by
  intro u hu
  refine (h.enrolled hn ht).seen u.id ?_
  change ((s.withAuthor next.user).withChangeset (next.opened time)).authors.seen.contains
    u.id = true
  rw [authors_withChangeset, seen_withAuthor, hu, Option.filter_some]
  simp

theorem recorded (h : s.Sound) (o : Options) (action : Action) (hn : next.Storable)
    (hauthor : ∀ u ∈ next.user, u.id ∈ s.store.users) :
    (s.recorded o action s.store.entities[next.key]? next).Sound where
  known := h.known.congr rfl rfl
  kept := h.kept.written o action hn hauthor
  seen := h.seen

theorem finalized (h : s.Sound) : s.finalized.Sound where
  known := h.known.finalized
  kept := h.kept.recountedAll _
  seen := by
    change ∀ id, s.authors.seen.contains id = true → id ∈ s.finalized.store.users
    rw [users_finalized]
    exact h.seen

end RunState.Sound

end MapAudit
