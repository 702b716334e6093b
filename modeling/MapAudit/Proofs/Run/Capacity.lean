import MapAudit.Proofs.Run.Abreast
import MapAudit.Proofs.Run.Replay

namespace MapAudit
open Time

def Plan.remembering (plan : Plan) (n : Nat) : Plan :=
  { plan with options := { plan.options with windowCapacity := n } }

def Event.isEviction (e : Event) : Bool :=
  e.field? "message" == some "changeset cache full, evicted oldest id"

theorem Event.isEviction_evicted (id : Int64) : (Event.evicted id).isEviction = true := rfl

namespace MemoryStore

/-- Stores that differ in how often they were asked for a changeset, and in nothing else. -/
structure SameButAsked (m m' : MemoryStore) : Prop extends SameTables m m' where
  recomputed : m.recomputed = m'.recomputed
  userWrites : m.userWrites = m'.userWrites

namespace SameButAsked
variable {m m' : MemoryStore}

theorem refl (m : MemoryStore) : m.SameButAsked m := ⟨⟨rfl, rfl, rfl, rfl⟩, rfl, rfl⟩

theorem withUser (h : m.SameButAsked m') (u : User) : (m.withUser u).SameButAsked (m'.withUser u) := by
  unfold MemoryStore.withUser
  rw [h.users]
  split
  · exact h
  · have husers : (m.putUser u).users = (m'.putUser u).users := by
      simp only [putUser, h.users]
    have hwrites : (m.putUser u).userWrites = (m'.putUser u).userWrites := by
      simp only [putUser, h.userWrites]
    exact ⟨⟨h.entities, h.changes, h.changesets, husers⟩, h.recomputed, hwrites⟩

theorem written (h : m.SameButAsked m') (o : Options) (action : Action) (previous : Option Snapshot)
    (next : Snapshot) :
    (m.written o action previous next).SameButAsked (m'.written o action previous next) := by
  have hentities : (m.written o action previous next).entities =
      (m'.written o action previous next).entities := by
    simp only [MemoryStore.written, insertEntity, h.entities]
  have hchanges : (m.written o action previous next).changes =
      (m'.written o action previous next).changes := by
    rw [changes_written, changes_written, h.changes]
  exact ⟨⟨hentities, hchanges, h.changesets, h.users⟩, h.recomputed, h.userWrites⟩

theorem recounted (h : m.SameButAsked m') (id : Int64) :
    (m.recounted id).SameButAsked (m'.recounted id) := by
  have hchangesets : (m.recounted id).changesets = (m'.recounted id).changesets := by
    simp only [MemoryStore.recounted, h.changesets, recount_congr h.changes]
  have hrecomputed : (m.recounted id).recomputed = (m'.recounted id).recomputed := by
    simp only [MemoryStore.recounted, h.recomputed]
  exact ⟨⟨h.entities, h.changes, hchangesets, h.users⟩, hrecomputed, h.userWrites⟩

theorem recountedAll (h : m.SameButAsked m') (ids : List Int64) :
    (m.recountedAll ids).SameButAsked (m'.recountedAll ids) := by
  induction ids generalizing m m' with
  | nil => exact h
  | cons id ids ih => exact ih (h.recounted id)

end SameButAsked

end MemoryStore

namespace RunState

def told (s : RunState σ) : List Event := s.events.toList.filter (!·.isEviction)

theorem told_withAuthor (s : RunState MemoryStore) (user : Option User) :
    (s.withAuthor user).told = s.told := by
  rw [withAuthor_eq]
  rfl

/-- An enrolment has nothing to tell but what is forgotten. -/
theorem told_withChangeset (s : RunState MemoryStore) (c : Changeset) :
    (s.withChangeset c).told = s.told := by
  unfold withChangeset told
  split
  · rfl
  · obtain ⟨evicted, window⟩ := s.ledger.window.insert c.id
    cases evicted with
    | none => rfl
    | some id => simp [Event.isEviction_evicted]

/-- States of runs that differ in their windows alone. Both windows hold only what is stored. -/
structure SameButWindow (s t : RunState MemoryStore) : Prop where
  store : s.store.SameButAsked t.store
  touched : s.ledger.touched = t.ledger.touched
  authors : s.authors = t.authors
  stats : s.stats = t.stats
  told : s.told = t.told
  known : Known s
  known' : Known t

namespace SameButWindow
variable {s t : RunState MemoryStore}

theorem start {m m' : MemoryStore} (h : m.SameButAsked m') (plan : Plan) (n n' : Nat) :
    ((plan.remembering n).start m).SameButWindow ((plan.remembering n').start m') where
  store := h
  touched := rfl
  authors := rfl
  stats := rfl
  told := rfl
  known := .start _ m
  known' := .start _ m'

theorem withAuthor (h : s.SameButWindow t) (user : Option User) :
    (s.withAuthor user).SameButWindow (t.withAuthor user) := by
  cases user with
  | none => exact h
  | some u =>
    by_cases hseen : s.authors.seen.contains u.id = true
    · have hseen' : t.authors.seen.contains u.id = true := h.authors ▸ hseen
      rw [withAuthor_of_seen hseen, withAuthor_of_seen hseen']
      exact h
    · have hseen' : ¬t.authors.seen.contains u.id = true := h.authors ▸ hseen
      rw [withAuthor_of_new hseen, withAuthor_of_new hseen']
      exact
        { store := h.store.withUser u
          touched := h.touched
          authors := by rw [h.authors]
          stats := h.stats
          told := h.told
          known := h.known.congr rfl (s.store.changesets_withUser u)
          known' := h.known'.congr rfl (t.store.changesets_withUser u) }

/-- One window may answer where the other run has to ask. -/
theorem enrolled (h : s.SameButWindow t) (next : Snapshot) (time : Instant) :
    (s.enrolled next time).SameButWindow (t.enrolled next time) := by
  have ha := h.withAuthor next.user
  have hchangesets : (s.enrolled next time).store.changesets =
      (t.enrolled next time).store.changesets := by
    apply Std.ExtTreeMap.ext_getElem?
    intro id
    -- A remembered changeset is stored, so to ask for it or not comes to the same.
    rw [h.known.changesets_enrolled, h.known'.changesets_enrolled, h.store.changesets]
  have husers : (s.enrolled next time).store.users = (t.enrolled next time).store.users := by
    simpa [RunState.enrolled] using ha.store.users
  have hwrites : (s.enrolled next time).store.userWrites =
      (t.enrolled next time).store.userWrites := by
    simpa [RunState.enrolled] using ha.store.userWrites
  have htouched : (s.enrolled next time).ledger.touched =
      (t.enrolled next time).ledger.touched := by
    change (Ledger.touch _ _).touched = (Ledger.touch _ _).touched
    simp [Ledger.touch, h.touched]
  have htold (s : RunState MemoryStore) : (s.enrolled next time).told = s.told := by
    change ((s.withAuthor next.user).withChangeset (next.opened time)).told = s.told
    rw [told_withChangeset, told_withAuthor]
  exact
    { store :=
        { entities := by simpa using h.store.entities
          changes := by simpa using h.store.changes
          changesets := hchangesets
          users := husers
          recomputed := by simpa using h.store.recomputed
          userWrites := hwrites }
      touched := htouched
      authors := by simpa [RunState.enrolled] using ha.authors
      stats := by simpa using h.stats
      told := by rw [htold, htold, h.told]
      known := h.known.enrolled next time
      known' := h.known'.enrolled next time }

theorem skipped (h : s.SameButWindow t) (next : Snapshot) (stored : Int64) :
    (s.skipped next stored).SameButWindow (t.skipped next stored) := by
  have htold (s : RunState MemoryStore) : (s.skipped next stored).told =
      s.told ++ [Event.alreadyApplied next.label next.version stored].filter (!·.isEviction) := by
    simp [RunState.told, RunState.skipped]
  exact
    { h with
      stats := by simp only [RunState.skipped, h.stats]
      told := by rw [htold, htold, h.told]
      known := h.known.congr rfl rfl
      known' := h.known'.congr rfl rfl }

theorem flagged (h : s.SameButWindow t) (policy : Policy) (i : Option InvalidAction) :
    (s.flagged policy i).SameButWindow (t.flagged policy i) := by
  cases i with
  | none => exact h
  | some i =>
    have htold (s : RunState MemoryStore) : (s.flagged policy (some i)).told = s.told ++
        (if policy = .log then [Event.invalidAction i] else []).filter (!·.isEviction) := by
      by_cases hp : policy = .log <;> simp [RunState.told, RunState.flagged, hp]
    exact
      { h with
        stats := by simp only [RunState.flagged, h.stats]
        told := by rw [htold, htold, h.told]
        known := h.known.congr rfl rfl
        known' := h.known'.congr rfl rfl }

theorem recorded (h : s.SameButWindow t) (o : Options) (action : Action)
    (previous : Option Snapshot) (next : Snapshot) :
    (s.recorded o action previous next).SameButWindow (t.recorded o action previous next) :=
  { h with
    store := h.store.written o action previous next
    stats := by simp only [RunState.recorded, h.stats]
    known := h.known.congr rfl rfl
    known' := h.known'.congr rfl rfl }

theorem finalized (h : s.SameButWindow t) : s.finalized.SameButWindow t.finalized := by
  have hstore := h.store.recountedAll t.ledger.touched.toList
  exact
    { h with
      store := by
        unfold RunState.finalized
        rw [h.touched]
        exact hstore
      touched := rfl
      known := h.known.finalized
      known' := h.known'.finalized }

end SameButWindow

end RunState

namespace Run
open RunState
variable (plan : Plan) (n n' : Nat)

/-- A change meets the same verdict, whatever the window. -/
theorem abreast_process (action : Action) (next : Snapshot) :
    Abreast SameButWindow Eq Eq (process (plan.remembering n) action next)
      (process (plan.remembering n') action next) := by
  intro s t h
  have henrolled (time : Instant) := h.enrolled next time
  have hverdict : (plan.remembering n').options.verdict action t.store.entities[next.key]? next =
      (plan.remembering n).options.verdict action s.store.entities[next.key]? next := by
    rw [h.store.entities]
    rfl
  rcases process_cases (plan.remembering n) action next s with
    ⟨f, hcheck, hp⟩ | ⟨time, hcheck, ⟨stored, hv, hp⟩ | ⟨i, hv, hp⟩ | ⟨i, hv, hp⟩⟩
  · rw [hp, process_of_check_error hcheck]
    exact .error rfl h
  · rw [hp, process_of_skip hcheck (hverdict.trans hv)]
    exact .ok rfl ((henrolled time).skipped next stored)
  · rw [hp, process_of_refuse hcheck (hverdict.trans hv)]
    exact .error rfl ((henrolled time).flagged _ _)
  · rw [hp, process_of_record hcheck (hverdict.trans hv), h.store.entities]
    exact .ok rfl (((henrolled time).flagged _ i).recorded _ action _ next)

theorem abreast_finalize :
    Abreast SameButWindow Eq Eq (finalize (plan.remembering n))
      (finalize (plan.remembering n')) := by
  intro s t h
  rw [h.known.finalize_eq, h.known'.finalize_eq, h.stats, h.touched]
  exact .ok rfl h.finalized

end Run

namespace Session

def Call.remembering (n : Nat) : Call → Call
  | .start plan => .start (plan.remembering n)
  | .process action next => .process action next
  | .finalize => .finalize

/-- Sessions under one plan but for the room for ids, whose states differ in their windows alone. -/
structure SameButWindow (n n' : Nat) (x y : Session MemoryStore) : Prop where
  plan : ∃ plan : Plan, x.plan = plan.remembering n ∧ y.plan = plan.remembering n'
  state : x.state.SameButWindow y.state

namespace SameButWindow
variable {n n' : Nat} {x y : Session MemoryStore}

theorem ofStore (plan : Plan) {m m' : MemoryStore} (h : m.SameButAsked m') :
    SameButWindow n n' (.ofStore (plan.remembering n) m) (.ofStore (plan.remembering n') m') :=
  ⟨⟨plan, rfl, rfl⟩, .start h plan n n'⟩

/-- Either session answers a call as the other one does. -/
theorem ask (h : SameButWindow n n' x y) (call : Call) :
    (x.ask (call.remembering n)).1 = (y.ask (call.remembering n')).1 ∧
      SameButWindow n n' (x.ask (call.remembering n)).2 (y.ask (call.remembering n')).2 := by
  obtain ⟨plan, s⟩ := x
  obtain ⟨plan', t⟩ := y
  obtain ⟨⟨plan, rfl, rfl⟩, hstate⟩ := h
  cases call with
  | start other => exact ⟨rfl, .ofStore other hstate.store⟩
  | process action next =>
    have hends := Run.abreast_process plan n n' action next s t hstate
    -- Both answers are named, so that the cases of one decide those of the other.
    generalize hr : Run.process (plan.remembering n) action next s = r at hends
    generalize hr' : Run.process (plan.remembering n') action next t = r' at hends
    unfold Session.ask Call.remembering
    simp only [hr, hr']
    cases hends with
    | ok hv hs => exact ⟨congrArg Answer.processed hv, ⟨plan, rfl, rfl⟩, hs⟩
    | error hf hs => exact ⟨congrArg Answer.failed hf, ⟨plan, rfl, rfl⟩, hs⟩
  | finalize =>
    have hends := Run.abreast_finalize plan n n' s t hstate
    generalize hr : Run.finalize (plan.remembering n) s = r at hends
    generalize hr' : Run.finalize (plan.remembering n') t = r' at hends
    unfold Session.ask Call.remembering
    simp only [hr, hr']
    cases hends with
    | ok hv hs => exact ⟨congrArg Answer.reported hv, ⟨plan, rfl, rfl⟩, hs⟩
    | error hf hs => exact ⟨congrArg Answer.failed hf, ⟨plan, rfl, rfl⟩, hs⟩

end SameButWindow

end Session

/-- The window over changeset ids is transparent. Whatever is asked of processors that have room for
`n` and for `n'` ids, in any number of runs, they answer alike, and leave the same entities, records,
changesets and users and the same books; they differ in how often they ask whether a changeset exists.
So it is with whole runs, their outcomes and their reports. For a remembered id stands for a changeset
that is stored, after every call. -/
theorem window_transparent (plan : Plan) (m : MemoryStore) (n n' : Nat) :
    (∀ calls : List Session.Call,
      List.Forall₂ (fun r r' => r.1 = r'.1 ∧ r.2.state.SameButWindow r'.2.state)
        ((Session.ofStore (plan.remembering n) m).trace (calls.map (·.remembering n)))
        ((Session.ofStore (plan.remembering n') m).trace (calls.map (·.remembering n')))) ∧
      (∀ changes : List (Action × Snapshot),
        Run.Ends RunState.SameButWindow Eq Eq
          (Run.outcomes (plan.remembering n) changes ((plan.remembering n).start m))
          (Run.outcomes (plan.remembering n') changes ((plan.remembering n').start m)) ∧
        Run.Ends RunState.SameButWindow Eq Eq
          (Run.all (plan.remembering n) changes ((plan.remembering n).start m))
          (Run.all (plan.remembering n') changes ((plan.remembering n').start m))) ∧
      ∀ calls, ∀ r ∈ (Session.ofStore plan m).trace calls, ∀ id,
        r.2.state.ledger.window.contains id = true → id ∈ r.2.state.store.changesets := by
  have hstart := RunState.SameButWindow.start (.refl m) plan n n'
  have hprocess := Run.abreast_process plan n n'
  refine ⟨fun calls => ?_, fun changes => ⟨?_, ?_⟩, fun calls r hr id hid => ?_⟩
  · have htrace := Session.trace_forall₂ (Session.Call.remembering n) (Session.Call.remembering n')
      (fun call (_ : call ∈ calls) x y h => h.ask call) (Session.SameButWindow.ofStore plan (.refl m))
    exact htrace.imp fun r r' h => ⟨h.1, h.2.state⟩
  · exact Run.abreast_outcomes hprocess changes _ _ hstart
  · exact Run.abreast_all hprocess (Run.abreast_finalize plan n n') changes _ _ hstart
  · have hknown : Known r.2.state :=
      Session.trace_invariant (P := fun x => Known x.state) (fun call _ x hx => hx.ask call)
        (Known.start plan m) r hr
    exact hknown.window id (Window.contains_iff_mem.1 hid)

end MapAudit
