import MapAudit.Proofs.Database.Mirroring
import MapAudit.Proofs.Run.Kept

namespace MapAudit
open Time

section restored
variable (m : MemoryStore) (previous : Option Snapshot) (next : Snapshot)

/-- A verdict asks only for the version of what is stored. -/
theorem Options.verdict_restored (o : Options) (action : Action) :
    o.verdict action (previous.map m.restored) next = o.verdict action previous next := by
  have happlied : Run.applied? (previous.map m.restored) next = Run.applied? previous next := by
    unfold Run.applied?
    cases previous with
    | none => rfl
    | some p =>
      rw [Option.map_some, Option.filter_some, Option.filter_some]
      change Option.map _ (if decide (next.version ≤ p.version) then _ else _) = _
      split <;> rfl
  have hinvalid : invalid? action (previous.map m.restored) next =
      invalid? action previous next := by
    cases previous <;> rfl
  unfold verdict
  rw [happlied, hinvalid]

/-- A record copies only tags and geometry of what is stored. -/
theorem ChangeRecord.build_restored (action : Action) :
    build action (previous.map m.restored) next = build action previous next := by
  cases action <;> cases previous <;> rfl

end restored

namespace Run
variable {s : RunState MemoryStore} {db : Database} {next : Snapshot} {time : Instant}

theorem ensureAuthor_over (hs : s.Sound) (h : Mirrors s.store db) (user : Option User) :
    ∃ db', ensureAuthor user (s.over db) = .ok () ((s.withAuthor user).over db') ∧
      Mirrors (s.withAuthor user).store db' := by
  obtain ⟨write, db', hensure, hmirrors⟩ : ∃ write db', s.authors.ensure user db =
      .ok (write, (s.withAuthor user).authors) db' ∧ Mirrors (s.withAuthor user).store db' := by
    unfold RunState.withAuthor
    cases user with
    | none => exact ⟨_, db, rfl, h⟩
    | some u =>
      unfold Authors.ensure
      dsimp only
      split
      · exact ⟨_, db, rfl, h⟩
      · obtain ⟨write, db', hwrite, hmirrors⟩ := h.bringUpToDate hs.kept u
        exact ⟨write, db', bind_of_ok _ hwrite, hmirrors⟩
  refine ⟨db', ?_, hmirrors⟩
  have hensure' : (s.over db).authors.ensure user (s.over db).store = _ := hensure
  rw [ensureAuthor_of_ok hensure', s.withAuthor_eq user]
  rfl

theorem ensureChangeset_over (h : Mirrors s.store db) (next : Snapshot) (time : Instant) :
    ∃ db', ensureChangeset next time (s.over db) =
        .ok () ((s.withChangeset (next.opened time)).over db') ∧
      Mirrors (s.withChangeset (next.opened time)).store db' := by
  unfold RunState.withChangeset
  by_cases hw : s.ledger.window.contains (next.opened time).id = true
  · rw [if_pos hw]
    have hcontains : (s.over db).ledger.window.contains next.changesetId = true := hw
    exact ⟨db, ensureChangeset_of_contains hcontains time, h⟩
  · obtain ⟨ensured, db', he, hmirrors⟩ := h.ensure s.ledger next.changesetId
      (next.user.elim anonymousUserId (·.id)) time (Bool.eq_false_iff.2 hw)
    have he' : (s.over db).ledger.ensure next.changesetId
        (next.user.elim anonymousUserId (·.id)) time (s.over db).store = _ := he
    rw [if_neg hw]
    exact ⟨db', ensureChangeset_of_ok he', hmirrors⟩

/-- An enrolment goes alike in both places, and finds the same version. -/
theorem enroll_over (hs : s.Sound) (h : Mirrors s.store db) (hn : next.Storable)
    (ht : next.timestamp = some time) :
    ∃ db', enroll next time (s.over db) =
        .ok (s.store.entities[next.key]?.map (s.enrolled next time).store.restored)
          ((s.enrolled next time).over db') ∧
      Mirrors (s.enrolled next time).store db' := by
  obtain ⟨db₁, hauthor, h₁⟩ := ensureAuthor_over hs h next.user
  obtain ⟨db₂, hchangeset, h₂⟩ := ensureChangeset_over h₁ next time
  have hmirrors : Mirrors (s.enrolled next time).store db₂ := h₂
  have hentity := hmirrors.entity?_eq (hs.enrolled hn ht).kept next.key
  rw [RunState.entities_enrolled] at hentity
  have hlookup : Store.lookup next.key db₂ =
      .ok (s.store.entities[next.key]?.map (s.enrolled next time).store.restored) db₂ := by
    refine Database.asking_of_ok ?_
    rw [hentity]
    rfl
  refine ⟨db₂, ?_, hmirrors⟩
  unfold enroll
  rw [bind_of_ok _ hauthor, bind_of_ok _ hchangeset]
  have htouch : (touch next.changesetId : Run Database Unit)
      (((s.withAuthor next.user).withChangeset (next.opened time)).over db₂) =
      .ok () ((s.enrolled next time).over db₂) := rfl
  rw [bind_of_ok _ htouch]
  exact onStore_of_ok hlookup

/-- An enrolled change of version one or more is recorded alike in both places. -/
theorem record_over (h : Mirrors s.store db) (o : Options) (action : Action)
    (previous : Option Snapshot) (ht : next.timestamp = some time) (hv : 1 ≤ next.version)
    (hc : next.changesetId ∈ s.store.changesets) (m : MemoryStore)
    (invalid : Option InvalidAction) :
    ∃ db', record o action (previous.map m.restored) next invalid (s.over db) =
        .ok (.recorded (.build action previous next) invalid)
          ((s.recorded o action previous next).over db') ∧
      Mirrors (s.recorded o action previous next).store db' := by
  have htime : (ChangeRecord.build action previous next).timestamp = some time := by
    rw [← ht]
    cases action <;> cases previous <;> rfl
  have hid : (ChangeRecord.build action previous next).changesetId = next.changesetId := by
    cases action <;> cases previous <;> rfl
  obtain ⟨db₁, hpersist, h₁⟩ := h.persist htime (hid ▸ hc)
  have hstep : onStore (Store.persist (.build action previous next)) (s.over db) =
      .ok () (s.over db₁) := onStore_of_ok hpersist
  unfold record RunState.recorded MemoryStore.written
  -- The record is the same whether the version before is the stored one or the one read back.
  rw [ChangeRecord.build_restored, bind_of_ok _ hstep]
  cases ho : o.applyState with
  | false => exact ⟨db₁, rfl, h₁⟩
  | true =>
    have hleaves : 1 ≤ (action.leaves next).version := by
      rw [Action.version_leaves]
      exact hv
    obtain ⟨db₂, hsave, h₂⟩ := h₁.save hleaves
    have hstep' : onStore (Store.save (action.leaves next)) (s.over db₁) =
        .ok () (s.over db₂) := onStore_of_ok hsave
    refine ⟨db₂, bind_of_ok _ hstep', ?_⟩
    rw [if_pos rfl]
    exact h₂

/-- The two places answer alike, and the database mirrors the store afterwards. -/
inductive Alike {α : Type} : EStateM.Result Failure (RunState MemoryStore) α →
    EStateM.Result Failure (RunState Database) α → Prop where
  | ok {s : RunState MemoryStore} {db : Database} (a : α) (hs : s.Sound)
      (h : Mirrors s.store db) : Alike (.ok a s) (.ok a (s.over db))
  | error {s : RunState MemoryStore} {db : Database} (f : Failure) (hs : s.Sound)
      (h : Mirrors s.store db) : Alike (.error f s) (.error f (s.over db))

theorem flagged_over (s : RunState MemoryStore) (db : Database) (policy : Policy)
    (i : Option InvalidAction) : (s.over db).flagged policy i = (s.flagged policy i).over db := by
  cases i <;> rfl

/-- A change to be recorded goes alike in both places once it is enrolled. -/
theorem record_enrolled_over (hs : s.Sound) (h : Mirrors (s.enrolled next time).store db)
    (hn : next.Storable) (ht : next.timestamp = some time) (hv : 1 ≤ next.version) (o : Options)
    (action : Action) (i : Option InvalidAction) :
    ∃ t db', t = ((s.enrolled next time).flagged o.policy i).recorded o action
          s.store.entities[next.key]? next ∧ t.Sound ∧ Mirrors t.store db' ∧
      record o action (s.store.entities[next.key]?.map (s.enrolled next time).store.restored)
          next i (((s.enrolled next time).flagged o.policy i).over db) =
        .ok (.recorded (.build action s.store.entities[next.key]? next) i) (t.over db') := by
  have hs₁ := hs.enrolled hn ht
  have hs₂ : ((s.enrolled next time).flagged o.policy i).Sound :=
    hs₁.congr (by simp) (by simp) (by simp)
  have h₂ : Mirrors ((s.enrolled next time).flagged o.policy i).store db := by
    rw [RunState.store_flagged]
    exact h
  -- The enrolment has opened the changeset and made the author known.
  have hc : next.changesetId ∈
      ((s.enrolled next time).flagged o.policy i).store.changesets := by
    rw [RunState.store_flagged]
    exact hs₁.known.touched _ (RunState.mem_touched_enrolled.2 (.inr rfl))
  have hauthor := hs.author_enrolled hn ht
  have hs₃ := hs₂.recorded o action hn (by
    rw [RunState.store_flagged]
    exact hauthor)
  rw [RunState.store_flagged, RunState.entities_enrolled] at hs₃
  obtain ⟨db', hrecord, h₃⟩ := record_over h₂ o action s.store.entities[next.key]? ht hv hc
    (s.enrolled next time).store i
  exact ⟨_, db', rfl, hs₃, h₃, hrecord⟩

theorem process_alike (plan : Plan) (action : Action) (hs : s.Sound) (h : Mirrors s.store db)
    (hn : next.Storable) :
    Alike (process plan action next s) (process plan action next (s.over db)) := by
  rcases process_cases plan action next s with ⟨f, hcheck, hp⟩ | ⟨time, hcheck, hsettled⟩
  · rw [hp, process_of_check_error hcheck]
    exact .error _ hs h
  · obtain ⟨ht, hv⟩ := check_eq_ok hcheck
    obtain ⟨db₁, henroll, h₁⟩ := enroll_over hs h hn ht
    have hs₁ := hs.enrolled hn ht
    rw [process_of_enroll hcheck henroll]
    unfold mapFailure settle
    -- The version that is found differs in its time and in the name of its author alone.
    rw [Options.verdict_restored]
    rcases hsettled with ⟨stored, hverdict, hp⟩ | ⟨i, hverdict, hp⟩ | ⟨i, hverdict, hp⟩
    · rw [hp]
      simp only [hverdict]
      exact .ok _ (hs₁.congr rfl rfl rfl) h₁
    · rw [hp]
      simp only [hverdict, flagged_over]
      exact .error _ (hs₁.congr rfl rfl rfl) h₁
    · obtain ⟨t, db₂, rfl, hs₂, h₂, hrecord⟩ :=
        record_enrolled_over hs h₁ hn ht hv plan.options action i
      rw [hp]
      simp only [hverdict, flagged_over, hrecord]
      exact .ok _ hs₂ h₂

/-- The recount of changesets that are there goes alike in both places. -/
theorem recompute_all_over {ids : List Int64} {m : MemoryStore} (hm : m.WellKept)
    (h : Mirrors m db) (hids : ∀ id ∈ ids, id ∈ m.changesets) :
    ∃ db', (ids.forM fun id => Ledger.naming id (Store.recompute id) : Step Database Unit) db =
        .ok () db' ∧ Mirrors (m.recountedAll ids) db' := by
  induction ids generalizing m db with
  | nil => exact ⟨db, rfl, h⟩
  | cons id ids ih =>
    obtain ⟨db₁, hrecompute, h₁⟩ := h.recompute hm (hids id List.mem_cons_self)
    have hstep : Ledger.naming id (Store.recompute id) db = .ok () db₁ := by
      unfold Ledger.naming
      rw [hrecompute]
    obtain ⟨db₂, hrest, h₂⟩ := ih (hm.recounted id) h₁ fun x hx =>
      (m.mem_changesets_recounted id).2 (hids x (List.mem_cons_of_mem _ hx))
    exact ⟨db₂, (bind_of_ok _ hstep).trans hrest, h₂⟩

theorem finalize_alike (plan : Plan) (hs : s.Sound) (h : Mirrors s.store db) :
    Alike (finalize plan s) (finalize plan (s.over db)) := by
  obtain ⟨db', hrecount, h'⟩ := recompute_all_over hs.kept h hs.known.touched
  have hget : (get : Run Database _) (s.over db) = .ok (s.over db) (s.over db) := rfl
  have hledger : (s.over db).ledger.finalize db =
      .ok (s.ledger.touched.toList, { s.ledger with touched := .empty }) db' :=
    bind_of_ok _ hrecount
  have hstep : onStore (s.over db).ledger.finalize (s.over db) =
      .ok (s.ledger.touched.toList, { s.ledger with touched := .empty }) (s.over db') :=
    onStore_of_ok hledger
  have hfinal : finalize plan (s.over db) =
      .ok { runId := plan.runId, stats := s.stats, changesets := s.ledger.touched.toList }
        (s.finalized.over db') :=
    mapFailure_of_ok ((bind_of_ok _ hget).trans (bind_of_ok _ hstep))
  rw [hs.known.finalize_eq, hfinal]
  exact .ok _ hs.finalized h'

end Run

structure Session.Mirrored (x : Session MemoryStore) (y : Session Database) : Prop where
  plan : y.plan = x.plan
  sound : x.state.Sound
  state : ∃ db, y.state = x.state.over db ∧ Mirrors x.state.store db

namespace Session.Mirrored
variable {x : Session MemoryStore} {y : Session Database}

theorem mirrors (h : x.Mirrored y) : Mirrors x.state.store y.state.store := by
  obtain ⟨db, hstate, hmirrors⟩ := h.state
  rw [hstate]
  exact hmirrors

theorem ofStore (plan : Plan) {m : MemoryStore} {db : Database} (hm : m.WellKept)
    (h : Mirrors m db) : (Session.ofStore plan m).Mirrored (Session.ofStore plan db) :=
  ⟨rfl, .start plan hm, db, rfl, h⟩

end Session.Mirrored

/-- A call that brings no leap second and only coordinates that are read back from their texts. -/
def Session.Call.Storable : Session.Call → Prop
  | .process _ next => next.Storable
  | _ => True

/-- Sessions that mirror each other answer alike, and do so ever after. -/
theorem Session.Mirrored.ask {x : Session MemoryStore} {y : Session Database} (h : x.Mirrored y)
    {call : Session.Call} (hcall : call.Storable) :
    (x.ask call).1 = (y.ask call).1 ∧ (x.ask call).2.Mirrored (y.ask call).2 := by
  obtain ⟨plan, state⟩ := y
  obtain ⟨rfl, hs, db, rfl, hdb⟩ := h
  cases call with
  | start plan => exact ⟨rfl, .ofStore plan hs.kept hdb⟩
  | process action next =>
    have halike := Run.process_alike x.plan action hs hdb hcall
    generalize hr : Run.process x.plan action next x.state = r at halike
    generalize hr' : Run.process x.plan action next (x.state.over db) = r' at halike
    unfold Session.ask
    simp only [hr, hr']
    cases halike with
    | ok _ hs' h' => exact ⟨rfl, rfl, hs', _, rfl, h'⟩
    | error _ hs' h' => exact ⟨rfl, rfl, hs', _, rfl, h'⟩
  | finalize =>
    have halike := Run.finalize_alike x.plan hs hdb
    generalize hr : Run.finalize x.plan x.state = r at halike
    generalize hr' : Run.finalize x.plan (x.state.over db) = r' at halike
    unfold Session.ask
    simp only [hr, hr']
    cases halike with
    | ok _ hs' h' => exact ⟨rfl, rfl, hs', _, rfl, h'⟩
    | error _ hs' h' => exact ⟨rfl, rfl, hs', _, rfl, h'⟩

theorem Session.Mirrored.trace {x : Session MemoryStore} {y : Session Database}
    (h : x.Mirrored y) {calls : List Session.Call} (hcalls : ∀ call ∈ calls, call.Storable) :
    List.Forall₂ (fun r r' => r.1 = r'.1 ∧ r.2.Mirrored r'.2) (x.trace calls) (y.trace calls) := by
  have htrace := Session.trace_forall₂ id id (fun call hcall _ _ h => h.ask (hcalls call hcall)) h
  rwa [List.map_id] at htrace

/-- The answers to a call are the same, and the tables of the database are the image of the store, for
those who look at them and for those who read from them. -/
structure Session.Matches (r : Session.Answer × Session MemoryStore)
    (r' : Session.Answer × Session Database) : Prop where
  answer : r.1 = r'.1
  mirrors : Mirrors r.2.state.store r'.2.state.store
  restores : Restores r'.2.state.store r.2.state.store

/-- On a fresh database all runs go as on an empty store in memory. Every call is answered alike, with
the same outcome or the same failure, and after it the tables are the image of the store: the same
users, changesets, records in the order of writing, and versions, at the floor of their times and with
authors as they are known. The numbers of the audit log are taken never to run out. -/
theorem database_refines_memory (plan : Plan) (calls : List Session.Call)
    (hcalls : ∀ call ∈ calls, call.Storable) :
    List.Forall₂ Session.Matches
      ((Session.ofStore plan MemoryStore.empty).trace calls)
      ((Session.ofStore plan Database.fresh).trace calls) := by
  have hstart := Session.Mirrored.ofStore plan MemoryStore.WellKept.empty Mirrors.empty
  refine (hstart.trace hcalls).imp fun r r' h => ?_
  exact ⟨h.1, h.2.mirrors, h.2.mirrors.restores h.2.sound.kept⟩

/-- Two runs over the versions of a line, of which the second stops at a version out of order. -/
theorem database_refines_memory_on_short_lines :
    (∀ version, (Snapshot.shortLine version).Storable) ∧
      List.Forall₂ Session.Matches
        ((Session.ofStore ⟨{}, ⟨"first"⟩⟩ MemoryStore.empty).trace
          [.process .create (.shortLine 1), .finalize, .start ⟨{ policy := .stop }, ⟨"second"⟩⟩,
            .process .delete (.shortLine 2), .process .modify (.shortLine 5), .finalize])
        ((Session.ofStore ⟨{}, ⟨"first"⟩⟩ Database.fresh).trace
          [.process .create (.shortLine 1), .finalize, .start ⟨{ policy := .stop }, ⟨"second"⟩⟩,
            .process .delete (.shortLine 2), .process .modify (.shortLine 5), .finalize]) := by
  have hstorable (version : Int64) : (Snapshot.shortLine version).Storable := by
    refine ⟨fun t ht => ?_, fun p hp => ?_⟩
    · cases ht
      rfl
    · obtain rfl : p = ⟨1.5, 2.5⟩ := List.mem_singleton.1 hp
      exact ⟨by decide +kernel, by decide +kernel⟩
  refine ⟨hstorable, database_refines_memory _ _ fun call hcall => ?_⟩
  simp only [List.mem_cons, List.not_mem_nil, or_false] at hcall
  rcases hcall with rfl | rfl | rfl | rfl | rfl | rfl
  · exact hstorable 1
  · trivial
  · trivial
  · exact hstorable 2
  · exact hstorable 5
  · trivial

end MapAudit
