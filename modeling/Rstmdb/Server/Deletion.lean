import Rstmdb.Server.Compaction
import Rstmdb.Server.Context

/-! What becomes of a deleted instance. Nothing moves it any more and no list has it,
as long as no request asks for it and no event gets past the checks of the engine,
none of which looks at the deletion. -/
namespace Rstmdb
open Json (Value Fields)

/-- What happens in a run: a call of `handle`, a run of the compaction manager or a
restart. -/
inductive ServerEvent
  | called (c : CommandHandler) (k : Call)
  | compacted
  | restarted

namespace Server

def events (X : ServerExternals) (server : Server) : ServerOp → List ServerEvent
  | .request session request =>
    (calls X server.handler server.shared session request).map (.called server.handler)
  | .compact => [.compacted]
  | .restart _ => [.restarted]

/-- All that happens over a sequence of operations. -/
def trace (X : ServerExternals) : Server → List ServerOp → List ServerEvent
  | _, [] => []
  | server, op :: ops =>
    server.events X op ++
      match server.step X op with
      | some server => trace X server ops
      | none => []

/-- The last event, if it is a call. -/
def lastCall (events : List ServerEvent) : Option (CommandHandler × Call) :=
  match events.getLast? with
  | some (.called c k) => some (c, k)
  | _ => none

theorem lastCall_eq {events : List ServerEvent} {c : CommandHandler} {k : Call}
    (h : lastCall events = some (c, k)) : events = events.dropLast ++ [.called c k] := by
  unfold lastCall at h
  split at h <;> cases h
  rename_i hlast
  exact (List.dropLast_append_getLast? _ hlast).symm

theorem lastCall_mem {events : List ServerEvent} {c : CommandHandler} {k : Call}
    (h : lastCall events = some (c, k)) : .called c k ∈ events := by
  rw [lastCall_eq h]
  simp

/-- What every event keeps, every run keeps. -/
theorem trace_keep {X : ServerExternals} {P : List ServerEvent → Server → Prop}
    (entered : ∀ l server (ses : Session) (request : Request), P l server →
      (server.handler.requiresAuth request.op && !ses.authenticated) = true ∨
        request.op = .batch →
          P (l ++ [.called server.handler ⟨server.shared, ses, request⟩]) server)
    (executed : ∀ l server (ses : Session) (request : Request) s' ses' answer, P l server →
      (server.handler.requiresAuth request.op && !ses.authenticated) = false →
        execute X server.handler server.shared ses.recordRequest request.op request.params =
          some (s', ses', answer) →
            P (l ++ [.called server.handler ⟨server.shared, ses, request⟩])
              { server with shared := s' })
    (compacted : ∀ l server, P l server → P (l ++ [.compacted])
      { server with
        shared := (runCompaction X server.shared server.compaction).1
        compaction := (runCompaction X server.shared server.compaction).2.1 })
    (restarted : ∀ l server config server', P l server →
      start X config server.shared.engine.wal.dir server.shared.snapshotDir
        server.shared.uuids = some (.ok server') → P (l ++ [.restarted]) server')
    {l : List ServerEvent} {server server' : Server} {ops : List ServerOp} (hP : P l server)
    (h : run (step X) server ops = some server') : P (l ++ server.trace X ops) server' := by
  induction ops generalizing l server with
  | nil =>
    cases h
    simpa [trace] using hP
  | cons op ops ih =>
    obtain ⟨server₁, hs, hrest⟩ := run_cons.mp h
    rw [trace, hs, ← List.append_assoc]
    refine ih ?_ hrest
    cases op with
    | request session request =>
      obtain ⟨shared, hserve, rfl⟩ := Option.map_eq_some_iff.mp hs
      obtain ⟨⟨_, ses', r⟩, hh, rfl⟩ := Option.map_eq_some_iff.mp hserve
      have := calls_keep (P := fun ks s _ =>
          P (l ++ ks.map (.called server.handler)) { server with shared := s }) (l := [])
        (fun ks s ses request hP hr => by
          simpa using entered _ { server with shared := s } ses request hP hr)
        (fun ks s ses request s' ses' answer hP hr he => by
          simpa using executed _ { server with shared := s } ses request s' ses' answer hP hr he)
        (by simpa using hP) hh
      simpa [events] using this
    | compact =>
      cases hs
      exact compacted l server hP
    | restart config =>
      simp only [step] at hs
      split at hs
      · rename_i hstart
        cases hs
        exact restarted l server config _ hP hstart
      · cases hs

end Server

/-! ## Deleting and sparing -/

/-- A call that deletes the instance and is answered with ok. -/
def Call.deletes (X : ServerExternals) (c : CommandHandler) (id : String) (k : Call) : Bool :=
  k.request.op = .deleteInstance && (k.request.params.index "instance_id").asStr = some id &&
    k.succeeds X c

/-- A call that asks for the instance. -/
def Call.asksFor (id : String) (k : Call) : Bool :=
  k.request.op = .getInstance &&
    (GetInstanceParams.fromValue k.request.params).any (·.instanceId = id)

/-- An event on the instance that has an answer in the cache, or that the checks let
through. -/
def Call.eventAdmitted (id : String) (k : Call) : Bool :=
  (k.eventOn id).any fun p =>
    (k.shared.engine.cachedResult p.instanceId p.idempotencyKey).isSome ||
      (k.shared.engine.instances[id]?).any fun i => (k.shared.engine.targetOf p.request i).isOk

namespace ServerEvent

/-- Segments may have been deleted since the last start, if they may have been before
the event. -/
def compactedAfter (compacted : Bool) : ServerEvent → Bool
  | .called c k =>
    compacted ||
      (k.request.op = .compact && !(c.requiresAuth k.request.op && !k.session.authenticated))
  | .compacted => true
  | .restarted => false

/-- The event respects a deletion: it does not ask for the instance, no event on it
that is executed gets past the checks, and a restart finds the whole log. -/
def spares (id : String) (compacted : Bool) : ServerEvent → Bool
  | .called c k =>
    !k.asksFor id &&
      ((c.requiresAuth k.request.op && !k.session.authenticated) || !k.eventAdmitted id)
  | .compacted => true
  | .restarted => !compacted

end ServerEvent

/-- Segments may have been deleted since the last start. -/
def compactedSince (compacted : Bool) (l : List ServerEvent) : Bool :=
  l.foldl ServerEvent.compactedAfter compacted

/-- All of the events respect the deletion. -/
def spared (id : String) : Bool → List ServerEvent → Bool
  | _, [] => true
  | compacted, e :: l => e.spares id compacted && spared id (e.compactedAfter compacted) l

theorem spared_append (id : String) (compacted : Bool) (l m : List ServerEvent) :
    spared id compacted (l ++ m) =
      (spared id compacted l && spared id (compactedSince compacted l) m) := by
  induction l generalizing compacted with
  | nil => simp [spared, compactedSince]
  | cons e l ih => simp [spared, ih, compactedSince, Bool.and_assoc]

theorem spared_called {id : String} {compacted : Bool} {l : List ServerEvent}
    (h : spared id compacted l = true) {c : CommandHandler} {k : Call}
    (hk : .called c k ∈ l) : (ServerEvent.called c k).spares id false = true := by
  induction l generalizing compacted with
  | nil => cases hk
  | cons e l ih =>
    obtain ⟨he, hl⟩ := Bool.and_eq_true_iff.mp h
    obtain rfl | hk := List.mem_cons.mp hk
    · exact he
    · exact ih hl hk

/-- The engine has the deleted instance as it was, but perhaps for its last event id. -/
structure Engine.Buried (e : Engine) (id : String) (i : Instance) : Prop where
  named : e.toMemory.Named
  kept : ∃ j, e.instances[id]? = some j ∧ j.persisted = i.persisted
  deleted : i.isDeleted = true

theorem isDeleted_of_persisted {i j : Instance} (h : j.persisted = i.persisted) :
    j.isDeleted = i.isDeleted := by
  have : j.persisted.isDeleted = i.persisted.isDeleted := congrArg Instance.isDeleted h
  exact this

namespace Engine.Buried

variable {e e' : Engine} {id : String} {i : Instance}

theorem of_memory (h : e.Buried id i) (he : e'.toMemory = e.toMemory) : e'.Buried id i := by
  obtain ⟨named, kept, deleted⟩ := h
  rw [← he] at named kept
  exact ⟨named, kept, deleted⟩

/-- Any entry but an event on the instance leaves it as it is. -/
theorem changes {X : CoreExternals} (h : e.Buried id i) {offset : Nat} {entry : WalEntry}
    (hc : Changes X e.toMemory offset entry e'.toMemory)
    (other : entry.entryType ≠ .applyEvent ∨ entry.instanceId ≠ some id) : e'.Buried id i := by
  obtain ⟨j, hj, hji⟩ := h.kept
  refine ⟨hc.named h.named, ?_, h.deleted⟩
  obtain hk | ⟨-, halive, -⟩ := hc.instance_kept hj other
  · exact ⟨j, hk, hji⟩
  · rw [isDeleted_of_persisted hji, h.deleted] at halive
    cases halive

theorem logs {X : CoreExternals} (h : e.Buried id i) {p : WalEntry → Prop}
    (hl : Engine.Logs X p e e')
    (other : ∀ entry, p entry → entry.entryType ≠ .applyEvent ∨ entry.instanceId ≠ some id) :
    e'.Buried id i := by
  cases hl with
  | kept => exact h
  | refused => exact h.of_memory rfl
  | logged appended changes meets => exact h.changes changes (other _ meets)

theorem not_listed (h : e.Buried id i) {j : Instance} (hj : j ∈ e.getAllInstances) : j.id ≠ id := by
  rintro rfl
  obtain ⟨id', hget, halive⟩ := mem_getAllInstances hj
  obtain rfl := h.named id' j hget
  obtain ⟨k, hk, hki⟩ := h.kept
  rw [hget] at hk
  cases hk
  rw [isDeleted_of_persisted hki, h.deleted] at halive
  cases halive

end Engine.Buried

/-! ## Calls -/

section
variable {X : ServerExternals} {c : CommandHandler} {s s' : Shared} {id : String} {i : Instance}

variable {k : Call} {p : ApplyEventParams}

theorem eventOn_some (h : k.eventOn id = some p) :
    k.request.op = .applyEvent ∧ ApplyEventParams.fromValue k.request.params = some p ∧
      p.instanceId = id := by
  unfold Call.eventOn at h
  split at h
  · rename_i hop
    obtain ⟨hp, hid⟩ := Option.filter_eq_some_iff.mp h
    exact ⟨hop, hp, by simpa using hid⟩
  · cases h

theorem applyEvent_not_admitted {j : Instance} (hon : k.eventOn id = some p)
    (hj : k.shared.engine.instances[id]? = some j) (hadm : k.eventAdmitted id = false) :
    ∃ e, k.shared.engine.applyEvent X.toCoreExternals p.request =
      some (k.shared.engine, .error e) := by
  obtain ⟨-, -, hid⟩ := eventOn_some hon
  simp only [Call.eventAdmitted, hon, Option.any_some, Bool.or_eq_false_iff, hj] at hadm
  obtain ⟨hc, ht⟩ := hadm
  cases htarget : k.shared.engine.targetOf p.request j with
  | ok => simp [htarget, Except.isOk, Except.toBool] at ht
  | error e =>
    have hnone : k.shared.engine.cachedResult p.instanceId p.idempotencyKey = none := by
      simpa using hc
    have hget : k.shared.engine.instances[p.request.instanceId]? = some j := by
      rw [← hj, ← hid]
      rfl
    exact ⟨e, Engine.applyEvent_rejected hnone hget htarget⟩

/-- An event that is refused or not admitted is answered with an error and changes
nothing. -/
theorem handle_not_admitted (h : k.shared.engine.Buried id i) (hon : k.eventOn id = some p)
    (hrefused : (c.requiresAuth k.request.op && !k.session.authenticated) = true ∨
      k.eventAdmitted id = false) :
    ∃ ses' r, handle X c k.shared k.session k.request = some (k.shared, ses', r) ∧
      r.isError = true := by
  by_cases hr : (c.requiresAuth k.request.op && !k.session.authenticated) = true
  · refine ⟨k.session.recordRequest, unauthorizedResponse k.request.id, ?_, rfl⟩
    rw [handle_eq, if_pos hr]
  · obtain ⟨hop, hp, hid⟩ := eventOn_some hon
    obtain ⟨j, hj, -⟩ := h.kept
    obtain ⟨e, happly⟩ := applyEvent_not_admitted (X := X) hon hj (hrefused.resolve_left hr)
    have hget : k.shared.engine.getInstance p.instanceId = .ok j := by
      simp [Engine.getInstance, hid, hj]
    have he : execute X c k.shared k.session.recordRequest k.request.op k.request.params =
        some (k.shared, k.session.recordRequest, .error (.core e)) := by
      simp [hop, execute, handleApplyEvent, hp, hget, happly]
    exact ⟨_, _, handle_of_execute (Bool.eq_false_iff.mpr hr) he, rfl⟩

/-- An operation that is executed leaves a deleted instance, if it is no event that
gets past the checks. -/
theorem Engine.Buried.execute {ses₀ ses ses' : Session} {request : Request} {answer : Answered}
    (h : s.engine.Buried id i)
    (he : Rstmdb.execute X c s ses request.op request.params = some (s', ses', answer))
    (hadm : Call.eventAdmitted id ⟨s, ses₀, request⟩ = false) : s'.engine.Buried id i := by
  by_cases hop : request.op = .applyEvent
  · rw [hop] at he
    obtain ⟨rfl, -⟩ | ⟨p, j, res, hp, hj, happly, -⟩ :=
      handleApplyEvent_cases (handleApplyEvent_of_execute he)
    · exact h
    · by_cases hid : p.instanceId = id
      · have hon : Call.eventOn ⟨s, ses₀, request⟩ id = some p := by
          simp [Call.eventOn, hop, hp, hid]
        rw [hid] at hj
        obtain ⟨e, hrejected⟩ := applyEvent_not_admitted (X := X) hon hj hadm
        rw [hrejected] at happly
        have hsame : s.engine = s'.engine := (Prod.ext_iff.mp (Option.some.inj happly)).1
        exact hsame ▸ h
      · exact h.logs (Engine.logs_applyEvent happly) fun entry hentry => .inr fun hsame =>
          hid (Option.some.inj (hentry.2.1.symm.trans hsame))
  · have touched := execute_engine he
    generalize s'.engine = e' at touched
    cases touched with
    | called hl =>
      exact h.logs hl fun entry hentry => .inl fun ht =>
        hop (Operation.eq_applyEvent (ht ▸ hentry))
    | readLog | compacted => exact h.of_memory rfl

theorem handle_deletes (h : k.deletes X c id = true) :
    (c.requiresAuth k.request.op && !k.session.authenticated) = false ∧
      k.request.op = .deleteInstance ∧
      ∀ s' ses' answer, execute X c k.shared k.session.recordRequest k.request.op
        k.request.params = some (s', ses', answer) →
          ∃ i, s'.engine.instances[id]? = some i ∧ i.isDeleted = true := by
  simp only [Call.deletes, Bool.and_eq_true, decide_eq_true_eq] at h
  obtain ⟨⟨hop, hid⟩, hok⟩ := h
  have hr : (c.requiresAuth k.request.op && !k.session.authenticated) = false := by
    by_contra hr
    rw [Bool.not_eq_false] at hr
    simp [Call.succeeds, handle_eq, hr, unauthorizedResponse, Response.failed, Response.isOk] at hok
  refine ⟨hr, hop, fun s' ses' answer he => ?_⟩
  rw [Call.succeeds, handle_of_execute hr he] at hok
  rw [hop] at he
  obtain ⟨⟨s₁, answer₁⟩, hd, hout⟩ := Option.map_eq_some_iff.mp he
  obtain ⟨rfl, -, rfl⟩ : s₁ = s' ∧ _ = ses' ∧ answer₁ = answer := by simpa using hout
  unfold handleDeleteInstance at hd
  simp only [hid] at hd
  split at hd
  · cases hd
  · cases hd
    cases hok
  · rename_i hdel
    cases hd
    exact Engine.deleteInstance_ok hdel

end

/-! ## Runs -/

/-- An instance that was deleted stays as it was as long as the events spare it. -/
def StaysDeleted (X : ServerExternals) (id : String) (l : List ServerEvent) (s : Shared) : Prop :=
  ∀ before c d after, l = before ++ .called c d :: after → d.deletes X c id = true →
    spared id (compactedSince false (before ++ [.called c d])) after = true →
      ∃ s₁ ses₁ r i, handle X c d.shared d.session d.request = some (s₁, ses₁, r) ∧
        s₁.engine.instances[id]? = some i ∧
        (∀ c' k, .called c' k ∈ after → k.shared.engine.Buried id i) ∧ s.engine.Buried id i

/-- What holds along a run; a start on the log would find the memory as it is unless
segments may have been deleted. -/
structure DeletionKept (X : ServerExternals) (id : String) (l : List ServerEvent)
    (server : Server) : Prop where
  whole : ∃ pre ch, server.shared.Sound X server.compaction pre ch ∧
    (compactedSince false l = false →
      ∃ m, replayEntries X.toCoreExternals .empty (entries (pre ++ [ch])) = some m ∧
        m.Agrees server.shared.engine.toMemory)
  named : server.shared.engine.toMemory.Named
  kept : StaysDeleted X id l server.shared

section
variable {X : ServerExternals} {id : String} {l : List ServerEvent} {server server' : Server}

/-- One more event: it is the deletion itself, or it spares the instance. -/
theorem DeletionKept.snoc {e : ServerEvent} (h : DeletionKept X id l server)
    (before : ∀ c k, e = .called c k → k.shared = server.shared)
    (deletes : ∀ c k, e = .called c k → k.deletes X c id = true →
      ∃ ses₁ r i, handle X c k.shared k.session k.request = some (server'.shared, ses₁, r) ∧
        server'.shared.engine.instances[id]? = some i ∧ server'.shared.engine.Buried id i)
    (spares : ∀ i, server.shared.engine.Buried id i →
      e.spares id (compactedSince false l) = true → server'.shared.engine.Buried id i) :
    StaysDeleted X id (l ++ [e]) server'.shared := by
  intro xs c d after hl hdel hspared
  cases after using List.reverseRecOn with
  | nil =>
    obtain ⟨-, he⟩ := List.append_inj' hl rfl
    cases he
    obtain ⟨ses₁, r, i, hh, hi, hburied⟩ := deletes c d rfl hdel
    exact ⟨_, ses₁, r, i, hh, hi, by simp, hburied⟩
  | append_singleton after e' =>
    rw [← List.cons_append, ← List.append_assoc] at hl
    obtain ⟨rfl, he⟩ := List.append_inj' hl rfl
    cases he
    rw [spared_append, Bool.and_eq_true] at hspared
    obtain ⟨hbefore, hlast⟩ := hspared
    obtain ⟨s₁, ses₁, r, i, hh, hi, hcalls, hburied⟩ := h.kept xs c d after rfl hdel hbefore
    refine ⟨s₁, ses₁, r, i, hh, hi, ?_, spares i hburied ?_⟩
    · intro c' k hk
      obtain hk | hk := List.mem_append.mp hk
      · exact hcalls c' k hk
      · rw [before c' k (List.mem_singleton.mp hk).symm]
        exact hburied
    · simpa [compactedSince, spared] using hlast

theorem EngineTouched.named {X : CoreExternals} {e e' : Engine} {op : Operation}
    (h : EngineTouched X e op e') (hnamed : e.toMemory.Named) : e'.toMemory.Named := by
  cases h with
  | called hl =>
    cases hl with
    | kept | refused => exact hnamed
    | logged _ changes _ => exact changes.named hnamed
  | readLog | compacted => exact hnamed

section
variable (h : DeletionKept X id l server)
include h

theorem deletionKept_entered {ses : Session} {request : Request}
    (hr : (server.handler.requiresAuth request.op && !ses.authenticated) = true ∨
      request.op = .batch) :
    DeletionKept X id (l ++ [.called server.handler ⟨server.shared, ses, request⟩]) server := by
  refine ⟨?_, h.named, h.snoc ?_ ?_ fun i hi _ => hi⟩
  · obtain ⟨pre, ch, hsound, hwhole⟩ := h.whole
    refine ⟨pre, ch, hsound, fun hc => hwhole ?_⟩
    rw [compactedSince, List.foldl_append] at hc
    exact (Bool.or_eq_false_iff.mp hc).1
  · rintro c k ⟨⟩
    rfl
  · rintro c k ⟨⟩ hdel
    obtain ⟨hr', hop, -⟩ := handle_deletes hdel
    obtain hr | hb := hr
    · rw [hr'] at hr
      cases hr
    · rw [hop] at hb
      cases hb

theorem deletionKept_executed {ses ses' : Session} {request : Request} {s' : Shared}
    {answer : Answered}
    (hr : (server.handler.requiresAuth request.op && !ses.authenticated) = false)
    (he : execute X server.handler server.shared ses.recordRequest request.op request.params =
      some (s', ses', answer)) :
    DeletionKept X id (l ++ [.called server.handler ⟨server.shared, ses, request⟩])
      { server with shared := s' } := by
  obtain ⟨pre, ch, hsound, hwhole⟩ := h.whole
  obtain ⟨pre', ch', hsound', hgrown⟩ := hsound.execute he
  have hnamed := (execute_engine he).named h.named
  refine ⟨⟨pre', ch', hsound', fun hc => ?_⟩, hnamed, h.snoc ?_ ?_ ?_⟩
  · rw [compactedSince, List.foldl_append] at hc
    obtain ⟨hc, hop⟩ := Bool.or_eq_false_iff.mp hc
    obtain ⟨m, hm, hagrees⟩ := hwhole hc
    have hcompact : request.op ≠ .compact := by
      dsimp only at hop
      rw [hr] at hop
      simpa using hop
    obtain ⟨hes, hmem⟩ | ⟨seq, off, entry, hes, changes⟩ := hgrown hcompact
    · exact ⟨m, by rw [hes, hm], hmem ▸ hagrees⟩
    · obtain ⟨m', hm', hagrees'⟩ := replayEntry_of_changes hagrees changes
      refine ⟨m', ?_, hagrees'⟩
      rw [hes, replayEntries_append, hm]
      simp [replayEntries, hm']
  · rintro c k ⟨⟩
    rfl
  · rintro c k ⟨⟩ hdel
    obtain ⟨-, -, hdone⟩ := handle_deletes hdel
    obtain ⟨i, hi, hdeleted⟩ := hdone s' ses' answer he
    exact ⟨ses', _, i, handle_of_execute hr he, hi, hnamed, ⟨i, hi, rfl⟩, hdeleted⟩
  · intro i hi hspares
    refine @Engine.Buried.execute _ _ _ _ _ _ ses _ _ _ _ hi he ?_
    simp only [ServerEvent.spares, hr, Bool.false_or, Bool.and_eq_true] at hspares
    simpa using hspares.2

theorem deletionKept_compacted :
    DeletionKept X id (l ++ [.compacted])
      { server with
        shared := (runCompaction X server.shared server.compaction).1
        compaction := (runCompaction X server.shared server.compaction).2.1 } := by
  obtain ⟨pre, ch, hsound, -⟩ := h.whole
  have hmem := runCompaction_memory X server.shared server.compaction
  refine ⟨⟨_, ch, hsound.runCompaction, fun hc => ?_⟩, hmem ▸ h.named, h.snoc ?_ ?_ ?_⟩
  · simp [compactedSince, ServerEvent.compactedAfter] at hc
  · rintro c k ⟨⟩
  · rintro c k ⟨⟩
  · exact fun i hi _ => hi.of_memory hmem

theorem deletionKept_restarted {config : ServerConfig}
    (hs : Server.start X config server.shared.engine.wal.dir server.shared.snapshotDir
      server.shared.uuids = some (.ok server')) :
    DeletionKept X id (l ++ [.restarted]) server' := by
  obtain ⟨pre, ch, hsound, hwhole⟩ := h.whole
  obtain ⟨server'', hs', hsound', hreplay⟩ := Server.Sound.start hsound (Server.start_tokens hs)
  rw [hs] at hs'
  cases hs'
  have hnamed : server'.shared.engine.toMemory.Named :=
    replayEntries_named hreplay Memory.named_empty
  refine ⟨⟨pre, ch, hsound', fun _ => ⟨_, hreplay, .refl _⟩⟩, hnamed, h.snoc ?_ ?_ ?_⟩
  · rintro c k ⟨⟩
  · rintro c k ⟨⟩
  · intro i hi hspares
    obtain ⟨m, hm, hagrees⟩ := hwhole (by simpa [ServerEvent.spares] using hspares)
    rw [hreplay] at hm
    cases hm
    obtain ⟨j, hj, hji⟩ := hi.kept
    obtain ⟨j', hj', hjj⟩ := hagrees.present hj
    exact ⟨hnamed, ⟨j', hj', hjj.trans hji⟩, hi.deleted⟩

end

theorem deletionKept_run {config : ServerConfig} {ops : List ServerOp}
    (hrun : run (Server.step X) (.fresh config) ops = some server') (id : String) :
    DeletionKept X id ((Server.fresh config).trace X ops) server' := by
  have hfresh : DeletionKept X id [] (.fresh config) := by
    refine ⟨⟨[], _, Server.shared_sound_fresh X config, fun _ => ⟨.empty, rfl, .refl _⟩⟩,
      Memory.named_empty, ?_⟩
    intro before c d after hl
    simp at hl
  exact Server.trace_keep (P := DeletionKept X id) (l := [])
    (fun _ _ _ _ h hr => deletionKept_entered h hr)
    (fun _ _ _ _ _ _ _ h hr he => deletionKept_executed h hr he)
    (fun _ _ h => deletionKept_compacted h)
    (fun _ _ _ _ h hs => deletionKept_restarted h hs) hfresh hrun

/-- The instances that an answer lists. -/
def listedIds (answer : Value) : List String :=
  (((answer.index "instances").asArray).getD []).filterMap fun v => (v.index "id").asStr

theorem listedIds_eq (is : List Instance) (total more : Value) :
    listedIds (.obj [("instances", .array (is.map (instanceSummary X))), ("total", total),
      ("has_more", more)]) = is.map Instance.id := by
  have harray : (Value.obj [("instances", .array (is.map (instanceSummary X))), ("total", total),
      ("has_more", more)]).index "instances" = .array (is.map (instanceSummary X)) := by
    simp [Value.obj, Value.index, Fields.ofList, Fields.get?_insert]
  have hid (i : Instance) : (instanceSummary X i).index "id" = .string i.id := by
    simp [instanceSummary, Value.obj, Value.index, Fields.ofList, Fields.get?_insert]
  rw [listedIds, harray]
  simp [Value.asArray, List.filterMap_map, hid, Value.asStr]

theorem not_mem_listedIds {s : Shared} {params v : Value} {i : Instance}
    (h : s.engine.Buried id i) (hl : handleListInstances X s params = .ok v) :
    id ∉ listedIds v := by
  unfold handleListInstances at hl
  split at hl
  · cases hl
  cases hl
  rw [listedIds_eq]
  intro hid
  obtain ⟨j, hj, hjd⟩ := List.mem_map.mp hid
  have hlisted := List.mem_of_mem_filter (List.mem_of_mem_drop (List.mem_of_mem_take hj))
  exact h.not_listed hlisted hjd

/-- A deleted instance is not moved again, events on it are answered with an error
and leave everything as it is, and no list has it: in every run in which the events
after the deletion spare the instance. -/
theorem deletion_final {config : ServerConfig} {server₀ : Server}
    (started : Server.start X config ∅ .empty 0 = some (.ok server₀)) {ops : List ServerOp}
    (hrun : run (Server.step X) server₀ ops = some server') {before after : List ServerEvent}
    {c : CommandHandler} {d : Call} (htrace : server₀.trace X ops = before ++ .called c d :: after)
    (hdeletes : d.deletes X c id = true)
    (hspared : spared id (compactedSince false (before ++ [.called c d])) after = true) :
    ∃ s₁ ses₁ r i, handle X c d.shared d.session d.request = some (s₁, ses₁, r) ∧
      s₁.engine.instances[id]? = some i ∧ i.isDeleted = true ∧
      (∀ c' k, .called c' k ∈ after →
        (∃ j, k.shared.engine.instances[id]? = some j ∧ j.persisted = i.persisted) ∧
        ((k.eventOn id).isSome = true → ∃ ses' r,
          handle X c' k.shared k.session k.request = some (k.shared, ses', r) ∧
            r.isError = true) ∧
        (k.request.op = .listInstances → ∀ s' ses' r,
          handle X c' k.shared k.session k.request = some (s', ses', r) →
            ∀ v ∈ r.result, id ∉ listedIds v)) ∧
      ∃ j, server'.shared.engine.instances[id]? = some j ∧ j.persisted = i.persisted := by
  obtain rfl := Server.eq_fresh_of_start started
  obtain ⟨s₁, ses₁, r, i, hh, hi, hcalls, hburied⟩ :=
    (deletionKept_run hrun id).kept before c d after htrace hdeletes hspared
  refine ⟨s₁, ses₁, r, i, hh, hi, hburied.deleted, fun c' k hk => ?_, hburied.kept⟩
  have hk' := hcalls c' k hk
  refine ⟨hk'.kept, fun hon => ?_, fun hop s' ses' r' hh' v hv => ?_⟩
  · obtain ⟨p, hp⟩ := Option.isSome_iff_exists.mp hon
    apply handle_not_admitted hk' hp
    have := spared_called hspared hk
    simp only [ServerEvent.spares, Bool.and_eq_true (!k.asksFor id), Bool.or_eq_true] at this
    simpa using this.2
  · obtain ⟨-, -, -, rfl⟩ | ⟨-, answer, rfl, ⟨hbatch, -⟩ | ⟨-, he⟩⟩ := handle_cases hh'
    · cases hv
    · rw [hop] at hbatch
      cases hbatch
    · rw [hop] at he
      cases he
      cases ha : handleListInstances X k.shared k.request.params with
      | error e =>
        rw [ha] at hv
        cases hv
      | ok v' =>
        rw [ha] at hv
        cases hv
        exact not_mem_listedIds hk' ha

end

def deleteLoop (id : String) : Request :=
  ⟨"4", .deleteInstance, .object [("instance_id", .string id)]⟩

def getLoop (id : String) : Request :=
  ⟨"5", .getInstance, .object [("instance_id", .string id)]⟩

/-- An event for which the machine has no transition. -/
def applyUnknown (id : String) : Request :=
  ⟨"6", .applyEvent, .object [("event", .string "x"), ("instance_id", .string id)]⟩

set_option maxRecDepth 4000 in
/-- An event without a transition is no danger to a deleted instance. -/
theorem deletion_final_unknown_event :
    ∃ server', run (Server.step serdeServer) (.fresh (openConfig 1000))
        ([putLoop, createLoop "i" [], deleteLoop "i", applyUnknown "i"].map
          (.request (Session.new false))) = some server' ∧
      ∃ j, server'.shared.engine.instances["i"]? = some j ∧ j.isDeleted = true := by
  obtain ⟨events, hevents⟩ : ∃ events, (Server.fresh (openConfig 1000)).trace serdeServer
      ([putLoop, createLoop "i" [], deleteLoop "i", applyUnknown "i"].map
        (.request (Session.new false))) = events := ⟨_, rfl⟩
  have htrace : (Server.lastCall (events.take 3)).any (fun p => p.2.deletes serdeServer p.1 "i" &&
      spared "i" (compactedSince false (events.take 3)) (events.drop 3)) = true := by
    rw [← hevents]
    decide +kernel
  refine run_exists (p := fun _ => True) (by decide +kernel) fun server' hrun _ => ?_
  obtain ⟨⟨c, d⟩, hlast, htrace⟩ := (Option.any_eq_true _ _).mp htrace
  obtain ⟨hdeletes, hspared⟩ := Bool.and_eq_true_iff.mp htrace
  have htake := Server.lastCall_eq hlast
  have heq : events = (events.take 3).dropLast ++ .called c d :: events.drop 3 := by
    rw [← List.singleton_append, ← List.append_assoc, ← htake, List.take_append_drop]
  rw [htake] at hspared
  obtain ⟨-, -, -, i, -, -, hdeleted, -, j, hj, hji⟩ :=
    @deletion_final _ _ _ (openConfig 1000) _ (Server.start_empty rfl) _ hrun _ _ _ _
      (hevents.trans heq) hdeletes hspared
  exact ⟨j, hj, (isDeleted_of_persisted hji).trans hdeleted⟩

set_option maxRecDepth 4000 in
/-- After a deletion that was answered with ok, the instance is handed out, and an
event moves it. -/
theorem deletion_not_final :
    let c := (Server.fresh (openConfig 1000)).handler
    let ses := Session.new false
    ∃ s₀, run (serve serdeServer c) (Server.fresh (openConfig 1000)).shared
        (anonymous [putLoop, createLoop "i" []]) = some s₀ ∧
      ∃ s₁ ses₁ r₁, handle serdeServer c s₀ ses (deleteLoop "i") = some (s₁, ses₁, r₁) ∧
        r₁.isOk = true ∧
        (∃ s₂ ses₂ r₂, handle serdeServer c s₁ ses (getLoop "i") = some (s₂, ses₂, r₂) ∧
          r₂.isOk = true) ∧
        ∃ s₂ ses₂ r₂, handle serdeServer c s₁ ses (applyLoop "i" .null) = some (s₂, ses₂, r₂) ∧
          r₂.isOk = true ∧ (s₂.engine.instances["i"]?).map Instance.lastWalOffset ≠
            (s₁.engine.instances["i"]?).map Instance.lastWalOffset := by
  intro c ses
  refine run_exists (p := fun s₀ => (handle serdeServer c s₀ ses (deleteLoop "i")).any
    (fun a => a.2.2.isOk &&
      (handle serdeServer c a.1 ses (getLoop "i")).any (fun b => b.2.2.isOk) &&
      (handle serdeServer c a.1 ses (applyLoop "i" .null)).any fun b => b.2.2.isOk &&
        (b.1.engine.instances["i"]?).map Instance.lastWalOffset ≠
          (a.1.engine.instances["i"]?).map Instance.lastWalOffset) = true)
    (by decide +kernel) ?_
  intro s₀ _ h
  obtain ⟨⟨s₁, ses₁, r₁⟩, hdelete, h⟩ := (Option.any_eq_true _ _).mp h
  simp only [Bool.and_eq_true] at h
  obtain ⟨⟨hok, hget⟩, happly⟩ := h
  obtain ⟨⟨s₂, ses₂, r₂⟩, hget, hgot⟩ := (Option.any_eq_true _ _).mp hget
  obtain ⟨⟨s₃, ses₃, r₃⟩, happly, hmoved⟩ := (Option.any_eq_true _ _).mp happly
  obtain ⟨happlied, hmoved⟩ := Bool.and_eq_true_iff.mp hmoved
  exact ⟨s₁, ses₁, r₁, hdelete, hok, ⟨s₂, ses₂, r₂, hget, hgot⟩, s₃, ses₃, r₃, happly, happlied,
    of_decide_eq_true hmoved⟩

end Rstmdb
