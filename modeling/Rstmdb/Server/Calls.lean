import Rstmdb.Lib.Runs
import Rstmdb.Server.Handler

/-! The calls of `handle` that one request leads to: its own, and those a batch
makes for its operations. What every call keeps, every request keeps. -/
namespace Rstmdb
open Json (Value)

/-- A call of `handle`, with the state it finds. -/
structure Call where
  shared : Shared
  session : Session
  request : Request

/-- The calls of the loop of `handle_batch`, given those of each operation. -/
def batchCalls (X : ServerExternals) (c : CommandHandler)
    (calls : Shared → Session → Request → List Call) (mode : String) :
    List Value → Shared → Session → List Call
  | [], _, _ => []
  | op :: ops, s, ses =>
    match (op.index "op").asStr with
    | none => []
    | some opType =>
      match Operation.ofName opType with
      | none => []
      | some operation =>
        let request : Request := ⟨"batch", operation, op.index "params"⟩
        calls s ses request ++
          match handle X c s ses request with
          | none => []
          | some (s, ses, response) =>
            if mode = "atomic" && response.isError then []
            else batchCalls X c calls mode ops s ses

def callsWithin (X : ServerExternals) (c : CommandHandler) :
    Nat → Shared → Session → Request → List Call
  | 0, _, _, _ => []
  | depth + 1, s, ses, request =>
    ⟨s, ses, request⟩ ::
      if c.requiresAuth request.op && !ses.authenticated then []
      else if request.op = .batch then
        match (request.params.index "ops").asArray with
        | none => []
        | some ops =>
          if c.info.maxBatchOps.toNat < ops.length then []
          else
            batchCalls X c (callsWithin X c depth)
              (((request.params.index "mode").asStr).getD "best_effort") ops s ses.recordRequest
      else []

/-- All calls that handling a request makes, its own first. -/
def calls (X : ServerExternals) (c : CommandHandler) (s : Shared) (ses : Session)
    (request : Request) : List Call :=
  callsWithin X c (request.params.depth + 1) s ses request

/-- One request of a session, as far as the others can see it. -/
def serve (X : ServerExternals) (c : CommandHandler) (s : Shared) (p : Session × Request) :
    Option Shared :=
  (handle X c s p.1 p.2).map Prod.fst

/-- The calls that a sequence of requests makes. -/
def servedCalls (X : ServerExternals) (c : CommandHandler) :
    Shared → List (Session × Request) → List Call
  | _, [] => []
  | s, p :: ps =>
    calls X c s p.1 p.2 ++
      match serve X c s p with
      | some s => servedCalls X c s ps
      | none => []

section
variable {X : ServerExternals} {c : CommandHandler}

variable {s s' : Shared} {ses ses' : Session} {request : Request} {l : List Call}

/-- What a request did: it was refused, it was a batch, or its operation was executed. -/
theorem handle_cases {r : Response} (h : handle X c s ses request = some (s', ses', r)) :
    ((c.requiresAuth request.op && !ses.authenticated) = true ∧ s' = s ∧
        ses' = ses.recordRequest ∧ r = unauthorizedResponse request.id) ∨
      ((c.requiresAuth request.op && !ses.authenticated) = false ∧ ∃ answer,
        r = responseOf X request.id answer ∧
          (request.op = .batch ∧
              handleBatch X c (handle X c) s ses.recordRequest request.params =
                some (s', ses', answer) ∨
            request.op ≠ .batch ∧
              execute X c s ses.recordRequest request.op request.params =
                some (s', ses', answer))) := by
  rw [handle_eq] at h
  split at h
  · rename_i hr
    cases h
    exact .inl ⟨hr, rfl, rfl, rfl⟩
  rename_i hr
  refine .inr ⟨Bool.eq_false_iff.mpr hr, ?_⟩
  obtain ⟨⟨_, _, answer⟩, he, hout⟩ := Option.map_eq_some_iff.mp h
  cases hout
  refine ⟨answer, rfl, ?_⟩
  split at he
  · exact .inl ⟨‹_›, he⟩
  · exact .inr ⟨‹_›, he⟩

theorem handle_of_execute {answer : Answered}
    (hr : (c.requiresAuth request.op && !ses.authenticated) = false)
    (he : execute X c s ses.recordRequest request.op request.params = some (s', ses', answer)) :
    handle X c s ses request = some (s', ses', responseOf X request.id answer) := by
  have hop : request.op ≠ .batch := by
    intro hop
    rw [hop] at he
    cases he
  rw [handle_eq, if_neg (by simp [hr]), if_neg hop, he]
  rfl

/-- A call that panics: its operation does. -/
structure Call.Panics (X : ServerExternals) (c : CommandHandler) (k : Call) : Prop where
  single : k.request.op ≠ .batch
  admitted : (c.requiresAuth k.request.op && !k.session.authenticated) = false
  executed : execute X c k.shared k.session.recordRequest k.request.op k.request.params = none

/-- What holds after these calls: the property of the state they leave or, if the last one
panics, of the state that it found. -/
def After (X : ServerExternals) (c : CommandHandler) (P : List Call → Shared → Session → Prop)
    (l ks : List Call) {α : Type} : Handled α → Prop
  | some (s', ses', _) => P (l ++ ks) s' ses'
  | none => ∃ front k, ks = front ++ [k] ∧ P (l ++ front) k.shared k.session ∧ k.Panics X c

variable {P : List Call → Shared → Session → Prop}

theorem After.append {α : Type} {ks ks' : List Call} {out : Handled α}
    (h : After X c P (l ++ ks) ks' out) : After X c P l (ks ++ ks') out := by
  cases out with
  | none =>
    obtain ⟨front, k, rfl, hP, hk⟩ := h
    exact ⟨ks ++ front, k, by simp, by simpa using hP, hk⟩
  | some out => simpa [After] using h

/-- What holds along the calls of the operations holds along those of the loop. -/
theorem batchCalls_keep {calls : Shared → Session → Request → List Call} (mode : String)
    {ops : List Value}
    (inner : ∀ op ∈ ops, ∀ opType, (op.index "op").asStr = some opType →
      ∀ operation l s ses, P l s ses →
        After X c P l (calls s ses ⟨"batch", operation, op.index "params"⟩)
          (handle X c s ses ⟨"batch", operation, op.index "params"⟩)) (hP : P l s ses) :
    After X c P l (batchCalls X c calls mode ops s ses)
      (batchOps X (handle X c) mode ops s ses) := by
  induction ops generalizing l s ses with
  | nil => simpa [batchCalls, batchOps, After] using hP
  | cons op ops ih =>
    simp only [batchOps, batchCalls]
    cases htype : (op.index "op").asStr with
    | none => simpa [After] using hP
    | some opType =>
      cases hop : Operation.ofName opType with
      | none => simpa [After, hop] using hP
      | some operation =>
        have hfirst := inner op List.mem_cons_self opType htype operation l s ses hP
        simp only [hop]
        cases hh : handle X c s ses ⟨"batch", operation, op.index "params"⟩ with
        | none =>
          rw [hh] at hfirst
          rw [List.append_nil]
          exact hfirst
        | some out =>
          obtain ⟨s₁, ses₁, r⟩ := out
          rw [hh] at hfirst
          dsimp only
          split
          · simpa [After] using hfirst
          have rest := ih (fun op' hop' => inner op' (List.mem_cons_of_mem _ hop')) hfirst
          apply After.append
          generalize batchOps X (handle X c) mode ops s₁ ses₁ = out at rest ⊢
          obtain _ | ⟨_, _, _ | _⟩ := out <;> exact rest

section
variable
  (entered : ∀ l s ses request, P l s ses →
    (c.requiresAuth request.op && !ses.authenticated) = true ∨ request.op = .batch →
      P (l ++ [⟨s, ses, request⟩]) s ses.recordRequest)
  (executed : ∀ l s ses request s' ses' answer, P l s ses →
    (c.requiresAuth request.op && !ses.authenticated) = false →
      execute X c s ses.recordRequest request.op request.params = some (s', ses', answer) →
        P (l ++ [⟨s, ses, request⟩]) s' ses')
include entered executed

/-- The induction on calls: a property of the calls made and of the state they
leave holds after a request if it is kept by a call that only enters the request in
the session, and by one that executes an operation. -/
theorem calls_after (hP : P l s ses) (request : Request) :
    After X c P l (calls X c s ses request) (handle X c s ses request) := by
  unfold calls
  have hdepth : request.params.depth < request.params.depth + 1 := Nat.lt_succ_self _
  generalize request.params.depth + 1 = depth at hdepth
  induction depth generalizing l s ses request with
  | zero => omega
  | succ depth ih =>
    rw [callsWithin, handle_eq]
    cases hr : (c.requiresAuth request.op && !ses.authenticated) with
    | true => exact entered _ _ _ _ hP (.inl hr)
    | false =>
      simp only [Bool.false_eq_true, if_false]
      by_cases hop : request.op = .batch
      · have hP₁ := entered _ _ _ _ hP (.inr hop)
        rw [if_pos hop, if_pos hop, handleBatch]
        cases hops : (request.params.index "ops").asArray with
        | none => exact hP₁
        | some ops =>
          dsimp only
          split
          · exact hP₁
          have loop := batchCalls_keep (((request.params.index "mode").asStr).getD "best_effort")
            (fun op hop' opType htype operation l s ses hP => ih hP _
              ((depth_params_lt hops hop' htype).trans_le (Nat.le_of_lt_succ hdepth))) hP₁
          rw [← List.singleton_append]
          apply After.append
          generalize batchOps X (handle X c) _ ops s ses.recordRequest = out at loop ⊢
          obtain _ | ⟨_, _, _ | _⟩ := out <;> exact loop
      · rw [if_neg hop, if_neg hop]
        cases he : execute X c s ses.recordRequest request.op request.params with
        | none => exact ⟨[], _, rfl, by simpa using hP, hop, hr, he⟩
        | some out => exact executed _ _ _ _ _ _ _ hP hr he

/-- A request that returns keeps what its calls keep. -/
theorem calls_keep {r : Response} (hP : P l s ses)
    (h : handle X c s ses request = some (s', ses', r)) :
    P (l ++ calls X c s ses request) s' ses' := by
  have hafter := calls_after entered executed hP request
  rwa [h] at hafter

end

/-- What every call keeps, every sequence of requests keeps. -/
theorem served_keep {P : List Call → Shared → Prop} (entered : ∀ l s ses request, P l s →
      (c.requiresAuth request.op && !ses.authenticated) = true ∨ request.op = .batch →
        P (l ++ [⟨s, ses, request⟩]) s)
    (executed : ∀ l s ses request s' ses' answer, P l s →
      (c.requiresAuth request.op && !ses.authenticated) = false →
        execute X c s ses.recordRequest request.op request.params = some (s', ses', answer) →
          P (l ++ [⟨s, ses, request⟩]) s') {ps : List (Session × Request)} (hP : P l s)
    (h : run (serve X c) s ps = some s') : P (l ++ servedCalls X c s ps) s' := by
  induction ps generalizing l s with
  | nil =>
    cases h
    simpa [servedCalls] using hP
  | cons p ps ih =>
    obtain ⟨s₁, hs, hrest⟩ := run_cons.mp h
    obtain ⟨⟨_, ses₁, r⟩, hh, rfl⟩ := Option.map_eq_some_iff.mp hs
    have hP₁ := calls_keep (P := fun l s _ => P l s) entered executed hP hh
    simp only [servedCalls, hs, ← List.append_assoc]
    exact ih hP₁ hrest

/-! ## What an operation does to the engine -/

/-- The type of the entries that an operation logs. -/
def Operation.entryType : Operation → Option WalEntryType
  | .putMachine => some .putMachine
  | .createInstance => some .createInstance
  | .applyEvent => some .applyEvent
  | .deleteInstance => some .deleteInstance
  | _ => none

theorem Operation.eq_applyEvent {op : Operation} (h : op.entryType = some .applyEvent) :
    op = .applyEvent := by
  cases op <;> first | rfl | cases h

/-- What an operation can do to the engine: a call that logs an entry of its type
if any, a read of the log, or its compaction. -/
inductive EngineTouched (X : CoreExternals) (e : Engine) (op : Operation) : Engine → Prop
  | called {e' : Engine}
      (h : Engine.Logs X (fun entry => op.entryType = some entry.entryType) e e') :
      EngineTouched X e op e'
  | readLog (stats : WalStats) : EngineTouched X e op { e with wal := { e.wal with stats } }
  | compacted (before : WalOffset) (hop : op = .compact) :
      EngineTouched X e op { e with wal := (e.wal.compactBefore before).1 }

theorem EngineTouched.kept {X : CoreExternals} (e : Engine) (op : Operation) :
    EngineTouched X e op e :=
  .called .kept

/-! ## What an operation does to the shared state and to the session -/

def watchOps : List Operation := [.watchInstance, .watchAll]

/-- The channel from which a subscription is served. -/
def SessionSubscriptionType.channel : SessionSubscriptionType → ChannelId
  | .instance instanceId => .instance instanceId
  | .all => .global

/-- What a request to watch can do: nothing, or it adds a subscription under the next id
to the broadcaster and to the session, and gets a receiver for its channel. -/
inductive Watched (X : ServerExternals) (s : Shared) (ses : Session) :
    Shared → Session → Except ServerError (String × Receiver) → Prop
  | refused (e : ServerError) : Watched X s ses s ses (.error e)
  | added {b b' kind own} {receiver : Receiver} (hb : s.broadcaster = some b)
      (registry : b'.subscriptions = b.subscriptions.insert (subscriptionId X s) kind)
      (sent : b'.globalSender = b.globalSender) (channel : receiver.channel = own.channel) :
      Watched X s ses { s with broadcaster := some b', uuids := s.uuids + 1 }
        { ses with subscriptions := ses.subscriptions.insert (subscriptionId X s) own }
        (.ok (subscriptionId X s, receiver))

/-- What an operation can do: it works on the engine and draws identifiers, it sends an
event, it takes snapshots, or it changes the session. -/
inductive Executed (X : ServerExternals) (c : CommandHandler) (s : Shared) (ses : Session)
    (op : Operation) (params : Value) : Shared → Session → Prop
  | worked {engine uuids}
      (touched : EngineTouched X.toCoreExternals s.engine op engine) (drawn : s.uuids ≤ uuids) :
      Executed X c s ses op params { s with engine, uuids } ses
  | notified {engine} (hop : op = .applyEvent)
      (touched : EngineTouched X.toCoreExternals s.engine op engine) (e : InstanceEvent) :
      Executed X c s ses op params
        { s with engine, broadcaster := s.broadcaster.map (·.notify e) } ses
  | saved {s' : Shared} (hop : op = .snapshotInstance ∨ op = .compact)
      (touched : EngineTouched X.toCoreExternals s.engine op s'.engine)
      (broadcaster : s'.broadcaster = s.broadcaster) (drawn : s.uuids ≤ s'.uuids) :
      Executed X c s ses op params s' ses
  | greeted (hop : op = .hello) : Executed X c s ses op params s (handleHello X c ses params).1
  | authorized (hop : op = .auth) : Executed X c s ses op params s (handleAuth X c ses params).1
  | left (hop : op = .bye) : Executed X c s ses op params s (handleBye ses).1
  | watched {s' ses' r} (hop : op ∈ watchOps) (h : Watched X s ses s' ses' r) :
      Executed X c s ses op params s' ses'
  | unwatched {p} (hop : op = .unwatch) (hp : UnwatchParams.fromValue params = some p) :
      Executed X c s ses op params
        { s with broadcaster := s.broadcaster.map (·.unsubscribe p.subscriptionId) }
        (ses.removeSubscription p.subscriptionId).1

section
variable {s s' : Shared} {ses ses' : Session} {op : Operation} {params : Value}
  {answer : Answered}

theorem Executed.kept : Executed X c s ses op params s ses :=
  .worked (.kept _ _) le_rfl

theorem handlePutMachine_executed (h : handlePutMachine X c s params = some (s', answer)) :
    Executed X c s ses .putMachine params s' ses := by
  unfold handlePutMachine at h
  split at h
  · cases h
    exact .kept
  split at h
  · cases h
    exact .kept
  · split at h <;> cases h <;> rename_i hp <;>
      exact .worked (.called ((Engine.logs_putMachine hp).imp fun _ he => congrArg some he.symm))
        le_rfl

theorem handleCreateInstance_executed (h : handleCreateInstance X s params = some (s', answer)) :
    Executed X c s ses .createInstance params s' ses := by
  unfold handleCreateInstance at h
  split at h
  · cases h
    exact .kept
  rename_i p _
  cases hid : p.instanceId <;> simp only [hid] at h <;> split at h <;> cases h <;>
    rename_i hc <;> refine .worked (.called ((Engine.logs_createInstance hc).imp
      fun _ he => congrArg some he.1.symm)) (by simp)

theorem handleDeleteInstance_executed (h : handleDeleteInstance X s params = some (s', answer)) :
    Executed X c s ses .deleteInstance params s' ses := by
  unfold handleDeleteInstance at h
  split at h
  · cases h
    exact .kept
  · split at h <;> cases h <;> rename_i hd <;>
      exact .worked (.called ((Engine.logs_deleteInstance hd).imp
        fun _ he => congrArg some he.1.symm)) le_rfl

theorem handleApplyEvent_executed (h : handleApplyEvent X s params = some (s', answer)) :
    Executed X c s ses .applyEvent params s' ses := by
  unfold handleApplyEvent at h
  split at h
  · cases h
    exact .kept
  split at h
  · cases h
    exact .kept
  split at h <;> cases h <;> rename_i ha <;>
    have touched : EngineTouched X.toCoreExternals s.engine .applyEvent _ :=
      .called ((Engine.logs_applyEvent ha).imp fun _ he => congrArg some he.1.symm)
  · exact .worked touched le_rfl
  · split
    · exact .notified rfl touched _
    · exact .worked touched le_rfl

theorem handleWalRead_executed (h : handleWalRead X s params = some (s', answer)) :
    Executed X c s ses .walRead params s' ses := by
  unfold handleWalRead at h
  split at h
  · cases h
    exact .kept
  · dsimp only at h
    split at h <;> cases h <;> rename_i hr <;> obtain ⟨stats, rfl⟩ := Wal.readFrom_frame hr <;>
      exact .worked (.readLog stats) le_rfl

/-- A snapshot changes its directory and draws an identifier. -/
theorem Shared.takeSnapshot_eq {store store' : SnapshotStore} {i : Instance}
    {res : Except StorageError SnapshotMeta} (h : s.takeSnapshot X store i = (s', store', res)) :
    ∃ dir, s' = { s with snapshotDir := dir, uuids := s.uuids + 1 } := by
  cases h
  exact ⟨_, rfl⟩

theorem handleSnapshotInstance_keeps (s : Shared) (params : Value) :
    (handleSnapshotInstance X s params).1.engine = s.engine ∧
      (handleSnapshotInstance X s params).1.broadcaster = s.broadcaster ∧
      s.uuids ≤ (handleSnapshotInstance X s params).1.uuids := by
  unfold handleSnapshotInstance
  split
  · exact ⟨rfl, rfl, le_rfl⟩
  split
  · exact ⟨rfl, rfl, le_rfl⟩
  split
  · split <;> rename_i ht <;> obtain ⟨dir, rfl⟩ := Shared.takeSnapshot_eq ht <;>
      exact ⟨rfl, rfl, Nat.le_succ _⟩
  · exact ⟨rfl, rfl, Nat.le_succ _⟩

/-- The loop of `handle_compact` changes the snapshots' directory and draws identifiers. -/
theorem snapshotInstances_eq (X : ServerExternals) (force : Bool) (is : List Instance) (s : Shared)
    (store : SnapshotStore) (created : Nat) :
    ∃ dir n store' res, snapshotInstances X force is s store created =
      ({ s with snapshotDir := dir, uuids := s.uuids + n }, store', res) := by
  induction is generalizing s store created with
  | nil => exact ⟨_, 0, _, _, rfl⟩
  | cons i is ih =>
    unfold snapshotInstances
    split
    · split <;> rename_i ht <;> obtain ⟨dir, rfl⟩ := Shared.takeSnapshot_eq ht
      · exact ⟨dir, 1, _, _, rfl⟩
      · obtain ⟨dir', n, store', res, h⟩ :=
          ih { s with snapshotDir := dir, uuids := s.uuids + 1 } _ _
        exact ⟨dir', 1 + n, store', res, by rw [h, Nat.add_assoc]⟩
    · exact ih s store created

theorem handleCompact_executed (s : Shared) (ses : Session) (params : Value) :
    Executed X c s ses .compact params (handleCompact X s params).1 ses := by
  unfold handleCompact
  dsimp only
  split
  · exact .kept
  rename_i store _
  obtain ⟨dir, n, store₁, res, hs⟩ := snapshotInstances_eq X (forceSnapshot params)
    s.engine.getAllInstances s store 0
  rw [hs]
  have hn := Nat.le_add_right s.uuids n
  cases res with
  | error => exact .saved (.inr rfl) (.kept _ _) rfl hn
  | ok =>
    simp only [Shared.compactTo]
    cases store₁.minWalOffset with
    | none => exact .saved (.inr rfl) (.kept _ _) rfl hn
    | some o => exact .saved (.inr rfl) (.compacted ⟨o⟩ rfl) rfl hn

theorem Watched.id_eq {id : String} {receiver : Receiver}
    (h : Watched X s ses s' ses' (.ok (id, receiver))) : id = subscriptionId X s := by
  cases h
  rfl

theorem handleWatchInstance_watched {r : Except ServerError (Value × String × Receiver)}
    (h : handleWatchInstance X s ses params = (s', ses', r)) :
    Watched X s ses s' ses' (r.map Prod.snd) := by
  unfold handleWatchInstance at h
  split at h
  · cases h
    exact .refused _
  split at h
  · cases h
    exact .refused _
  · split at h <;> rename_i hb <;> cases h
    · exact .refused _
    · exact .added hb rfl rfl rfl

theorem handleWatchAll_watched {r : Except ServerError (Value × String × Receiver × EventFilter)}
    (h : handleWatchAll X s ses params = some (s', ses', r)) :
    Watched X s ses s' ses' (r.map fun out => (out.2.1, out.2.2.1)) := by
  unfold handleWatchAll at h
  split at h
  · cases h
    exact .refused _
  split at h <;> rename_i hb
  · cases h
    exact .refused _
  · obtain ⟨_, -, hout⟩ := Option.map_eq_some_iff.mp h
    cases hout
    exact .added hb rfl rfl rfl

theorem executed_of_execute (h : execute X c s ses op params = some (s', ses', answer)) :
    Executed X c s ses op params s' ses' := by
  unfold execute at h
  cases op <;> dsimp only at h
  case putMachine | createInstance | deleteInstance | applyEvent | walRead | walStats =>
    obtain ⟨_, hp, hout⟩ := Option.map_eq_some_iff.mp h
    cases hout
    first
    | exact handlePutMachine_executed hp
    | exact handleCreateInstance_executed hp
    | exact handleDeleteInstance_executed hp
    | exact handleApplyEvent_executed hp
    | exact handleWalRead_executed hp
    | exact .kept
  case hello =>
    cases h
    exact .greeted rfl
  case auth =>
    cases h
    exact .authorized rfl
  case bye =>
    cases h
    exact .left rfl
  case snapshotInstance =>
    cases h
    obtain ⟨he, hb, hu⟩ := handleSnapshotInstance_keeps (X := X) s params
    exact .saved (.inl rfl) (he ▸ .kept _ _) hb hu
  case compact =>
    cases h
    exact handleCompact_executed s ses params
  case watchInstance =>
    cases h
    exact .watched (by decide) (handleWatchInstance_watched rfl)
  case watchAll =>
    obtain ⟨⟨_, _, _⟩, hp, hout⟩ := Option.map_eq_some_iff.mp h
    cases hout
    exact .watched (by decide) (handleWatchAll_watched hp)
  case unwatch =>
    unfold handleUnwatch at h
    split at h <;> rename_i hp <;> cases h
    · exact .kept
    · exact .unwatched rfl hp
  case batch => cases h
  all_goals
    cases h
    exact .kept

theorem execute_engine (h : execute X c s ses op params = some (s', ses', answer)) :
    EngineTouched X.toCoreExternals s.engine op s'.engine := by
  cases executed_of_execute h with
  | worked touched | notified _ touched | saved _ touched => exact touched
  | watched _ h => cases h <;> exact .kept _ _
  | greeted | authorized | left | unwatched => exact .kept _ _

/-- Everything that has been sent on the global channel, if there is a broadcaster. -/
def Shared.sentToAll (s : Shared) : Option (List InstanceEvent) :=
  s.broadcaster.map EventBroadcaster.globalSender

/-- What an operation leaves as it is: snapshots change only when one is asked for
or with a compaction, and only an event is sent to all. -/
theorem execute_frame (h : execute X c s ses op params = some (s', ses', answer)) :
    (op ≠ .snapshotInstance → op ≠ .compact →
        s'.snapshotStore = s.snapshotStore ∧ s'.snapshotDir = s.snapshotDir) ∧
      (op ≠ .applyEvent → s'.sentToAll = s.sentToAll) := by
  cases executed_of_execute h with
  | notified hop => exact ⟨fun _ _ => ⟨rfl, rfl⟩, fun hne => absurd hop hne⟩
  | saved hop _ broadcaster =>
    refine ⟨fun hs hc => absurd hop (by simp [hs, hc]), fun _ => ?_⟩
    rw [Shared.sentToAll, Shared.sentToAll, broadcaster]
  | watched _ h =>
    cases h with
    | refused => exact ⟨fun _ _ => ⟨rfl, rfl⟩, fun _ => rfl⟩
    | added hb _ sent =>
      refine ⟨fun _ _ => ⟨rfl, rfl⟩, fun _ => ?_⟩
      rw [Shared.sentToAll, Shared.sentToAll, hb]
      exact congrArg some sent
  | unwatched =>
    refine ⟨fun _ _ => ⟨rfl, rfl⟩, fun _ => ?_⟩
    rw [Shared.sentToAll, Shared.sentToAll]
    cases s.broadcaster <;> rfl
  | worked | greeted | authorized | left => exact ⟨fun _ _ => ⟨rfl, rfl⟩, fun _ => rfl⟩

end

end

end Rstmdb
