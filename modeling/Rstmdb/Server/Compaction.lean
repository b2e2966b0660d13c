import Rstmdb.Core.Recovery
import Rstmdb.Server.Calls
import Rstmdb.Server.Startup

/-! The compaction manager, and the server as one system: requests of any session,
automatic compactions and restarts. Whatever has run, a start on the directories
that are left succeeds. -/
namespace Rstmdb
open Json (Value)

structure CompactionResult where
  snapshotsCreated : Nat
  segmentsDeleted : Nat
  deriving DecidableEq, Repr

/-- The loop of `run_compaction`, which goes on when a snapshot fails. -/
def snapshotChanged (X : ServerExternals) :
    List Instance → Shared → SnapshotStore → Nat → Shared × SnapshotStore × Nat
  | [], s, store, created => (s, store, created)
  | i :: is, s, store, created =>
    if changedSinceSnapshot store i then
      match s.takeSnapshot X store i with
      | (s, store, .ok _) => snapshotChanged X is s store (created + 1)
      | (s, store, .error _) => snapshotChanged X is s store created
    else snapshotChanged X is s store created

def runCompaction (X : ServerExternals) (s : Shared) (store : SnapshotStore) :
    Shared × SnapshotStore × CompactionResult :=
  let (s, store, created) := snapshotChanged X s.engine.getAllInstances s store 0
  let (s, deleted) := s.compactTo store.minWalOffset
  (s, store, ⟨created, deleted⟩)

/-- A request of some session, a run of the compaction manager, or a restart. -/
inductive ServerOp
  | request (session : Session) (request : Request)
  | compact
  | restart (config : ServerConfig)

namespace Server

def step (X : ServerExternals) (server : Server) : ServerOp → Option Server
  | .request session request =>
    (serve X server.handler server.shared (session, request)).map fun shared =>
      { server with shared }
  | .compact =>
    let (shared, compaction, _) := runCompaction X server.shared server.compaction
    some { server with shared, compaction }
  | .restart config =>
    match start X config server.shared.engine.wal.dir server.shared.snapshotDir
        server.shared.uuids with
    | some (.ok server) => some server
    | _ => none

end Server

/-! ## The floor of a compaction -/

/-- A compaction by these offsets keeps the segment: one of them lies in it or
before it, or there are none. -/
def segmentKept (floor : List Nat) (id : SegmentId) : Bool :=
  floor.isEmpty || floor.any fun o => (⟨o⟩ : WalOffset).segmentId ≤ id

theorem segmentId_mono {o o' : Nat} (h : o ≤ o') :
    (⟨o⟩ : WalOffset).segmentId ≤ (⟨o'⟩ : WalOffset).segmentId := by
  simp only [WalOffset.segmentId, Nat.shiftRight_eq_div_pow]
  exact Nat.div_le_div_right h

/-- The smallest offset decides. -/
theorem segmentKept_least {floor : List Nat} {o : Nat} (ho : o ∈ floor)
    (least : ∀ o' ∈ floor, o ≤ o') (id : SegmentId) :
    segmentKept floor id = decide ((⟨o⟩ : WalOffset).segmentId ≤ id) := by
  have hne : floor.isEmpty = false := by
    cases floor with
    | nil => cases ho
    | cons => rfl
  rw [segmentKept, hne, Bool.false_or, Bool.eq_iff_iff, List.any_eq_true]
  simp only [decide_eq_true_eq]
  constructor
  · rintro ⟨o', ho', hle⟩
    exact le_trans (segmentId_mono (least o' ho')) hle
  · exact fun hle => ⟨o, ho, hle⟩

/-- The offsets that `handle_compact` goes by: those in the index after all of its
snapshots, and none when one of them fails. -/
def commandFloor (X : ServerExternals) (s : Shared) (params : Value) : List Nat :=
  match s.snapshotStore with
  | none => []
  | some store =>
    match snapshotInstances X (forceSnapshot params) s.engine.getAllInstances s store 0 with
    | (_, _, .error _) => []
    | (_, store, .ok _) => store.offsets

/-! ## Offsets in snapshots -/

/-- The offsets in the index lie in segments up to this one. -/
def SnapshotStore.Within (store : SnapshotStore) (last : SegmentId) : Prop :=
  ∀ o ∈ store.offsets, (⟨o⟩ : WalOffset).segmentId ≤ last

/-- The index on disk can be read, and its offsets lie in segments up to this one. -/
def SnapshotDir.Within (X : StorageExternals) (dir : SnapshotDir) (last : SegmentId) : Prop :=
  ∀ data ∈ dir.index, ∃ index, X.indexFromReader data = some index ∧
    (⟨index⟩ : SnapshotStore).Within last

section
variable {last last' : SegmentId}

theorem SnapshotStore.within_empty (last : SegmentId) : (⟨∅⟩ : SnapshotStore).Within last := by
  intro o ho
  obtain ⟨id, entry, he, -⟩ := SnapshotStore.mem_offsets.mp ho
  simp at he

variable {store : SnapshotStore}

theorem SnapshotStore.Within.mono (h : store.Within last) (hle : last ≤ last') :
    store.Within last' :=
  fun o ho => le_trans (h o ho) hle

theorem SnapshotStore.Within.insert (h : store.Within last) (id : String) {entry : SnapshotMeta}
    (he : (⟨entry.walOffset⟩ : WalOffset).segmentId ≤ last) :
    (⟨store.index.insert id entry⟩ : SnapshotStore).Within last := by
  intro o ho
  obtain ⟨id', entry', hget, rfl⟩ := SnapshotStore.mem_offsets.mp ho
  obtain ⟨-, rfl⟩ | ⟨-, hget⟩ := Table.found_insert hget
  · exact he
  · exact h _ (SnapshotStore.mem_offsets.mpr ⟨id', entry', hget, rfl⟩)

variable {X : StorageExternals} {dir dir' : SnapshotDir}

theorem SnapshotDir.Within.mono (h : dir.Within X last) (hle : last ≤ last') :
    dir.Within X last' := by
  intro data hdata
  obtain ⟨index, hread, hindex⟩ := h data hdata
  exact ⟨index, hread, hindex.mono hle⟩

theorem SnapshotDir.Within.readable (h : dir.Within X last) : dir.Readable X := by
  intro data hdata
  obtain ⟨index, hread, -⟩ := h data hdata
  exact ⟨index, hread⟩

theorem SnapshotDir.Within.openDir (h : dir.Within X last)
    (ho : SnapshotStore.openDir X dir = .ok store) : store.Within last := by
  unfold SnapshotStore.openDir at ho
  split at ho
  · cases ho
    exact SnapshotStore.within_empty last
  rename_i data hdata
  obtain ⟨index, hread, hindex⟩ := h data hdata
  rw [hread] at ho
  cases ho
  exact hindex

theorem SnapshotStore.createSnapshot_within {store' : SnapshotStore} {snapshot : InstanceSnapshot}
    {res : Except StorageError SnapshotMeta}
    (h : store.createSnapshot X dir snapshot = (store', dir', res)) (hstore : store.Within last)
    (hdir : dir.Within X last) (ho : (⟨snapshot.walOffset⟩ : WalOffset).segmentId ≤ last) :
    store'.Within last ∧ dir'.Within X last := by
  simp only [createSnapshot] at h
  split at h
  · cases h
    exact ⟨hstore, hdir⟩
  split at h
  · cases h
    exact ⟨hstore.insert _ ho, hdir⟩
  cases h
  refine ⟨hstore.insert _ ho, ?_⟩
  rintro _ ⟨⟩
  exact ⟨_, X.indexFromReader_toVec _, hstore.insert _ ho⟩

end

/-! ## The shared state over all runs -/

/-- The engine is sound, and every offset that a compaction may go by lies in the
log. The manager's store is not part of the shared state. -/
structure Shared.Sound (X : ServerExternals) (s : Shared) (compaction : SnapshotStore)
    (pre : List (Chunk X.toExternals)) (c : Chunk X.toExternals) : Prop where
  engine : s.engine.Sound (X := X.toCoreExternals) pre c
  store : ∀ store ∈ s.snapshotStore, store.Within c.id
  dir : s.snapshotDir.Within X.toStorageExternals c.id
  manager : compaction.Within c.id

section
variable {X : ServerExternals} {c : CommandHandler} {s s' : Shared}
  {store store' compaction : SnapshotStore} {i : Instance} {last : SegmentId}

theorem takeSnapshot_within {res : Except StorageError SnapshotMeta}
    (h : s.takeSnapshot X store i = (s', store', res)) (hstore : store.Within last)
    (hdir : s.snapshotDir.Within X.toStorageExternals last)
    (hi : (⟨i.lastWalOffset⟩ : WalOffset).segmentId ≤ last) :
    store'.Within last ∧ s'.snapshotDir.Within X.toStorageExternals last := by
  unfold Shared.takeSnapshot at h
  simp only at h
  obtain ⟨rfl, rfl, -⟩ : _ = s' ∧ _ = store' ∧ _ = res := by simpa using h
  exact @SnapshotStore.createSnapshot_within _ _ _ _ _ _ (.fromInstance i _) _ rfl hstore hdir hi

section
variable {is : List Instance} (hstore : store.Within last)
  (hdir : s.snapshotDir.Within X.toStorageExternals last)
  (his : ∀ i ∈ is, (⟨i.lastWalOffset⟩ : WalOffset).segmentId ≤ last)
include hstore hdir his

theorem snapshotInstances_within {force : Bool} {created : Nat} {res : Except StorageError Nat}
    (h : snapshotInstances X force is s store created = (s', store', res)) :
    store'.Within last ∧ s'.snapshotDir.Within X.toStorageExternals last := by
  induction is generalizing s store created with
  | nil =>
    cases h
    exact ⟨hstore, hdir⟩
  | cons i is ih =>
    have hrest := fun j hj => his j (List.mem_cons_of_mem _ hj)
    unfold snapshotInstances at h
    split at h
    · split at h
      · rename_i ht
        cases h
        exact takeSnapshot_within ht hstore hdir (his i List.mem_cons_self)
      · rename_i ht
        obtain ⟨h₁, h₂⟩ := takeSnapshot_within ht hstore hdir (his i List.mem_cons_self)
        exact ih h₁ h₂ hrest h
    · exact ih hstore hdir hrest h

theorem snapshotChanged_within {created created' : Nat}
    (h : snapshotChanged X is s store created = (s', store', created')) :
    store'.Within last ∧ s'.snapshotDir.Within X.toStorageExternals last := by
  induction is generalizing s store created with
  | nil =>
    cases h
    exact ⟨hstore, hdir⟩
  | cons i is ih =>
    have hrest := fun j hj => his j (List.mem_cons_of_mem _ hj)
    unfold snapshotChanged at h
    split at h
    · split at h <;> rename_i ht <;>
      · obtain ⟨h₁, h₂⟩ := takeSnapshot_within ht hstore hdir (his i List.mem_cons_self)
        exact ih h₁ h₂ hrest h
    · exact ih hstore hdir hrest h

end

/-- The loop changes the snapshots' directory and draws identifiers. -/
theorem snapshotChanged_eq (X : ServerExternals) (is : List Instance) (s : Shared)
    (store : SnapshotStore) (created : Nat) :
    ∃ dir n store' created', snapshotChanged X is s store created =
      ({ s with snapshotDir := dir, uuids := s.uuids + n }, store', created') := by
  induction is generalizing s store created with
  | nil => exact ⟨_, 0, _, _, rfl⟩
  | cons i is ih =>
    unfold snapshotChanged
    split
    · split <;> rename_i ht <;> obtain ⟨dir, rfl⟩ := Shared.takeSnapshot_eq ht <;>
      · obtain ⟨dir', n, store', created', h⟩ :=
          ih { s with snapshotDir := dir, uuids := s.uuids + 1 } _ _
        exact ⟨dir', 1 + n, store', created', by rw [h, Nat.add_assoc]⟩
    · exact ih s store created

theorem runCompaction_eq (X : ServerExternals) (s : Shared) (store : SnapshotStore) :
    ∃ dir n before, (runCompaction X s store).1 =
      (({ s with snapshotDir := dir, uuids := s.uuids + n } : Shared).compactTo before).1 := by
  obtain ⟨dir, n, store', created, hs⟩ := snapshotChanged_eq X s.engine.getAllInstances s store 0
  exact ⟨dir, n, store'.minWalOffset, by rw [runCompaction, hs]⟩

theorem runCompaction_memory (X : ServerExternals) (s : Shared) (store : SnapshotStore) :
    (runCompaction X s store).1.engine.toMemory = s.engine.toMemory := by
  obtain ⟨dir, n, before, h⟩ := runCompaction_eq X s store
  rw [h]
  cases before <;> rfl

theorem mem_getAllInstances {e : Engine} (h : i ∈ e.getAllInstances) :
    ∃ id : String, e.instances[id]? = some i ∧ i.isDeleted = false := by
  obtain ⟨hv, hd⟩ := List.mem_filter.mp h
  obtain ⟨id, hid⟩ := Table.mem_values.mp hv
  exact ⟨id, hid, by simpa using hd⟩

namespace Shared.Sound

variable {pre : List (Chunk X.toExternals)} {ch : Chunk X.toExternals}

section
variable (h : s.Sound X compaction pre ch)
include h

theorem instances :
    ∀ i ∈ s.engine.getAllInstances, (⟨i.lastWalOffset⟩ : WalOffset).segmentId ≤ ch.id := by
  intro i hi
  obtain ⟨id, hid, -⟩ := mem_getAllInstances hi
  exact h.engine.within id i hid

theorem compactTo (hstore : store.Within ch.id) :
    (s.compactTo store.minWalOffset).1.Sound X compaction
      (pre.filter (segmentKept store.offsets ·.id)) ch := by
  unfold Shared.compactTo
  cases hmin : store.minWalOffset with
  | none =>
    have hnone : store.offsets = [] := List.min?_eq_none_iff.mp hmin
    simpa [segmentKept, hnone] using h
  | some o =>
    obtain ⟨hmem, hleast⟩ := List.min?_eq_some_iff.mp hmin
    have hkept : ∀ id : SegmentId, segmentKept store.offsets id =
        decide ((⟨o⟩ : WalOffset).segmentId ≤ id) := segmentKept_least hmem hleast
    simp only [hkept]
    exact ⟨h.engine.compact (hstore o hmem), h.store, h.dir, h.manager⟩

theorem snapshotInstance (params : Value) :
    (handleSnapshotInstance X s params).1.Sound X compaction pre ch := by
  unfold handleSnapshotInstance
  split
  · exact h
  split
  · exact h
  rename_i i hi
  split
  · rename_i store hstore
    split <;> rename_i ht <;>
    · obtain ⟨h₁, h₂⟩ := takeSnapshot_within ht (h.store store hstore) h.dir
        (h.engine.within _ i (Engine.getInstance_ok hi))
      obtain ⟨dir, rfl⟩ := Shared.takeSnapshot_eq ht
      refine ⟨h.engine, ?_, h₂, h.manager⟩
      rintro _ ⟨⟩
      exact h₁
  · exact ⟨h.engine, h.store, h.dir, h.manager⟩

theorem compactCommand (params : Value) :
    (handleCompact X s params).1.Sound X compaction
      (pre.filter (segmentKept (commandFloor X s params) ·.id)) ch := by
  cases hstore : s.snapshotStore with
  | none => simpa [handleCompact, commandFloor, hstore, segmentKept] using h
  | some store =>
    obtain ⟨dir, n, store₁, res, hs⟩ := snapshotInstances_eq X (forceSnapshot params)
      s.engine.getAllInstances s store 0
    obtain ⟨h₁, h₂⟩ := snapshotInstances_within (h.store store hstore) h.dir h.instances hs
    have hsound : Shared.Sound X { s with
        snapshotDir := dir, uuids := s.uuids + n, snapshotStore := some store₁ }
        compaction pre ch := by
      refine ⟨h.engine, ?_, h₂, h.manager⟩
      rintro _ ⟨⟩
      exact h₁
    cases res with
    | error => simpa [handleCompact, commandFloor, hstore, hs, segmentKept] using hsound
    | ok => simpa only [handleCompact, commandFloor, hstore, hs] using hsound.compactTo h₁

theorem runCompaction :
    (runCompaction X s compaction).1.Sound X (runCompaction X s compaction).2.1
      (pre.filter (segmentKept (runCompaction X s compaction).2.1.offsets ·.id)) ch := by
  unfold Rstmdb.runCompaction
  obtain ⟨dir, n, store₁, created, hs⟩ :=
    snapshotChanged_eq X s.engine.getAllInstances s compaction 0
  obtain ⟨h₁, h₂⟩ := snapshotChanged_within h.manager h.dir h.instances hs
  rw [hs]
  have hsound : Shared.Sound X { s with snapshotDir := dir, uuids := s.uuids + n } store₁ pre ch :=
    ⟨h.engine, h.store, h₂, h₁⟩
  exact hsound.compactTo h₁

theorem touched {op : Operation}
    (ht : EngineTouched X.toCoreExternals s.engine op s'.engine) (hop : op ≠ .compact)
    (hstore : s'.snapshotStore = s.snapshotStore) (hdir : s'.snapshotDir = s.snapshotDir) :
    ∃ pre' ch', s'.Sound X compaction pre' ch' ∧
      LogGrown X.toCoreExternals s.engine.toMemory s'.engine.toMemory (entries (pre ++ [ch]))
        (entries (pre' ++ [ch'])) := by
  have moved {pre' : List (Chunk X.toExternals)} {ch' : Chunk X.toExternals}
      (he : s'.engine.Sound (X := X.toCoreExternals) pre' ch') (hle : ch.id ≤ ch'.id) :
      s'.Sound X compaction pre' ch' :=
    ⟨he, hstore ▸ fun store hs => (h.store store hs).mono hle, hdir ▸ h.dir.mono hle,
      h.manager.mono hle⟩
  generalize he : s'.engine = e' at ht
  cases ht with
  | called hl =>
    obtain ⟨pre', ch', hs, hle, hg⟩ := h.engine.logs hl
    exact ⟨pre', ch', moved (he ▸ hs) hle, hg⟩
  | readLog stats =>
    exact ⟨pre, ch, moved (he ▸ h.engine.readLog stats) (le_refl _), .inl ⟨rfl, rfl⟩⟩
  | compacted _ hc => exact absurd hc hop

theorem execute {ses ses' : Session} {op : Operation} {params : Value} {answer : Answered}
    (he : Rstmdb.execute X c s ses op params = some (s', ses', answer)) :
    ∃ pre' ch', s'.Sound X compaction pre' ch' ∧
      (op ≠ .compact → LogGrown X.toCoreExternals s.engine.toMemory s'.engine.toMemory
        (entries (pre ++ [ch])) (entries (pre' ++ [ch']))) := by
  by_cases hsnap : op = .snapshotInstance
  · subst hsnap
    cases he
    refine ⟨pre, ch, h.snapshotInstance params, fun _ => .inl ⟨rfl, ?_⟩⟩
    exact congrArg Engine.toMemory (handleSnapshotInstance_keeps s params).1
  · by_cases hcompact : op = .compact
    · subst hcompact
      cases he
      exact ⟨_, ch, h.compactCommand params, fun hne => absurd rfl hne⟩
    · obtain ⟨hstore, hdir⟩ := (execute_frame he).1 hsnap hcompact
      obtain ⟨pre', ch', hs, hg⟩ := h.touched (execute_engine he) hcompact hstore hdir
      exact ⟨pre', ch', hs, fun _ => hg⟩

theorem serve {p : Session × Request}
    (hs : serve X c s p = some s') : ∃ pre' ch', s'.Sound X compaction pre' ch' := by
  obtain ⟨⟨_, ses', r⟩, hh, rfl⟩ := Option.map_eq_some_iff.mp hs
  exact calls_keep (P := fun _ s _ => ∃ pre ch, s.Sound X compaction pre ch) (l := [])
    (fun _ _ _ _ hP _ => hP)
    (fun _ _ _ _ _ _ _ ⟨_, _, hP⟩ _ he =>
      let ⟨pre', ch', hs, _⟩ := hP.execute he
      ⟨pre', ch', hs⟩)
    ⟨pre, ch, h⟩ hh

end

end Shared.Sound

end

namespace Server

variable {X : ServerExternals} {server server' : Server}

/-- The server is sound over some contents of its log. -/
def Sound (X : ServerExternals) (server : Server) : Prop :=
  ∃ pre ch, server.shared.Sound X server.compaction pre ch

theorem shared_sound_fresh (X : ServerExternals) (config : ServerConfig) :
    (fresh config).shared.Sound X (fresh config).compaction [] (Chunk.empty X.toExternals 1) := by
  refine ⟨Engine.sound_fresh X.toCoreExternals config.wal, ?_, ?_, SnapshotStore.within_empty _⟩
  · rintro _ ⟨⟩
    exact SnapshotStore.within_empty _
  · rintro _ ⟨⟩

theorem sound_fresh (X : ServerExternals) (config : ServerConfig) : (fresh config).Sound X :=
  ⟨[], _, shared_sound_fresh X config⟩

variable {config : ServerConfig} {dir : Dir} {snapshotDir : SnapshotDir} {n : Nat}
  {ops : List ServerOp}

/-- A start on the directories of a sound server, with a configuration that has
tokens if it needs them, succeeds. The engine replays what the log holds. -/
theorem Sound.start {pre : List (Chunk X.toExternals)} {ch : Chunk X.toExternals}
    (h : server.shared.Sound X server.compaction pre ch)
    (tokens : (config.auth.required && config.auth.tokenHashes.isEmpty) = false) :
    ∃ server', start X config server.shared.engine.wal.dir server.shared.snapshotDir
        server.shared.uuids = some (.ok server') ∧
      server'.shared.Sound X server'.compaction pre ch ∧
      replayEntries X.toCoreExternals .empty (entries (pre ++ [ch])) =
        some server'.shared.engine.toMemory := by
  obtain ⟨e, hnew, hsound, hreplay, -, -⟩ := h.engine.restart config.wal
  obtain ⟨store, hstore⟩ := h.dir.readable.openDir
  refine ⟨⟨.withAuth config.auth config.maxMachineVersions,
    ⟨e, some store, server.shared.snapshotDir, some (.new defaultBroadcastCapacity),
      server.shared.uuids⟩, store⟩, ?_, ⟨hsound, ?_, h.dir, h.dir.openDir hstore⟩, hreplay⟩
  · simp only [Server.start, tokens, Bool.false_eq_true, if_false, hnew, hstore]
  · rintro _ ⟨⟩
    exact h.dir.openDir hstore

theorem start_parts (h : start X config dir snapshotDir n = some (.ok server)) :
    Engine.new X.toCoreExternals config.wal dir = some (.ok server.shared.engine) ∧
      server.handler = .withAuth config.auth config.maxMachineVersions := by
  unfold start at h
  split at h
  · cases h
  split at h
  · cases h
  · cases h
  rename_i engine hnew
  split at h
  · cases h
  split at h
  · cases h
  · cases h
    exact ⟨hnew, rfl⟩

theorem start_tokens (h : start X config dir snapshotDir n = some (.ok server)) :
    (config.auth.required && config.auth.tokenHashes.isEmpty) = false := by
  unfold start at h
  split at h
  · cases h
  · rename_i ht
    exact Bool.eq_false_iff.mpr ht

theorem eq_fresh_of_start (h : start X config ∅ .empty 0 = some (.ok server)) :
    server = .fresh config := by
  rw [start_empty (start_tokens h)] at h
  cases h
  rfl

theorem sound_step {op : ServerOp} (h : server.Sound X) (hs : server.step X op = some server') :
    server'.Sound X := by
  obtain ⟨pre, ch, h⟩ := h
  cases op with
  | request session request =>
    obtain ⟨shared, hserve, rfl⟩ := Option.map_eq_some_iff.mp hs
    exact h.serve hserve
  | compact =>
    cases hs
    exact ⟨_, ch, h.runCompaction⟩
  | restart config =>
    simp only [step] at hs
    split at hs
    · rename_i server₁ hstart
      cases hs
      obtain ⟨_, hstart', hsound, -⟩ := Sound.start h (start_tokens hstart)
      rw [hstart] at hstart'
      cases hstart'
      exact ⟨pre, ch, hsound⟩
    · cases hs

theorem sound_run (h : server.Sound X) (hrun : run (step X) server ops = some server') :
    server'.Sound X :=
  run_keeps (P := Sound X) (fun _ _ _ => sound_step) h hrun

theorem sound_of_start (hstart : start X config ∅ .empty 0 = some (.ok server))
    (hrun : run (step X) server ops = some server') : server'.Sound X := by
  obtain rfl := eq_fresh_of_start hstart
  exact sound_run (sound_fresh X config) hrun

end Server

end Rstmdb
