import Rstmdb.Server.CallStates
import Rstmdb.Server.Loss

/-! What holds the log back after a COMPACT that takes snapshots. The command deletes
segments up to the smallest offset in the index, and nothing takes the snapshot of a
deleted instance out of the index. -/
namespace Rstmdb
open Json (Value)

/-- The instance exists and is not deleted. -/
def Shared.live (s : Shared) (id : String) : Prop := ∃ i ∈ s.engine.getAllInstances, i.id = id

/-- The index has a snapshot of the instance that was taken at the offset. -/
def Shared.indexed (s : Shared) (id : String) (o : Nat) : Prop :=
  ∃ store ∈ s.snapshotStore, (store.index[id]?).map SnapshotMeta.walOffset = some o

/-- The smallest `last_wal_offset` of the instances that are not deleted, if there is one. -/
def Shared.IsLeast (s : Shared) (o : Nat) : Prop :=
  (∃ i ∈ s.engine.getAllInstances, i.lastWalOffset = o) ∧
    ∀ i ∈ s.engine.getAllInstances, o ≤ i.lastWalOffset

/-- No segment lies before the one of the smallest offset that is needed. -/
def Shared.trimmed (s : Shared) : Prop :=
  ∀ least, s.IsLeast least →
    ∀ id ∈ s.engine.wal.segmentIds, (⟨least⟩ : WalOffset).segmentId ≤ id

/-- No segment lies between a snapshot of an instance that is not there any more and the
smallest offset that is needed. -/
def Shared.unpinned (s : Shared) : Prop :=
  ∀ least, s.IsLeast least → ∀ gone o, ¬ s.live gone → s.indexed gone o →
    ∀ id ∈ s.engine.wal.segmentIds, (⟨o⟩ : WalOffset).segmentId ≤ id →
      (⟨least⟩ : WalOffset).segmentId ≤ id

/-- One of the events was a deletion of the instance that was answered with ok, and it is
not there now. -/
def deletedBy (X : ServerExternals) (l : List ServerEvent) (s : Shared) (id : String) : Prop :=
  (∃ c k, .called c k ∈ l ∧ k.deletes X c id = true) ∧ ¬ s.live id

/-! ## The index after the command -/

section
variable {X : ServerExternals} {s s' : Shared} {store store' : SnapshotStore}

variable {params v : Value} {is : List Instance} {compaction : SnapshotStore}
  {pre : List (Chunk X.toExternals)} {ch : Chunk X.toExternals}

/-- A command that is answered with ok has entered all that needed a snapshot. -/
theorem handleCompact_ok (hnamed : s.engine.toMemory.Named)
    (h : handleCompact X s params = (s', .ok v)) :
    ∃ store store', s.snapshotStore = some store ∧ s'.snapshotStore = some store' ∧
      commandFloor X s params = store'.offsets ∧ s'.engine.toMemory = s.engine.toMemory ∧
      Entered store (s.engine.getAllInstances.filter
        (needsSnapshot (forceSnapshot params) store)) store' := by
  unfold handleCompact at h
  simp only at h
  cases hstore : s.snapshotStore with
  | none => simp [hstore] at h
  | some store =>
    obtain ⟨dir, n, store₁, res, hs⟩ := snapshotInstances_eq X (forceSnapshot params)
      s.engine.getAllInstances s store 0
    have hloop := snapshotInstances_entered hs (nodup_getAllInstances hnamed)
    cases res with
    | error e => simp [hstore, hs] at h
    | ok created =>
      split at hloop
      · rename_i hall
        simp only [hstore, hs] at h
        cases h
        have hentered : enteredSnapshots X (plannedSnapshots
              (needsSnapshot (forceSnapshot params) store) s.engine.getAllInstances s.uuids) =
            s.engine.getAllInstances.filter (needsSnapshot (forceSnapshot params) store) := by
          rw [enteredSnapshots, List.filter_eq_self.mpr, plannedSnapshots_fst]
          intro p hp
          have := List.all_eq_true.mp hall p hp
          simp_all
        refine ⟨store, store₁, rfl, ?_, ?_, ?_, hentered ▸ hloop.2⟩
        · cases store₁.minWalOffset <;> rfl
        · simp only [commandFloor, hstore, hs]
        · cases store₁.minWalOffset <;> rfl
      · obtain ⟨e, he⟩ := hloop
        cases he

theorem Entered.not_older (distinct : (is.map Instance.id).Nodup)
    (h : Entered store (is.filter (needsSnapshot true store)) store') {i : Instance} (hi : i ∈ is) :
    ∃ o, (store'.index[i.id]?).map SnapshotMeta.walOffset = some o ∧ i.lastWalOffset ≤ o := by
  rw [h i.id]
  cases hfind : (is.filter (needsSnapshot true store)).find? (·.id = i.id) with
  | some j =>
    have hj : j ∈ is := List.mem_of_mem_filter (List.mem_of_find?_eq_some hfind)
    have hid : j.id = i.id := by simpa using List.find?_some hfind
    obtain rfl := List.inj_on_of_nodup_map distinct hj hi hid
    exact ⟨j.lastWalOffset, rfl, Nat.le_refl _⟩
  | none =>
    have hneeds : needsSnapshot true store i = false := by
      by_contra hneeds
      have := List.find?_eq_none.mp hfind i
        (List.mem_filter.mpr ⟨hi, Bool.eq_true_of_not_eq_false hneeds⟩)
      simp at this
    simp only [needsSnapshot, if_true, changedSinceSnapshot, SnapshotStore.getSnapshotMeta]
      at hneeds
    cases hentry : store.index[i.id]? with
    | none => simp [hentry] at hneeds
    | some entry => exact ⟨entry.walOffset, rfl, by simpa [hentry] using hneeds⟩

theorem Entered.gone {p : Instance → Bool} (h : Entered store (is.filter p) store') {id : String}
    (hgone : ∀ i ∈ is, i.id ≠ id) :
    (store'.index[id]?).map SnapshotMeta.walOffset =
      (store.index[id]?).map SnapshotMeta.walOffset := by
  have hnone : (is.filter p).find? (·.id = id) = none := by
    rw [List.find?_eq_none]
    intro i hi
    simpa using hgone i (List.mem_of_mem_filter hi)
  rw [h id, hnone]

theorem mem_offsets_iff {o : Nat} :
    o ∈ store.offsets ↔
      ∃ id : String, (store.index[id]?).map SnapshotMeta.walOffset = some o := by
  simp [SnapshotStore.mem_offsets, Option.map_eq_some_iff]

theorem mem_segmentIds_handleCompact (hsound : s.Sound X compaction pre ch)
    (hnamed : s.engine.toMemory.Named) (h : handleCompact X s params = (s', .ok v))
    (id : SegmentId) : id ∈ s'.engine.wal.segmentIds ↔
      id ∈ s.engine.wal.segmentIds ∧ segmentKept (commandFloor X s params) id = true := by
  have hsound' := hsound.compactCommand params
  obtain ⟨store, store', -, hstore', hfloor, -, -⟩ := handleCompact_ok hnamed h
  rw [h] at hsound'
  have hlast : segmentKept (commandFloor X s params) ch.id = true := by
    rw [hfloor, segmentKept]
    cases hoffsets : store'.offsets with
    | nil => rfl
    | cons o os =>
      have := hsound'.store store' hstore' o (hoffsets ▸ List.mem_cons_self)
      simp [this]
  rw [Wal.segmentIds, Wal.segmentIds, hsound'.engine.repr.keys, hsound.engine.repr.keys]
  simp only [List.map_append, List.map_cons, List.map_nil, List.mem_append, List.mem_map,
    List.mem_filter, List.mem_singleton]
  constructor
  · rintro (⟨d, ⟨hd, hkept⟩, rfl⟩ | rfl)
    · exact ⟨.inl ⟨d, hd, rfl⟩, hkept⟩
    · exact ⟨.inr rfl, hlast⟩
  · rintro ⟨⟨d, hd, rfl⟩ | rfl, hkept⟩
    · exact .inl ⟨d, ⟨hd, hkept⟩, rfl⟩
    · exact .inr rfl

theorem getAllInstances_of_memory {e e' : Engine} (h : e'.toMemory = e.toMemory) :
    e'.getAllInstances = e.getAllInstances := by
  have : e'.toMemory.instances = e.toMemory.instances := congrArg Memory.instances h
  exact congrArg (fun t : Table String Instance => t.values.filter fun i => !i.isDeleted) this

/-- What a forced compaction leaves, in terms of what it finds. -/
theorem handleCompact_trims_iff (hsound : s.Sound X compaction pre ch)
    (hnamed : s.engine.toMemory.Named) (force : (params.index "force_snapshot").asBool = some true)
    (h : handleCompact X s params = (s', .ok v)) :
    (s'.trimmed ↔ s.unpinned) ∧ (∀ id, s'.live id ↔ s.live id) ∧
      ∀ id o, ¬ s.live id → (s'.indexed id o ↔ s.indexed id o) := by
  obtain ⟨store, store', hstore, hstore', hfloor, hmemory, hentered⟩ := handleCompact_ok hnamed h
  have hinstances := getAllInstances_of_memory hmemory
  have hsegments := mem_segmentIds_handleCompact hsound hnamed h
  rw [forceSnapshot, force, Option.getD_some] at hentered
  have hgone {id : String} {o : Nat} (hid : ¬ s.live id) : s'.indexed id o ↔ s.indexed id o := by
    have := hentered.gone fun i hi he => hid ⟨i, hi, he⟩
    simp only [Shared.indexed, hstore, hstore', Option.mem_some_iff, exists_eq_left', this]
  have hleast (o : Nat) : s'.IsLeast o ↔ s.IsLeast o := by
    simp only [Shared.IsLeast, hinstances]
  refine ⟨⟨fun htrim => ?_, fun hunpinned => ?_⟩, fun id => ?_, fun id o hid => hgone hid⟩
  · intro least hl gone o hnot hindexed id hid hle
    refine htrim least ((hleast least).mpr hl) id ((hsegments id).mpr ⟨hid, ?_⟩)
    obtain ⟨st, hst, ho⟩ := (hgone hnot).mpr hindexed
    rw [hstore'] at hst
    cases hst
    rw [segmentKept, hfloor, Bool.or_eq_true, List.any_eq_true]
    exact .inr ⟨o, mem_offsets_iff.mpr ⟨gone, ho⟩, decide_eq_true hle⟩
  · intro least hl id hid
    obtain ⟨⟨i, hi, hio⟩, hmin⟩ := (hleast least).mp hl
    obtain ⟨hid, hkept⟩ := (hsegments id).mp hid
    have hdistinct := nodup_getAllInstances hnamed
    -- the index is not empty, so some offset of it keeps the segment
    obtain ⟨o, ho, hle⟩ : ∃ o ∈ store'.offsets, (⟨o⟩ : WalOffset).segmentId ≤ id := by
      obtain ⟨o, ho, -⟩ := hentered.not_older hdistinct hi
      have hmem : o ∈ store'.offsets := mem_offsets_iff.mpr ⟨_, ho⟩
      rw [segmentKept, hfloor, Bool.or_eq_true, List.any_eq_true, List.isEmpty_iff] at hkept
      obtain hempty | ⟨o', ho', hle⟩ := hkept
      · rw [hempty] at hmem
        cases hmem
      · exact ⟨o', ho', by simpa using hle⟩
    obtain ⟨id', ho⟩ := mem_offsets_iff.mp ho
    by_cases hlive : s.live id'
    · obtain ⟨j, hj, rfl⟩ := hlive
      obtain ⟨o', ho', hnot⟩ := hentered.not_older hdistinct hj
      rw [ho] at ho'
      cases ho'
      exact le_trans (segmentId_mono ((hmin j hj).trans hnot)) hle
    · exact hunpinned least ((hleast least).mp hl) id' o hlive
        ((hgone hlive).mp ⟨store', hstore', ho⟩) id hid hle
  · simp only [Shared.live, hinstances]

end

/-! ## Runs -/

/-- A COMPACT with `force_snapshot` that is answered with ok, at any point of any run of
the server. It leaves no segment before the smallest `last_wal_offset` if and only if no
segment it found lies between a snapshot of an instance that is not there any more and
that offset; and the index has no snapshot of a deleted instance afterwards if and only
if it had none before. -/
theorem compact_unpins_iff (X : ServerExternals) {config : ServerConfig} {server₀ server : Server}
    (started : Server.start X config ∅ .empty 0 = some (.ok server₀)) {ops : List ServerOp}
    (hrun : run (Server.step X) server₀ ops = some server) {before after : List ServerEvent}
    {c : CommandHandler} {k : Call} (htrace : server₀.trace X ops = before ++ .called c k :: after)
    (hop : k.request.op = .compact)
    (force : (k.request.params.index "force_snapshot").asBool = some true) {s' : Shared}
    {ses' : Session} {r : Response}
    (hh : handle X c k.shared k.session k.request = some (s', ses', r)) (hok : r.isOk = true) :
    (s'.trimmed ↔ k.shared.unpinned) ∧
      ((∀ id o, deletedBy X before s' id → ¬ s'.indexed id o) ↔
        ∀ id o, deletedBy X before k.shared id → ¬ k.shared.indexed id o) := by
  obtain rfl := Server.eq_fresh_of_start started
  obtain ⟨⟨compaction, pre, ch, hsound⟩, hnamed, -⟩ :=
    calls_sound hrun (c := c) (k := k) (by rw [htrace]; simp)
  obtain ⟨-, -, -, rfl⟩ | ⟨-, answer, rfl, ⟨hbatch, -⟩ | ⟨-, he⟩⟩ := handle_cases hh
  · cases hok
  · rw [hop] at hbatch
    cases hbatch
  · rw [hop] at he
    obtain ⟨v, rfl⟩ : ∃ v, answer = .ok v := by
      cases answer with
      | ok v => exact ⟨v, rfl⟩
      | error e => cases hok
    have hc : handleCompact X k.shared k.request.params = (s', .ok v) := by
      have hout := Option.some.inj he
      exact Prod.ext (congrArg (fun out => out.1) hout) (congrArg (fun out => out.2.2) hout)
    obtain ⟨htrim, hlive, hgone⟩ := handleCompact_trims_iff hsound hnamed force hc
    refine ⟨htrim, ?_⟩
    constructor
    · intro h id o hd hi
      exact h id o ⟨hd.1, fun hl => hd.2 ((hlive id).mp hl)⟩ ((hgone id o hd.2).mpr hi)
    · intro h id o hd hi
      have hnot : ¬ k.shared.live id := fun hl => hd.2 ((hlive id).mpr hl)
      exact h id o ⟨hd.1, hnot⟩ ((hgone id o hnot).mp hi)

def snapshotLoop (id : String) : Request :=
  ⟨"7", .snapshotInstance, .object [("instance_id", .string id)]⟩

def compactForced : Request := ⟨"8", .compact, .object [("force_snapshot", .bool true)]⟩

/-- Instance `i` is created, sees these requests and is deleted, before a compaction. -/
def deletedAfter (requests : List Request) : List ServerOp :=
  ([putLoop, createLoop "i" []] ++ requests ++
    [deleteLoop "i", createLoop "j" [], compactForced]).map (.request (Session.new false))

set_option maxRecDepth 4000 in
/-- A deleted instance without a snapshot: the compaction trims the log to the other one. -/
theorem compact_unpins_deleted_instance :
    ∃ server', run (Server.step serdeServer) (.fresh (openConfig 0)) (deletedAfter []) =
        some server' ∧
      ∃ before c k s' ses' r, (Server.fresh (openConfig 0)).trace serdeServer (deletedAfter []) =
          before ++ [.called c k] ∧ k.request.op = .compact ∧
        handle serdeServer c k.shared k.session k.request = some (s', ses', r) ∧ r.isOk = true ∧
        deletedBy serdeServer before s' "i" ∧ s'.live "j" ∧ s'.trimmed ∧
        ∀ o, ¬ s'.indexed "i" o := by
  obtain ⟨events, hevents⟩ : ∃ events, (Server.fresh (openConfig 0)).trace serdeServer
      (deletedAfter []) = events := ⟨_, rfl⟩
  have htrace : (Server.lastCall (events.dropLast.take 3)).any
        (fun p => p.2.deletes serdeServer p.1 "i") = true ∧
      (Server.lastCall events).any (fun p => (p.2.request.op = .compact) &&
        ((p.2.request.params.index "force_snapshot").asBool = some true) &&
        p.2.shared.snapshotStore.all (·.offsets = []) &&
        (handle serdeServer p.1 p.2.shared p.2.session p.2.request).any fun out =>
          out.2.2.isOk && (out.1.engine.getAllInstances.map (·.id) = ["j"])) = true := by
    rw [← hevents]
    decide +kernel
  refine run_exists (p := fun _ => True) (by decide +kernel) fun server' hrun _ => ?_
  obtain ⟨hdel, htrace⟩ := htrace
  obtain ⟨⟨d, m⟩, hm, hdel⟩ := (Option.any_eq_true _ _).mp hdel
  obtain ⟨⟨c, k⟩, hlast, htrace⟩ := (Option.any_eq_true _ _).mp htrace
  simp only [Bool.and_eq_true, decide_eq_true_eq] at htrace
  obtain ⟨⟨⟨hop, force⟩, hempty⟩, hh⟩ := htrace
  obtain ⟨⟨s', ses', r⟩, hh, hout⟩ := (Option.any_eq_true _ _).mp hh
  obtain ⟨hok, hids⟩ := Bool.and_eq_true_iff.mp hout
  have hids : s'.engine.getAllInstances.map (·.id) = ["j"] := of_decide_eq_true hids
  have hlive (id : String) : s'.live id ↔ id = "j" := by
    rw [← List.mem_singleton, ← hids]
    exact List.mem_map.symm
  have hnone (id : String) (o : Nat) : ¬ k.shared.indexed id o := by
    rintro ⟨store, hstore, ho⟩
    have hnone : store.offsets = [] := by
      simpa using Option.all_eq_true _ _ |>.mp hempty store hstore
    have hmem := mem_offsets_iff.mpr ⟨id, ho⟩
    rw [hnone] at hmem
    cases hmem
  have hdeleted : deletedBy serdeServer events.dropLast s' "i" :=
    ⟨⟨d, m, List.mem_of_mem_take (Server.lastCall_mem hm), hdel⟩, by simp [hlive]⟩
  have hcalls := hevents.trans (Server.lastCall_eq hlast)
  obtain ⟨htrim, hindex⟩ := compact_unpins_iff serdeServer (Server.start_empty rfl) hrun hcalls hop
    force hh hok
  exact ⟨_, c, k, s', ses', r, hcalls, hop, hh, hok, hdeleted, (hlive _).mpr rfl,
    htrim.mpr fun _ _ gone o _ hi => (hnone gone o hi).elim,
    fun o => hindex.mpr (fun id o _ => hnone id o) "i" o hdeleted⟩

set_option maxRecDepth 4000 in
/-- A deleted instance with a snapshot: it stays in the index, and the segments from its
snapshot on stay in the log. -/
theorem deleted_instance_pins_log :
    ∃ server', run (Server.step serdeServer) (.fresh (openConfig 0))
        (deletedAfter [snapshotLoop "i"]) = some server' ∧
      (∃ before c k, (Server.fresh (openConfig 0)).trace serdeServer
          (deletedAfter [snapshotLoop "i"]) = before ++ [.called c k] ∧
        k.request.op = .compact ∧
        (k.request.params.index "force_snapshot").asBool = some true ∧
        k.succeeds serdeServer c = true ∧ deletedBy serdeServer before server'.shared "i") ∧
      (∃ o, server'.shared.indexed "i" o) ∧ ¬ server'.shared.trimmed := by
  obtain ⟨events, hevents⟩ : ∃ events, (Server.fresh (openConfig 0)).trace serdeServer
      (deletedAfter [snapshotLoop "i"]) = events := ⟨_, rfl⟩
  have htrace : (Server.lastCall (events.dropLast.take 4)).any
        (fun p => p.2.deletes serdeServer p.1 "i") = true ∧
      (Server.lastCall events).any (fun p => (p.2.request.op = .compact) &&
        ((p.2.request.params.index "force_snapshot").asBool = some true) &&
        p.2.succeeds serdeServer p.1) = true := by
    rw [← hevents]
    decide +kernel
  refine run_exists (p := fun server =>
    (∀ i ∈ server.shared.engine.getAllInstances, i.id ≠ "i") ∧
      (server.shared.snapshotStore.any fun store => (store.index["i"]?).isSome) = true ∧
      ∃ j ∈ server.shared.engine.getAllInstances,
        (∀ i ∈ server.shared.engine.getAllInstances, j.lastWalOffset ≤ i.lastWalOffset) ∧
          ∃ id ∈ server.shared.engine.wal.segmentIds,
            ¬ (⟨j.lastWalOffset⟩ : WalOffset).segmentId ≤ id) (by decide +kernel) ?_
  rintro server' - ⟨hgone, hindexed, j, hj, hleast, id, hid, hbefore⟩
  refine ⟨?_, ?_, fun htrim => hbefore (htrim _ ⟨⟨j, hj, rfl⟩, hleast⟩ id hid)⟩
  · obtain ⟨hdel, htrace⟩ := htrace
    obtain ⟨⟨d, m⟩, hm, hdel⟩ := (Option.any_eq_true _ _).mp hdel
    obtain ⟨⟨c, k⟩, hlast, htrace⟩ := (Option.any_eq_true _ _).mp htrace
    simp only [Bool.and_eq_true, decide_eq_true_eq] at htrace
    obtain ⟨⟨hop, force⟩, hok⟩ := htrace
    refine ⟨_, c, k, hevents.trans (Server.lastCall_eq hlast), hop, force, hok,
      ⟨d, m, List.mem_of_mem_take (Server.lastCall_mem hm), hdel⟩, ?_⟩
    rintro ⟨i, hi, he⟩
    exact hgone i hi he
  · obtain ⟨store, hstore, hsome⟩ := (Option.any_eq_true _ _).mp hindexed
    obtain ⟨entry, hentry⟩ := Option.isSome_iff_exists.mp hsome
    exact ⟨entry.walOffset, store, hstore, by rw [hentry]; rfl⟩

end Rstmdb
