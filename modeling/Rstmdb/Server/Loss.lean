import Rstmdb.Server.Compaction

/-! What a compaction loses. The offsets it goes by are known before it runs; the
segments that lie before all of them are deleted, and with them every machine put
and every instance created there. -/
namespace Rstmdb
open Json (Value)

/-- The snapshots that a compaction will try to make, each with the number of the
identifier it draws. -/
def plannedSnapshots (needs : Instance → Bool) : List Instance → Nat → List (Instance × Nat)
  | [], _ => []
  | i :: is, n =>
    if needs i then (i, n) :: plannedSnapshots needs is (n + 1) else plannedSnapshots needs is n

/-- How far the snapshot with this number comes. -/
def snapshotOutcome (X : ServerExternals) (n : Nat) : SnapshotWrite :=
  X.snapshotWrite ("snap-" ++ X.uuid n)

/-- The planned snapshots whose files can be written: they get into the index. -/
def enteredSnapshots (X : ServerExternals) (planned : List (Instance × Nat)) : List Instance :=
  (planned.filter fun p => snapshotOutcome X p.2 ≠ .noFile).map Prod.fst

/-- The offsets of an index into which these snapshots have been entered. -/
def floorOf (store : SnapshotStore) (entered : List Instance) : List Nat :=
  entered.map Instance.lastWalOffset ++
    (store.index.toList.filter fun p => !entered.any (·.id = p.1)).map (·.2.walOffset)

/-- The two ways to compact. -/
inductive CompactionPath
  | command (params : Value)
  | automatic

namespace Server

def compact (X : ServerExternals) (server : Server) : CompactionPath → Server
  | .command params => { server with shared := (handleCompact X server.shared params).1 }
  | .automatic =>
    let (shared, compaction, _) := runCompaction X server.shared server.compaction
    { server with shared, compaction }

/-- The offsets that a compaction will go by, before it has run. The command
deletes nothing when a snapshot fails. -/
def compactionFloor (X : ServerExternals) (server : Server) : CompactionPath → List Nat
  | .command params =>
    match server.shared.snapshotStore with
    | none => []
    | some store =>
      let needs := needsSnapshot (forceSnapshot params) store
      let planned := plannedSnapshots needs server.shared.engine.getAllInstances server.shared.uuids
      if planned.all fun p => snapshotOutcome X p.2 = .done then
        floorOf store (enteredSnapshots X planned)
      else []
  | .automatic =>
    let needs := changedSinceSnapshot server.compaction
    let planned := plannedSnapshots needs server.shared.engine.getAllInstances server.shared.uuids
    floorOf server.compaction (enteredSnapshots X planned)

end Server

/-- The entries in a segment file. -/
def segmentEntries (X : Externals) (w : Wal) (id : SegmentId) : List WalEntry :=
  match w.readSegment X id with
  | .ok records => records.filterMap fun p => X.fromSlice p.2.payload
  | .error _ => []

/-- A restart cannot do without the entry: it defines a machine, or it creates an
instance that is not deleted. -/
def Engine.needs (e : Engine) : WalEntry → Bool
  | .putMachine .. => true
  | .createInstance id .. => (e.instances[id]?).any fun i => !i.isDeleted
  | _ => false

/-- No segment that the compaction will delete has an entry that is needed. -/
def Server.losesNothing (X : ServerExternals) (server : Server) (path : CompactionPath) : Bool :=
  let wal := server.shared.engine.wal
  wal.segmentIds.all fun id =>
    segmentKept (server.compactionFloor X path) id ||
      (segmentEntries X.toExternals wal id).all fun entry => !server.shared.engine.needs entry

/-- What is visible of an instance that is not deleted. -/
def Engine.liveView (e : Engine) (id : String) : Option (String × UInt32 × String × Value) :=
  (e.instances[id]?).bind fun i =>
    if i.isDeleted then none else some (i.machine, i.version, i.state, i.ctx)

/-! ## The index after the snapshots -/

theorem plannedSnapshots_fst (needs : Instance → Bool) (is : List Instance) (n : Nat) :
    (plannedSnapshots needs is n).map Prod.fst = is.filter needs := by
  induction is generalizing n with
  | nil => rfl
  | cons i is ih =>
    unfold plannedSnapshots
    cases h : needs i <;> simp [h, ih]

theorem plannedSnapshots_congr {f g : Instance → Bool} {is : List Instance}
    (h : ∀ i ∈ is, f i = g i) (n : Nat) : plannedSnapshots f is n = plannedSnapshots g is n := by
  induction is generalizing n with
  | nil => rfl
  | cons i is ih =>
    have rest := ih fun j hj => h j (List.mem_cons_of_mem _ hj)
    simp only [plannedSnapshots, h i List.mem_cons_self, rest]

/-- The index has the offsets of the entered instances, and for the rest those it had. -/
def Entered (store : SnapshotStore) (entered : List Instance) (store' : SnapshotStore) : Prop :=
  ∀ id : String, (store'.index[id]?).map SnapshotMeta.walOffset =
    match entered.find? (·.id = id) with
    | some i => some i.lastWalOffset
    | none => (store.index[id]?).map SnapshotMeta.walOffset

variable {store store' : SnapshotStore} {entered : List Instance} {e e' : Engine} {floor : List Nat}
  {id : SegmentId} {X : Externals} {c : Chunk X}

theorem mem_floorOf (h : Entered store entered store') (distinct : (entered.map Instance.id).Nodup)
    (o : Nat) : o ∈ floorOf store entered ↔ o ∈ store'.offsets := by
  have found (id : String) : o ∈ (store'.index[id]?).map SnapshotMeta.walOffset ↔
      (∃ i ∈ entered, i.id = id ∧ i.lastWalOffset = o) ∨
        (∀ i ∈ entered, i.id ≠ id) ∧ ∃ m, store.index[id]? = some m ∧ m.walOffset = o := by
    rw [h id]
    cases hf : entered.find? (·.id = id) with
    | some i =>
      have hi : i ∈ entered := List.mem_of_find?_eq_some hf
      have hid : i.id = id := by simpa using List.find?_some hf
      simp only [Option.mem_def, Option.some.injEq]
      constructor
      · rintro rfl
        exact .inl ⟨i, hi, hid, rfl⟩
      · rintro (⟨j, hj, hjd, rfl⟩ | ⟨hnone, -⟩)
        · rw [List.inj_on_of_nodup_map distinct hj hi (hjd.trans hid.symm)]
        · exact absurd hid (hnone i hi)
    | none =>
      have hnone : ∀ i ∈ entered, i.id ≠ id := by simpa using hf
      simp only [Option.mem_def, Option.map_eq_some_iff]
      constructor
      · exact fun hm => .inr ⟨hnone, hm⟩
      · rintro (⟨i, hi, hid, -⟩ | ⟨-, hm⟩)
        · exact absurd hid (hnone i hi)
        · exact hm
  have hoff : o ∈ store'.offsets ↔
      ∃ id : String, o ∈ (store'.index[id]?).map SnapshotMeta.walOffset := by
    rw [SnapshotStore.mem_offsets]
    simp [Option.map_eq_some_iff]
  rw [hoff]
  simp only [found, floorOf, List.mem_append, List.mem_map, List.mem_filter, Prod.exists,
    Table.mem_toList]
  constructor
  · rintro (⟨i, hi, rfl⟩ | ⟨id, m, ⟨hm, hnone⟩, rfl⟩)
    · exact ⟨i.id, .inl ⟨i, hi, rfl, rfl⟩⟩
    · exact ⟨id, .inr ⟨by simpa using hnone, m, hm, rfl⟩⟩
  · rintro ⟨id, ⟨i, hi, -, rfl⟩ | ⟨hnone, m, hm, rfl⟩⟩
    · exact .inl ⟨i, hi, rfl⟩
    · exact .inr ⟨id, m, ⟨hm, by simpa using hnone⟩, rfl⟩

theorem Entered.cons {store₁ : SnapshotStore} {i : Instance} {entry : SnapshotMeta}
    (he : entry.walOffset = i.lastWalOffset) (hindex : store₁.index = store.index.insert i.id entry)
    (hne : ∀ j ∈ entered, j.id ≠ i.id) (h : Entered store₁ entered store') :
    Entered store (i :: entered) store' := by
  intro id
  rw [h id, hindex, List.find?_cons]
  by_cases hid : i.id = id
  · subst hid
    have hnone : entered.find? (·.id = i.id) = none := by simpa using hne
    simp [hnone, he]
  · have hget : (store.index.insert i.id entry)[id]? = store.index[id]? :=
      Table.getElem?_insert_ne (Ne.symm hid)
    simp only [hid, decide_false, hget]

section
variable {X : ServerExternals} {s s' s₁ : Shared} {store store' store₁ : SnapshotStore}
  {i : Instance} {is : List Instance}

theorem takeSnapshot_index {res : Except StorageError SnapshotMeta}
    (h : s.takeSnapshot X store i = (s', store', res)) :
    s'.uuids = s.uuids + 1 ∧ ((∃ m, res = .ok m) ↔ snapshotOutcome X s.uuids = .done) ∧
      (snapshotOutcome X s.uuids = .noFile ∧ store' = store ∨
        snapshotOutcome X s.uuids ≠ .noFile ∧ ∃ entry : SnapshotMeta,
          entry.walOffset = i.lastWalOffset ∧ store'.index = store.index.insert i.id entry) := by
  unfold Shared.takeSnapshot at h
  simp only at h
  obtain ⟨rfl, rfl, rfl⟩ : _ = s' ∧ _ = store' ∧ _ = res := by simpa using h
  refine ⟨rfl, ?_, ?_⟩
  · exact @SnapshotStore.createSnapshot_ok_iff _ _ _ _ _ (.fromInstance i _) _ rfl
  · exact @SnapshotStore.createSnapshot_index _ _ _ _ _ (.fromInstance i _) _ rfl

/-- One round of either loop: the rest of the plan does not depend on this snapshot. -/
theorem entered_take (store' : SnapshotStore) {needs : SnapshotStore → Instance → Bool}
    (hlocal : ∀ (st st' : SnapshotStore) (j : Instance), st.index[j.id]? = st'.index[j.id]? →
      needs st j = needs st' j)
    {res : Except StorageError SnapshotMeta} (ht : s.takeSnapshot X store i = (s₁, store₁, res))
    (hne : ∀ j ∈ is, j.id ≠ i.id) (hneeds : needs store i = true) :
    plannedSnapshots (needs store) (i :: is) s.uuids =
        (i, s.uuids) :: plannedSnapshots (needs store₁) is s₁.uuids ∧
      (Entered store₁ (enteredSnapshots X (plannedSnapshots (needs store₁) is s₁.uuids)) store' →
        Entered store (enteredSnapshots X (plannedSnapshots (needs store) (i :: is) s.uuids))
          store') := by
  obtain ⟨hn, -, hindex⟩ := takeSnapshot_index ht
  have hplan : plannedSnapshots (needs store) (i :: is) s.uuids =
      (i, s.uuids) :: plannedSnapshots (needs store₁) is s₁.uuids := by
    rw [plannedSnapshots, if_pos hneeds, hn]
    congr 1
    refine plannedSnapshots_congr (fun j hj => hlocal _ _ j ?_) _
    obtain ⟨-, rfl⟩ | ⟨-, entry, -, hi⟩ := hindex
    · rfl
    · rw [hi, Table.getElem?_insert_ne (hne j hj)]
  refine ⟨hplan, fun h => ?_⟩
  rw [hplan]
  obtain ⟨hfile, rfl⟩ | ⟨hfile, entry, he, hi⟩ := hindex
  · simpa [enteredSnapshots, hfile] using h
  · have hentered : enteredSnapshots X
        ((i, s.uuids) :: plannedSnapshots (needs store₁) is s₁.uuids) =
          i :: enteredSnapshots X (plannedSnapshots (needs store₁) is s₁.uuids) := by
      simp [enteredSnapshots, hfile]
    rw [hentered]
    refine Entered.cons he hi (fun j hj => hne j ?_) h
    obtain ⟨p, hp, rfl⟩ := List.mem_map.mp hj
    have := List.mem_map_of_mem (f := Prod.fst) (List.mem_of_mem_filter hp)
    rw [plannedSnapshots_fst] at this
    exact List.mem_of_mem_filter this

theorem changedSinceSnapshot_local (st st' : SnapshotStore) (j : Instance)
    (h : st.index[j.id]? = st'.index[j.id]?) :
    changedSinceSnapshot st j = changedSinceSnapshot st' j := by
  simp only [changedSinceSnapshot, SnapshotStore.getSnapshotMeta, h]

theorem needsSnapshot_local (force : Bool) (st st' : SnapshotStore) (j : Instance)
    (h : st.index[j.id]? = st'.index[j.id]?) :
    needsSnapshot force st j = needsSnapshot force st' j := by
  simp only [needsSnapshot, changedSinceSnapshot_local st st' j h, SnapshotStore.getSnapshotMeta, h]

theorem snapshotChanged_entered {created created' : Nat}
    (h : snapshotChanged X is s store created = (s', store', created'))
    (distinct : (is.map Instance.id).Nodup) :
    Entered store (enteredSnapshots X
      (plannedSnapshots (changedSinceSnapshot store) is s.uuids)) store' := by
  induction is generalizing s store created with
  | nil =>
    cases h
    exact fun id => rfl
  | cons i is ih =>
    obtain ⟨hi, hrest⟩ := List.nodup_cons.mp distinct
    have hne : ∀ j ∈ is, j.id ≠ i.id := fun j hj he => hi (he ▸ List.mem_map_of_mem hj)
    unfold snapshotChanged at h
    split at h
    · rename_i hneeds
      split at h <;> rename_i ht <;>
        exact (entered_take _ changedSinceSnapshot_local ht hne hneeds).2 (ih h hrest)
    · rename_i hneeds
      simpa [plannedSnapshots, hneeds] using ih h hrest

theorem snapshotInstances_entered {force : Bool} {created : Nat} {res : Except StorageError Nat}
    (h : snapshotInstances X force is s store created = (s', store', res))
    (distinct : (is.map Instance.id).Nodup) :
    if (plannedSnapshots (needsSnapshot force store) is s.uuids).all
        (fun p => snapshotOutcome X p.2 = .done) then
      (∃ n, res = .ok n) ∧ Entered store (enteredSnapshots X
        (plannedSnapshots (needsSnapshot force store) is s.uuids)) store'
    else ∃ e, res = .error e := by
  induction is generalizing s store created with
  | nil =>
    cases h
    exact ⟨⟨_, rfl⟩, fun id => rfl⟩
  | cons i is ih =>
    obtain ⟨hi, hrest⟩ := List.nodup_cons.mp distinct
    have hne : ∀ j ∈ is, j.id ≠ i.id := fun j hj he => hi (he ▸ List.mem_map_of_mem hj)
    unfold snapshotInstances at h
    split at h
    · rename_i hneeds
      split at h
      · rename_i e ht
        cases h
        obtain ⟨hplan, -⟩ := entered_take store' (needsSnapshot_local force) ht hne hneeds
        obtain ⟨-, hok, -⟩ := takeSnapshot_index ht
        have hfail : snapshotOutcome X s.uuids ≠ .done := fun hd => by simpa using hok.mpr hd
        rw [hplan]
        simp [hfail]
      · rename_i s₁ store₁ m ht
        obtain ⟨hplan, hentered⟩ :=
          entered_take store' (needsSnapshot_local force) ht hne hneeds
        obtain ⟨-, hok, -⟩ := takeSnapshot_index ht
        have hdone : snapshotOutcome X s.uuids = .done := hok.mp ⟨m, rfl⟩
        have hih := ih h hrest
        have hall : (plannedSnapshots (needsSnapshot force store) (i :: is) s.uuids).all
            (fun p => snapshotOutcome X p.2 = .done) = (plannedSnapshots
              (needsSnapshot force store₁) is s₁.uuids).all
                (fun p => snapshotOutcome X p.2 = .done) := by
          rw [hplan, List.all_cons]
          simp [hdone]
        rw [hall]
        split at hih
        · rename_i ha
          rw [if_pos ha]
          exact ⟨hih.1, hentered hih.2⟩
        · rename_i ha
          rw [if_neg ha]
          exact hih
    · rename_i hneeds
      have hplan : plannedSnapshots (needsSnapshot force store) (i :: is) s.uuids =
          plannedSnapshots (needsSnapshot force store) is s.uuids := if_neg hneeds
      rw [hplan]
      exact ih h hrest

end

/-! ## What is left of the log -/

theorem segmentKept_congr {f g : List Nat} (h : ∀ o, o ∈ f ↔ o ∈ g) (id : SegmentId) :
    segmentKept f id = segmentKept g id := by
  have hempty : f.isEmpty = g.isEmpty := by
    rw [Bool.eq_iff_iff, List.isEmpty_iff, List.isEmpty_iff, List.eq_nil_iff_forall_not_mem,
      List.eq_nil_iff_forall_not_mem]
    simp [h]
  rw [segmentKept, segmentKept, hempty]
  congr 1
  rw [Bool.eq_iff_iff, List.any_eq_true, List.any_eq_true]
  simp [h]

theorem nodup_getAllInstances (h : e.toMemory.Named) :
    (e.getAllInstances.map Instance.id).Nodup := by
  have hkeys : e.instances.values.map Instance.id = e.instances.toList.map Prod.fst := by
    rw [Table.values_eq_map_toList, List.map_map]
    apply List.map_congr_left
    rintro ⟨k, i⟩ hp
    exact h k i (Table.mem_toList.mp hp)
  have hnodup : (e.instances.toList.map Prod.fst).Nodup := by
    rw [List.Nodup, List.pairwise_map]
    refine (Table.ascending_toList e.instances).imp ?_
    rintro a b hab he
    simp [he] at hab
  exact (hkeys ▸ hnodup).sublist (List.Sublist.map _ List.filter_sublist)

namespace Server

variable {X : ServerExternals} {server : Server} {pre : List (Chunk X.toExternals)}
  {ch : Chunk X.toExternals}

theorem nodup_entered (hnamed : server.shared.engine.toMemory.Named) (needs : Instance → Bool)
    (n : Nat) :
    ((enteredSnapshots X (plannedSnapshots needs server.shared.engine.getAllInstances n)).map
      Instance.id).Nodup := by
  have hsub : (enteredSnapshots X (plannedSnapshots needs server.shared.engine.getAllInstances
      n)).Sublist server.shared.engine.getAllInstances := by
    refine (List.Sublist.map Prod.fst List.filter_sublist).trans ?_
    rw [plannedSnapshots_fst]
    exact List.filter_sublist
  exact (nodup_getAllInstances hnamed).sublist (hsub.map _)

theorem compact_sound (h : server.shared.Sound X server.compaction pre ch)
    (hnamed : server.shared.engine.toMemory.Named) (path : CompactionPath) :
    (server.compact X path).shared.Sound X (server.compact X path).compaction
      (pre.filter (segmentKept (server.compactionFloor X path) ·.id)) ch := by
  have hdistinct := nodup_getAllInstances hnamed
  cases path with
  | command params =>
    have hfloor : ∀ o, o ∈ commandFloor X server.shared params ↔
        o ∈ server.compactionFloor X (.command params) := by
      intro o
      unfold commandFloor compactionFloor
      cases server.shared.snapshotStore with
      | none => rfl
      | some store =>
        obtain ⟨s₁, store₁, res, hs⟩ : ∃ s₁ store₁ res,
            snapshotInstances X (forceSnapshot params) server.shared.engine.getAllInstances
              server.shared store 0 = (s₁, store₁, res) := ⟨_, _, _, rfl⟩
        have hloop := snapshotInstances_entered hs hdistinct
        simp only [hs]
        split at hloop
        · rename_i hall
          obtain ⟨⟨n, rfl⟩, hentered⟩ := hloop
          rw [if_pos hall]
          exact (mem_floorOf hentered (nodup_entered hnamed _ _) o).symm
        · rename_i hall
          obtain ⟨e, rfl⟩ := hloop
          rw [if_neg hall]
    have hs := h.compactCommand params
    simp only [segmentKept_congr hfloor] at hs
    exact hs
  | automatic =>
    obtain ⟨s₁, store₁, created, hs⟩ : ∃ s₁ store₁ created, snapshotChanged X
        server.shared.engine.getAllInstances server.shared server.compaction 0 =
          (s₁, store₁, created) := ⟨_, _, _, rfl⟩
    have hfloor : ∀ o, o ∈ (runCompaction X server.shared server.compaction).2.1.offsets ↔
        o ∈ server.compactionFloor X .automatic := by
      intro o
      simp only [runCompaction, hs]
      exact (mem_floorOf (snapshotChanged_entered hs hdistinct) (nodup_entered hnamed _ _) o).symm
    have hsound := h.runCompaction
    simp only [segmentKept_congr hfloor] at hsound
    exact hsound

theorem compactionFloor_within (h : server.shared.Sound X server.compaction pre ch)
    (path : CompactionPath) :
    ∀ o ∈ server.compactionFloor X path, (⟨o⟩ : WalOffset).segmentId ≤ ch.id := by
  have within {store : SnapshotStore} (hstore : store.Within ch.id) (needs : Instance → Bool) :
      ∀ o ∈ floorOf store (enteredSnapshots X (plannedSnapshots needs
        server.shared.engine.getAllInstances server.shared.uuids)),
        (⟨o⟩ : WalOffset).segmentId ≤ ch.id := by
    intro o ho
    obtain ho | ho := List.mem_append.mp ho
    · obtain ⟨i, hi, rfl⟩ := List.mem_map.mp ho
      obtain ⟨p, hp, rfl⟩ := List.mem_map.mp hi
      have hfst := List.mem_map_of_mem (f := Prod.fst) (List.mem_of_mem_filter hp)
      rw [plannedSnapshots_fst] at hfst
      exact h.instances _ (List.mem_of_mem_filter hfst)
    · obtain ⟨⟨id, m⟩, hm, rfl⟩ := List.mem_map.mp ho
      have hget := Table.mem_toList.mp (List.mem_of_mem_filter hm)
      exact hstore _ (SnapshotStore.mem_offsets.mpr ⟨id, m, hget, rfl⟩)
  cases path with
  | command params =>
    simp only [compactionFloor]
    split
    · simp
    rename_i store hstore
    split
    · exact within (h.store store hstore) _
    · simp
  | automatic => exact within h.manager _

end Server

theorem segmentKept_mono {id' : SegmentId} (hle : id ≤ id') (h : segmentKept floor id = true) :
    segmentKept floor id' = true := by
  simp only [segmentKept, Bool.or_eq_true, List.any_eq_true, decide_eq_true_eq] at h ⊢
  obtain h | ⟨o, ho, hid⟩ := h
  · exact .inl h
  · exact .inr ⟨o, ho, le_trans hid hle⟩

theorem segmentKept_last (h : ∀ o ∈ floor, (⟨o⟩ : WalOffset).segmentId ≤ id) :
    segmentKept floor id = true := by
  cases floor with
  | nil => rfl
  | cons o floor =>
    simp only [segmentKept, Bool.or_eq_true, List.any_eq_true, decide_eq_true_eq]
    exact .inr ⟨o, List.mem_cons_self, h o List.mem_cons_self⟩

/-- What a compaction by these offsets takes away are the first entries. -/
theorem entries_split {dir : Dir} {pre : List (Chunk X)} (h : Holds dir (pre ++ [c]))
    (floor : List Nat) :
    entries (pre ++ [c]) = entries (pre.filter fun d => !segmentKept floor d.id) ++
      entries (pre.filter (segmentKept floor ·.id) ++ [c]) := by
  have hasc : pre.Pairwise fun d d' => segmentKept floor d.id = true →
      segmentKept floor d'.id = true := by
    obtain ⟨hp, -, -⟩ := List.pairwise_append.mp h.ascending
    exact hp.imp fun hlt => segmentKept_mono (Nat.le_of_lt hlt)
  rw [← entries_append, ← List.append_assoc, ← filter_split hasc]

theorem map_place (X : Externals) (id : SegmentId) (offset : Nat)
    (ps : List (UInt64 × WalEntry)) : (place X id offset ps).map (·.2.2) = ps.map (·.2) := by
  induction ps generalizing offset with
  | nil => rfl
  | cons p ps ih => simp [place, ih]

theorem filterMap_placed (X : Externals) (offset : Nat) (ps : List (UInt64 × WalEntry)) :
    (placed offset (ps.map (recordOf X))).filterMap (fun p => X.fromSlice p.2.payload) =
      ps.map (·.2) := by
  induction ps generalizing offset with
  | nil => rfl
  | cons p ps ih =>
    have hentry : X.fromSlice (recordOf X p).payload = some p.2 := X.fromSlice_toVec p.2
    simp [placed, ih, hentry]

theorem segmentEntries_eq {w : Wal} {cs : List (Chunk X)} (h : Holds w.dir cs) (hc : c ∈ cs) :
    segmentEntries X w c.id = c.entries.map (·.2.2) := by
  rw [segmentEntries, Wal.readSegment_eq h hc, Chunk.entries, map_place]
  exact filterMap_placed X 0 c.records

theorem Server.losesNothing_iff {X : ServerExternals} {server : Server}
    {pre : List (Chunk X.toExternals)} {ch : Chunk X.toExternals}
    (h : server.shared.Sound X server.compaction pre ch) (path : CompactionPath) :
    server.losesNothing X path = true ↔
      ∀ p ∈ entries (pre.filter fun d => !segmentKept (server.compactionFloor X path) d.id),
        server.shared.engine.needs p.2.2 = false := by
  have hrepr := h.engine.repr
  have hlast := segmentKept_last (compactionFloor_within h path)
  simp only [losesNothing, Wal.segmentIds, hrepr.keys, List.all_eq_true, List.mem_map,
    forall_exists_index, and_imp, forall_apply_eq_imp_iff₂, Bool.or_eq_true, Bool.not_eq_true']
  constructor
  · intro hall p hp
    obtain ⟨d, hd, hp⟩ := mem_entries.mp hp
    obtain ⟨hd, hk⟩ := List.mem_filter.mp hd
    have hmem : d ∈ pre ++ [ch] := List.mem_append_left _ hd
    obtain hkept | hneeds := hall d hmem
    · simp [hkept] at hk
    · apply hneeds
      rw [segmentEntries_eq hrepr.holds hmem]
      exact List.mem_map_of_mem hp
  · intro hall d hd
    obtain hpre | hd' := List.mem_append.mp hd
    · cases hk : segmentKept (server.compactionFloor X path) d.id with
      | true => exact .inl rfl
      | false =>
        refine .inr fun entry he => ?_
        rw [segmentEntries_eq hrepr.holds hd] at he
        obtain ⟨p, hp, rfl⟩ := List.mem_map.mp he
        exact hall p (mem_entries.mpr ⟨d, List.mem_filter.mpr ⟨hpre, by simp [hk]⟩, hp⟩)
    · rw [List.mem_singleton.mp hd']
      exact .inl hlast

theorem Engine.liveView_eq {id : String}
    (h : (e'.instances[id]?).map Instance.persisted = (e.instances[id]?).map Instance.persisted) :
    e'.liveView id = e.liveView id := by
  have view (e : Engine) : e.liveView id = ((e.instances[id]?).map Instance.persisted).bind fun i =>
      if i.isDeleted then none else some (i.machine, i.version, i.state, i.ctx) := by
    unfold liveView
    cases e.instances[id]? <;> rfl
  rw [view, view, h]

/-- What was lost shows unless none of it was needed. -/
theorem Memory.Lacks.same_iff {X : CoreExternals} {lost es : List ReadEntry}
    (h : e'.toMemory.Lacks e.toMemory lost) (hist : History X (lost ++ es) e.toMemory) :
    (e'.definitions = e.definitions ∧ ∀ id, e'.liveView id = e.liveView id) ↔
      ∀ p ∈ lost, e.needs p.2.2 = false := by
  obtain ⟨defined, created⟩ := hist.contains_iff
  constructor
  · rintro ⟨hdefs, hview⟩ ⟨seq, off, entry⟩ hp
    cases entry with
    | putMachine machine version =>
      have hkey : (machine, version) ∈ definedIn lost := List.mem_filterMap.mpr ⟨_, hp, rfl⟩
      have hthere := (defined (machine, version)).mpr (by simp [hkey])
      have hgone := h.definitions (machine, version)
      rw [if_pos hkey, hdefs] at hgone
      rw [Table.contains_eq_false hgone] at hthere
      cases hthere
    | createInstance id =>
      have hid : id ∈ createdIn lost := List.mem_filterMap.mpr ⟨_, hp, rfl⟩
      have hgone : e'.instances[id]? = none := h.absent (.inl hid)
      have hnone : none = e.liveView id := by simpa [Engine.liveView, hgone] using hview id
      unfold Engine.liveView at hnone
      cases hi : e.instances[id]? with
      | none => simp [Engine.needs, hi]
      | some i => simpa [Engine.needs, hi] using hnone
    | applyEvent | deleteInstance | snapshot | checkpoint => rfl
  · intro hall
    have hnone : definedIn lost = [] := by
      rw [List.eq_nil_iff_forall_not_mem]
      intro key hkey
      obtain ⟨⟨seq, off, entry⟩, hp, hdef⟩ := List.mem_filterMap.mp hkey
      cases entry with
      | putMachine => cases hall _ hp
      | createInstance | applyEvent | deleteInstance | snapshot | checkpoint => cases hdef
    constructor
    · apply Std.ExtTreeMap.ext_getElem?
      intro key
      simpa [hnone] using h.definitions key
    · intro id
      by_cases hid : id ∈ createdIn lost
      · -- the creation was lost, and the instance had been deleted
        obtain ⟨⟨seq, off, entry⟩, hp, hcreate⟩ := List.mem_filterMap.mp hid
        have hgone : e'.instances[id]? = none := h.absent (.inl hid)
        have hneeds := hall _ hp
        cases entry with
        | createInstance =>
          cases hcreate
          cases hi : e.instances[id]? with
          | none => simp [Engine.liveView, hgone, hi]
          | some i =>
            have hdel : i.isDeleted = true := by simpa [Engine.needs, hi] using hneeds
            simp [Engine.liveView, hgone, hi, hdel]
        | putMachine | applyEvent | deleteInstance | snapshot | checkpoint => cases hcreate
      · apply Engine.liveView_eq
        simpa [hid] using h.instances id

/-! ## A restart after a compaction -/

/-- The operations that change or save data. -/
def dataOps : List Operation :=
  [.putMachine, .createInstance, .applyEvent, .deleteInstance, .snapshotInstance]

section
variable {X : ServerExternals}

/-- Over a run of these operations the log holds everything. -/
theorem data_history {c : CommandHandler} {s s' : Shared} {compaction : SnapshotStore}
    {ps : List (Session × Request)} (hops : ∀ p ∈ ps, p.2.op ∈ dataOps)
    (hrun : run (serve X c) s ps = some s')
    (h : ∃ pre ch, s.Sound X compaction pre ch ∧
      History X.toCoreExternals (entries (pre ++ [ch])) s.engine.toMemory) :
    ∃ pre ch, s'.Sound X compaction pre ch ∧
      History X.toCoreExternals (entries (pre ++ [ch])) s'.engine.toMemory := by
  induction ps generalizing s with
  | nil =>
    cases hrun
    exact h
  | cons p ps ih =>
    obtain ⟨s₁, hs, hrest⟩ := run_cons.mp hrun
    obtain ⟨⟨_, ses₁, r⟩, hh, rfl⟩ := Option.map_eq_some_iff.mp hs
    refine ih (fun q hq => hops q (List.mem_cons_of_mem _ hq)) hrest ?_
    have hop := hops p List.mem_cons_self
    obtain ⟨-, rfl, -, -⟩ | ⟨-, answer, -, ⟨hbatch, -⟩ | ⟨-, he⟩⟩ := handle_cases hh
    · exact h
    · simp [hbatch, dataOps] at hop
    · obtain ⟨pre, ch, hsound, hist⟩ := h
      obtain ⟨pre', ch', hsound', hgrown⟩ := hsound.execute he
      have hcompact : p.2.op ≠ .compact := by
        rintro hc
        simp [hc, dataOps] at hop
      exact ⟨pre', ch', hsound', hist.grown (hgrown hcompact)⟩

/-- A restart after a compaction, with what it lacks. -/
theorem Server.compact_restart {server : Server} {pre : List (Chunk X.toExternals)}
    {ch : Chunk X.toExternals} (h : server.shared.Sound X server.compaction pre ch)
    (hist : History X.toCoreExternals (entries (pre ++ [ch])) server.shared.engine.toMemory)
    (path : CompactionPath) {config : ServerConfig}
    (tokens : (config.auth.required && config.auth.tokenHashes.isEmpty) = false) :
    ∃ server', start X config (server.compact X path).shared.engine.wal.dir
        (server.compact X path).shared.snapshotDir (server.compact X path).shared.uuids =
          some (.ok server') ∧
      server'.shared.engine.toMemory.Lacks server.shared.engine.toMemory
        (entries (pre.filter fun d => !segmentKept (server.compactionFloor X path) d.id)) := by
  obtain ⟨server', hstart, -, hreplay⟩ :=
    Sound.start (compact_sound h hist.named path) tokens
  rw [entries_split h.engine.repr.holds (server.compactionFloor X path)] at hist
  obtain ⟨m, hm, hlacks⟩ := replayEntries_lacks hist
  rw [hm] at hreplay
  cases hreplay
  exact ⟨server', hstart, hlacks⟩

/-- A restart after a compaction finds the definitions and the live instances that
were there before it, exactly if no segment that is deleted has the definition of a
machine or the creation of a live instance. -/
theorem compaction_keeps_iff {config config' : ServerConfig} {server : Server}
    (started : Server.start X config ∅ .empty 0 = some (.ok server))
    {ps : List (Session × Request)} (hops : ∀ p ∈ ps, p.2.op ∈ dataOps) {shared : Shared}
    (hrun : run (serve X server.handler) server.shared ps = some shared) (path : CompactionPath)
    (tokens : (config'.auth.required && config'.auth.tokenHashes.isEmpty) = false) :
    let before : Server := { server with shared }
    let after := before.compact X path
    ∃ restarted, Server.start X config' after.shared.engine.wal.dir after.shared.snapshotDir
        after.shared.uuids = some (.ok restarted) ∧
      ((restarted.shared.engine.definitions = shared.engine.definitions ∧
          ∀ id, restarted.shared.engine.liveView id = shared.engine.liveView id) ↔
        before.losesNothing X path = true) := by
  obtain rfl := Server.eq_fresh_of_start started
  obtain ⟨pre, ch, hsound, hist⟩ := data_history hops hrun
    ⟨[], _, Server.shared_sound_fresh X config, .nil⟩
  intro before after
  have hbefore : before.shared.Sound X before.compaction pre ch := hsound
  obtain ⟨restarted, hstart, hlacks⟩ := Server.compact_restart hbefore hist path tokens
  refine ⟨restarted, hstart, ?_⟩
  rw [Server.losesNothing_iff hbefore path]
  rw [entries_split hsound.engine.repr.holds (before.compactionFloor X path)] at hist
  exact hlacks.same_iff hist

end

set_option maxRecDepth 4000 in
/-- One segment holds everything: nothing is deleted, and nothing is lost. -/
theorem compaction_keeps_one_segment :
    let server := Server.fresh (openConfig 1000000)
    ∃ shared, run (serve serdeServer server.handler) server.shared
        (anonymous [putLoop, createLoop "i" []]) = some shared ∧
      (shared.engine.liveView "i").isSome = true ∧
      let after := Server.compact serdeServer { server with shared } .automatic
      ∃ restarted, Server.start serdeServer (openConfig 1000000) after.shared.engine.wal.dir
          after.shared.snapshotDir after.shared.uuids = some (.ok restarted) ∧
        restarted.shared.engine.definitions = shared.engine.definitions ∧
        ∀ id, restarted.shared.engine.liveView id = shared.engine.liveView id := by
  intro server
  refine run_exists (p := fun shared => (shared.engine.liveView "i").isSome = true ∧
    Server.losesNothing serdeServer { server with shared } .automatic = true)
    (by decide +kernel) ?_
  rintro shared hrun ⟨hlive, hloses⟩
  obtain ⟨restarted, hstart, hiff⟩ := @compaction_keeps_iff _
    (openConfig 1000000) (openConfig 1000000) _ (Server.start_empty rfl) _ (by decide +kernel) _
    hrun .automatic rfl
  exact ⟨hlive, restarted, hstart, hiff.mpr hloses⟩

set_option maxRecDepth 4000 in
/-- With a segment for each record: the compaction goes by the offset of the only
instance and deletes the segment with its machine. -/
theorem compaction_loses_machine :
    let server := Server.fresh (openConfig 0)
    ∃ shared, run (serve serdeServer server.handler) server.shared
        (anonymous [putLoop, createLoop "i" []]) = some shared ∧
      shared.engine.definitions.contains ("m", 1) = true ∧
      let after := Server.compact serdeServer { server with shared } (.command .null)
      ∃ restarted, Server.start serdeServer (openConfig 0) after.shared.engine.wal.dir
          after.shared.snapshotDir after.shared.uuids = some (.ok restarted) ∧
        restarted.shared.engine.definitions.contains ("m", 1) = false := by
  intro server
  refine run_exists (p := fun shared => shared.engine.definitions.contains ("m", 1) = true ∧
    ((Engine.new (serdeCoreReading [.createInstance "i" "m" 1 "a" .null none]) (openConfig 0).wal
      (Server.compact serdeServer { server with shared }
        (.command .null)).shared.engine.wal.dir).any
        fun
        | .ok engine => !engine.definitions.contains ("m", 1)
        | .error _ => false) = true)
    (by decide +kernel) ?_
  rintro shared hrun ⟨hbefore, hafter⟩
  refine ⟨hbefore, ?_⟩
  obtain ⟨pre, ch, hsound, hist⟩ := @data_history _ _ _ _ server.compaction _
    (by decide +kernel) hrun ⟨[], _, Server.shared_sound_fresh serdeServer _, .nil⟩
  obtain ⟨restarted, hstart, -⟩ := @Server.compact_restart _ { server with shared }
    _ _ hsound hist (.command .null) (openConfig 0) rfl
  refine ⟨restarted, hstart, ?_⟩
  obtain ⟨hnew, -⟩ := Server.start_parts hstart
  rw [serdeCoreReading_eq] at hafter
  rw [show serdeServer.toCoreExternals = serdeCore from rfl] at hnew
  simpa [hnew] using hafter

end Rstmdb
