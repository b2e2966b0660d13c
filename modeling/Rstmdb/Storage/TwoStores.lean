import Rstmdb.Lib.Interleave
import Rstmdb.Storage.Snapshot

/-! The two snapshot stores of a server, on one directory. Each has an index of its
own in memory and writes all of it over `index.json` after every snapshot, so a
store that does not know of the other's snapshots takes them out of the file. -/
namespace Rstmdb

/-- `index.json` is written in pieces, as they leave the buffer. -/
structure IndexExternals extends StorageExternals where
  pieces : Bytes → List Bytes
  pieces_flatten : ∀ data, (pieces data).flatten = data

/-- The command handler has a store, and the compaction manager has one. -/
inductive StoreOwner
  | handler
  | manager
  deriving DecidableEq, Repr

def StoreOwner.all : List StoreOwner := [.handler, .manager]

/-- Both stores, the threads that hold each one's index for reading, and the directory. -/
structure SharedSnapshots where
  stores : StoreOwner → SnapshotStore
  readers : StoreOwner → Nat
  dir : SnapshotDir

/-- Where the saving of an index stands. -/
inductive SaveStage
  /-- The entry is in memory; next is the creation of the file. -/
  | entered
  | emptied
  /-- These pieces are left, the first of them for this position. -/
  | writing (rest : List Bytes) (position : Nat)
  deriving DecidableEq, Repr

/-- Where a call of `create_snapshot` stands between two atomic steps. -/
inductive SnapshotPc
  | started
  /-- The snapshot's own file is there. -/
  | written
  | saving (stage : SaveStage)
  | done (result : Except StorageError SnapshotMeta)

structure SnapshotCall where
  owner : StoreOwner
  snapshot : InstanceSnapshot
  pc : SnapshotPc

/-- A write at a position. What is missing before it reads as zeros. -/
def writeAt (file : Bytes) (position : Nat) (piece : Bytes) : Bytes :=
  (file ++ List.replicate (position - file.length) 0).take position ++ piece ++
    file.drop (position + piece.length)

theorem writeAt_end (file piece : Bytes) : writeAt file file.length piece = file ++ piece := by
  simp [writeAt]

namespace SharedSnapshots

def setStore (s : SharedSnapshots) (owner : StoreOwner) (store : SnapshotStore) : SharedSnapshots :=
  { s with stores := Function.update s.stores owner store }

def setReaders (s : SharedSnapshots) (owner : StoreOwner) (n : Nat) : SharedSnapshots :=
  { s with readers := Function.update s.readers owner n }

end SharedSnapshots

namespace SnapshotCall

/-- The next atomic step. The entry waits until nobody reads the index of its store. -/
def next (X : IndexExternals) (s : SharedSnapshots) (call : SnapshotCall) :
    Option (SharedSnapshots × SnapshotCall) :=
  let snapshot := call.snapshot
  let store := s.stores call.owner
  let entry := SnapshotStore.entryOf X.toStorageExternals snapshot
  match call.pc with
  | .started =>
    if X.snapshotWrite snapshot.snapshotId = .noFile then
      some (s, { call with pc := .done (.error .io) })
    else
      let files := s.dir.files.insert snapshot.snapshotId (X.snapshotToVec snapshot)
      some ({ s with dir := { s.dir with files } }, { call with pc := .written })
  | .written =>
    if 0 < s.readers call.owner then none
    else some (s.setStore call.owner ⟨store.index.insert snapshot.instanceId entry⟩,
      { call with pc := .saving .entered })
  | .saving .entered =>
    if X.snapshotWrite snapshot.snapshotId = .noIndex then
      some (s, { call with pc := .done (.error .io) })
    else some ({ s with dir := { s.dir with index := some [] } },
      { call with pc := .saving .emptied })
  | .saving .emptied =>
    some (s.setReaders call.owner (s.readers call.owner + 1),
      { call with pc := .saving (.writing (X.pieces (X.indexToVec store.index)) 0) })
  | .saving (.writing [] _) =>
    some (s.setReaders call.owner (s.readers call.owner - 1), { call with pc := .done (.ok entry) })
  | .saving (.writing (piece :: rest) position) =>
    let file := writeAt (s.dir.index.getD []) position piece
    some ({ s with dir := { s.dir with index := some file } },
      { call with pc := .saving (.writing rest (position + piece.length)) })
  | .done _ => none

/-- The next step enters the snapshot in the index. -/
def entering (call : SnapshotCall) : Bool :=
  match call.pc with
  | .written => true
  | _ => false

/-- The call has entered its snapshot and not yet returned. -/
def busy (call : SnapshotCall) : Option (StoreOwner × InstanceSnapshot × SaveStage) :=
  match call.pc with
  | .saving stage => some (call.owner, call.snapshot, stage)
  | _ => none

/-- The entry of a snapshot that was reported as made. -/
def made (call : SnapshotCall) : Option SnapshotMeta :=
  match call.pc with
  | .done (.ok entry) => some entry
  | _ => none

end SnapshotCall

/-- The atomic steps of snapshots of both stores, in any order. -/
def snapshotSched (X : IndexExternals) :
    SharedSnapshots × List SnapshotCall → Sched (StoreOwner × InstanceSnapshot) →
      Option (SharedSnapshots × List SnapshotCall) :=
  interleave (fun _ p => ⟨p.1, p.2, .started⟩) (SnapshotCall.next X)

/-- The store that `call` works with has everything that either store has, and the
snapshot is not older than what either has for its instance. -/
def upToDate (s : SharedSnapshots) (call : SnapshotCall) : Bool :=
  StoreOwner.all.all fun owner => (s.stores owner).index.toList.all fun p =>
    if p.1 = call.snapshot.instanceId then p.2.walOffset ≤ call.snapshot.walOffset
    else ((s.stores call.owner).index[p.1]?).any (p.2.walOffset ≤ ·.walOffset)

/-- A snapshot is entered only while no other call is between that step and its end,
into an index that is up to date, and its index can then be saved. -/
def Undisturbed (X : IndexExternals) (t : SharedSnapshots × List SnapshotCall) :
    Sched (StoreOwner × InstanceSnapshot) → Prop
  | .spawn _ => True
  | .step k => ∀ call ∈ t.2[k]?, call.entering = true →
      t.2.filterMap SnapshotCall.busy = [] ∧ upToDate t.1 call = true ∧
        X.snapshotWrite call.snapshot.snapshotId ≠ .noIndex

instance decidableUndisturbed (X : IndexExternals) (t : SharedSnapshots × List SnapshotCall) :
    ∀ op, Decidable (Undisturbed X t op)
  | .spawn _ => inferInstanceAs (Decidable True)
  | .step k => inferInstanceAs (Decidable (∀ call ∈ t.2[k]?, _ → _))

/-! ## A call alone -/

section
variable {X : IndexExternals} {s : SharedSnapshots}

/-- The pieces make up the file. -/
theorem write_pieces {call : SnapshotCall} {file : Bytes} (hfile : s.dir.index = some file)
    (rest : List Bytes) (hpc : call.pc = .saving (.writing rest file.length)) :
    run (snapshotSched X) (s, [call]) (List.replicate rest.length (.step 0)) =
      some ({ s with dir := { s.dir with index := some (file ++ rest.flatten) } },
        [{ call with pc := .saving (.writing [] (file ++ rest.flatten).length) }]) := by
  induction rest generalizing s call file with
  | nil =>
    obtain ⟨owner, snapshot, pc⟩ := call
    obtain ⟨stores, readers, ⟨index, files⟩⟩ := s
    simp only at hpc hfile
    simp [run, hpc, hfile]
  | cons piece rest ih =>
    have hstep : snapshotSched X (s, [call]) (.step 0) =
        some ({ s with dir := { s.dir with index := some (file ++ piece) } },
          [{ call with pc := .saving (.writing rest (file ++ piece).length) }]) := by
      simp [snapshotSched, interleave, SnapshotCall.next, hpc, hfile, writeAt_end]
    rw [List.length_cons, List.replicate_succ, run_cons]
    refine ⟨_, hstep, ?_⟩
    rw [ih rfl rfl]
    simp

/-- A call that nothing comes between does what the sequential `create_snapshot` does. -/
theorem snapshot_alone {owner : StoreOwner} {snapshot : InstanceSnapshot} {store' : SnapshotStore}
    {dir' : SnapshotDir} {res : Except StorageError SnapshotMeta} (hfree : s.readers owner = 0)
    (h : (s.stores owner).createSnapshot X.toStorageExternals s.dir snapshot =
      (store', dir', res)) :
    ∃ n, run (snapshotSched X) (s, []) (.spawn (owner, snapshot) :: List.replicate n (.step 0)) =
      some ({ s.setStore owner store' with dir := dir' }, [⟨owner, snapshot, .done res⟩]) := by
  have hkeep : s.setStore owner (s.stores owner) = s := by simp [SharedSnapshots.setStore]
  simp only [SnapshotStore.createSnapshot] at h
  cases hw : X.snapshotWrite snapshot.snapshotId with
  | noFile =>
    rw [hw, if_pos rfl] at h
    cases h
    exact ⟨1, by simp [run, snapshotSched, interleave, SnapshotCall.next, hw, hkeep]⟩
  | noIndex =>
    rw [hw, if_neg (by decide), if_pos rfl] at h
    cases h
    exact ⟨3, by simp [run, snapshotSched, interleave, SnapshotCall.next, hw, hfree,
      SharedSnapshots.setStore, SnapshotStore.entryOf]⟩
  | done =>
    rw [hw, if_neg (by decide), if_neg (by decide)] at h
    cases h
    let entry := SnapshotStore.entryOf X.toStorageExternals snapshot
    let index := (s.stores owner).index.insert snapshot.instanceId entry
    let files := s.dir.files.insert snapshot.snapshotId (X.snapshotToVec snapshot)
    let ps := X.pieces (X.indexToVec index)
    let opened : SharedSnapshots := { (s.setStore owner ⟨index⟩).setReaders owner 1 with
      dir := ⟨some [], files⟩ }
    have hopen : run (snapshotSched X) (s, [])
        (.spawn (owner, snapshot) :: List.replicate 4 (.step 0)) =
          some (opened, [⟨owner, snapshot, .saving (.writing ps 0)⟩]) := by
      simp [run, snapshotSched, interleave, SnapshotCall.next, hw, hfree,
        SharedSnapshots.setStore, SharedSnapshots.setReaders, opened, ps, index, entry, files]
    have hwrite := @write_pieces X opened ⟨owner, snapshot, _⟩ _ rfl ps rfl
    refine ⟨4 + (ps.length + 1), ?_⟩
    rw [List.replicate_add, List.replicate_add, ← List.cons_append, run_append]
    refine ⟨_, hopen, run_append.mpr ⟨_, hwrite, ?_⟩⟩
    have hreaders : Function.update s.readers owner 0 = s.readers := by
      rw [← hfree, Function.update_eq_self]
    simp [run, snapshotSched, interleave, SnapshotCall.next, SharedSnapshots.setStore,
      SharedSnapshots.setReaders, opened, ps, index, entry, files, X.pieces_flatten,
      SnapshotStore.entryOf, hreaders]

end

/-! ## Calls together -/

/-- The snapshots made for an instance: what the directory had at the start, and what
calls have reported since. -/
def Made (start : SnapshotStore) (calls : List SnapshotCall) (id : String)
    (entry : SnapshotMeta) : Prop :=
  start.index[id]? = some entry ∨
    entry.instanceId = id ∧ ∃ call ∈ calls, call.made = some entry

/-- The index has a snapshot that is not older than this one. -/
def Reaches (index : Table String SnapshotMeta) (id : String) (entry : SnapshotMeta) : Prop :=
  ∃ entry', index[id]? = some entry' ∧ entry.walOffset ≤ entry'.walOffset

/-- The index reaches every snapshot made, and each of its own is in a memory. -/
structure Complete (made : String → SnapshotMeta → Prop) (stores : StoreOwner → SnapshotStore)
    (index : Table String SnapshotMeta) : Prop where
  reaches : ∀ id entry, made id entry → Reaches index id entry
  held : ∀ (id : String) entry, index[id]? = some entry →
    ∃ owner, (stores owner).index[id]? = some entry
  known : ∀ owner id entry, (stores owner).index[id]? = some entry → made id entry

/-- What is in the file while this index is being saved. -/
def Saving (X : IndexExternals) (dir : SnapshotDir) (index : Table String SnapshotMeta) :
    SaveStage → Prop
  | .entered => True
  | .emptied => dir.index = some []
  | .writing rest position => ∃ file, dir.index = some file ∧ file.length = position ∧
      file ++ rest.flatten = X.indexToVec index

/-- Nobody is saving and the file is complete, or one call is saving an index that is. -/
def Kept (X : IndexExternals) (start : SnapshotStore)
    (t : SharedSnapshots × List SnapshotCall) : Prop :=
  (t.2.filterMap SnapshotCall.busy = [] ∧
    ∃ disk, SnapshotStore.openDir X.toStorageExternals t.1.dir = .ok disk ∧
      Complete (Made start t.2) t.1.stores disk.index) ∨
  ∃ owner snapshot stage, t.2.filterMap SnapshotCall.busy = [(owner, snapshot, stage)] ∧
    X.snapshotWrite snapshot.snapshotId ≠ .noIndex ∧
    Saving X t.1.dir (t.1.stores owner).index stage ∧
    Complete (fun id entry => Made start t.2 id entry ∨
        id = snapshot.instanceId ∧ entry = SnapshotStore.entryOf X.toStorageExternals snapshot)
      t.1.stores (t.1.stores owner).index

section
variable {X : IndexExternals} {start : SnapshotStore} {s s' : SharedSnapshots}
  {calls xs ys : List SnapshotCall} {call call' : SnapshotCall}

theorem Made.congr (h : call'.made = call.made) (id : String) (entry : SnapshotMeta) :
    Made start (xs ++ call' :: ys) id entry ↔ Made start (xs ++ call :: ys) id entry := by
  simp only [Made, List.mem_append, List.mem_cons, or_and_right, exists_or, exists_eq_left, h]

variable {index : Table String SnapshotMeta} {dir dir' : SnapshotDir} {stage : SaveStage}

theorem Complete.congr {made made' : String → SnapshotMeta → Prop}
    {stores : StoreOwner → SnapshotStore} (h : Complete made stores index)
    (he : ∀ id entry, made' id entry ↔ made id entry) : Complete made' stores index := by
  have : made' = made := funext fun id => funext fun entry => propext (he id entry)
  exact this ▸ h

theorem openDir_congr (h : dir'.index = dir.index) :
    SnapshotStore.openDir X.toStorageExternals dir' =
      SnapshotStore.openDir X.toStorageExternals dir := by
  simp only [SnapshotStore.openDir, h]

theorem Saving.congr (h : dir'.index = dir.index) (hs : Saving X dir index stage) :
    Saving X dir' index stage := by
  cases stage <;> simp only [Saving, h] at hs ⊢ <;> exact hs

/-- A step of a call that is not saving, and does not begin to. -/
theorem Kept.moved (h : Kept X start (s, xs ++ call :: ys)) (hb : call.busy = none)
    (hb' : call'.busy = none) (hm : call'.made = call.made) (hstores : s'.stores = s.stores)
    (hindex : s'.dir.index = s.dir.index) : Kept X start (s', xs ++ call' :: ys) := by
  have hsame : (xs ++ call' :: ys).filterMap SnapshotCall.busy =
      (xs ++ call :: ys).filterMap SnapshotCall.busy := by
    rw [filterMap_middle, filterMap_middle, hb, hb']
  obtain ⟨hidle, disk, hopen, hc⟩ | ⟨owner, snapshot, stage, hone, hw, hsave, hc⟩ := h
  · refine .inl ⟨hsame.trans hidle, disk, (openDir_congr hindex).trans hopen, ?_⟩
    rw [hstores]
    exact hc.congr (Made.congr hm)
  · refine .inr ⟨owner, snapshot, stage, hsame.trans hone, hw, ?_, ?_⟩
    · rw [hstores]
      exact hsave.congr hindex
    · rw [hstores]
      exact hc.congr fun id entry => or_congr_left (Made.congr hm id entry)

theorem upToDate_iff : upToDate s call = true ↔
    ∀ owner id entry, (s.stores owner).index[id]? = some entry →
      if id = call.snapshot.instanceId then entry.walOffset ≤ call.snapshot.walOffset
      else Reaches (s.stores call.owner).index id entry := by
  have hall : ∀ owner : StoreOwner, owner ∈ StoreOwner.all := by
    intro owner
    cases owner <;> decide
  simp only [upToDate, List.all_eq_true]
  constructor
  · intro h owner id entry hget
    have := h owner (hall owner) (id, entry) (Table.mem_toList.mpr hget)
    by_cases hid : id = call.snapshot.instanceId
    · simpa [hid] using this
    · simpa [hid, Reaches, Option.any_eq_true] using this
  · rintro h owner - ⟨id, entry⟩ hmem
    have := h owner id entry (Table.mem_toList.mp hmem)
    by_cases hid : id = call.snapshot.instanceId
    · simpa [hid] using this
    · simpa [hid, Reaches, Option.any_eq_true] using this

theorem Kept.enter (h : Kept X start (s, xs ++ call :: ys)) (hpc : call.pc = .written)
    (idle : (xs ++ call :: ys).filterMap SnapshotCall.busy = [])
    (current : upToDate s call = true)
    (hw : X.snapshotWrite call.snapshot.snapshotId ≠ .noIndex)
    (hn : SnapshotCall.next X s call = some (s', call')) :
    Kept X start (s', xs ++ call' :: ys) := by
  obtain ⟨-, disk, hopen, hc⟩ | ⟨_, _, _, hone, -⟩ := h
  · have hb : call.busy = none := by simp [SnapshotCall.busy, hpc]
    have hm : call.made = none := by simp [SnapshotCall.made, hpc]
    simp only [SnapshotCall.next, hpc] at hn
    split at hn
    · cases hn
    cases hn
    rw [upToDate_iff] at current
    let entry := SnapshotStore.entryOf X.toStorageExternals call.snapshot
    let index := (s.stores call.owner).index.insert call.snapshot.instanceId entry
    have hown : (s.setStore call.owner ⟨index⟩).stores call.owner = ⟨index⟩ := by
      simp [SharedSnapshots.setStore]
    have hother {owner : StoreOwner} (ho : owner ≠ call.owner) :
        (s.setStore call.owner ⟨index⟩).stores owner = s.stores owner := by
      simp [SharedSnapshots.setStore, ho]
    -- what either memory had, the new index reaches
    have hreach : ∀ owner id e, (s.stores owner).index[id]? = some e → Reaches index id e := by
      intro owner id e hget
      have hdate := current owner id e hget
      by_cases hid : id = call.snapshot.instanceId
      · rw [if_pos hid] at hdate
        exact ⟨entry, by simp [index, hid], hdate⟩
      · rw [if_neg hid] at hdate
        obtain ⟨e', he', hle⟩ := hdate
        exact ⟨e', (Table.getElem?_insert_ne hid).trans he', hle⟩
    refine .inr ⟨call.owner, call.snapshot, .entered, ?_, hw, trivial, ?_⟩
    · have hothers : xs.filterMap SnapshotCall.busy = [] ∧
          ys.filterMap SnapshotCall.busy = [] := by
        rw [filterMap_middle, hb] at idle
        simpa using idle
      rw [filterMap_middle, hothers.1, hothers.2]
      rfl
    · show Complete _ (s.setStore call.owner ⟨index⟩).stores
        ((s.setStore call.owner ⟨index⟩).stores call.owner).index
      rw [hown]
      refine ⟨?_, ?_, ?_⟩
      · rintro id e (hmade | ⟨rfl, rfl⟩)
        · rw [Made.congr (by rw [hm]; rfl)] at hmade
          obtain ⟨e', he', hle⟩ := hc.reaches id e hmade
          obtain ⟨owner, hget⟩ := hc.held id e' he'
          obtain ⟨e'', he'', hle'⟩ := hreach owner id e' hget
          exact ⟨e'', he'', hle.trans hle'⟩
        · exact ⟨entry, by simp [index], Nat.le_refl _⟩
      · intro id e hget
        exact ⟨call.owner, by rw [hown]; exact hget⟩
      · have hold : ∀ owner id e, (s.stores owner).index[id]? = some e →
            Made start (xs ++ { call with pc := .saving .entered } :: ys) id e := by
          intro owner id e hget
          rw [@Made.congr _ _ _ call _ (by rw [hm]; rfl)]
          exact hc.known owner id e hget
        intro owner id e hget
        by_cases ho : owner = call.owner
        · subst ho
          rw [hown] at hget
          by_cases hid : id = call.snapshot.instanceId
          · refine .inr ⟨hid, ?_⟩
            subst hid
            simpa [index, eq_comm] using hget
          · exact .inl (hold call.owner id e ((Table.getElem?_insert_ne hid).symm.trans hget))
        · rw [hother ho] at hget
          exact .inl (hold owner id e hget)
  · rw [hone] at idle
    cases idle

theorem busy_alone {p : StoreOwner × InstanceSnapshot × SaveStage} (hpc : call.pc = .saving stage)
    (hone : (xs ++ call :: ys).filterMap SnapshotCall.busy = [p]) :
    p = (call.owner, call.snapshot, stage) ∧ xs.filterMap SnapshotCall.busy = [] ∧
      ys.filterMap SnapshotCall.busy = [] := by
  have hb : call.busy = some (call.owner, call.snapshot, stage) := by
    simp [SnapshotCall.busy, hpc]
  rw [filterMap_middle, hb] at hone
  cases hl : xs.filterMap SnapshotCall.busy with
  | nil => simpa [hl, eq_comm] using hone
  | cons x xs => simp [hl] at hone

theorem Kept.save (h : Kept X start (s, xs ++ call :: ys)) (hpc : call.pc = .saving stage)
    (hn : SnapshotCall.next X s call = some (s', call')) :
    Kept X start (s', xs ++ call' :: ys) := by
  have hb : call.busy = some (call.owner, call.snapshot, stage) := by
    simp [SnapshotCall.busy, hpc]
  have hm : call.made = none := by simp [SnapshotCall.made, hpc]
  obtain ⟨hidle, -⟩ | ⟨owner, snapshot, stage', hone, hw, hsave, hc⟩ := h
  · simp [hb] at hidle
  · obtain ⟨hp, hl₁, hl₂⟩ := busy_alone hpc hone
    cases hp
    have still {pc : SnapshotPc} {stage' : SaveStage} (hpc' : pc = .saving stage')
        {s' : SharedSnapshots}
        (hstores : s'.stores = s.stores)
        (hsave' : Saving X s'.dir (s.stores call.owner).index stage') :
        Kept X start (s', xs ++ { call with pc := pc } :: ys) := by
      subst hpc'
      refine .inr ⟨call.owner, call.snapshot, stage', ?_, hw, ?_, ?_⟩
      · rw [filterMap_middle, hl₁, hl₂]
        rfl
      · rw [hstores]
        exact hsave'
      · rw [hstores]
        exact hc.congr fun id entry => or_congr_left (Made.congr (by rw [hm]; rfl) id entry)
    cases stage with
    | entered =>
      simp only [SnapshotCall.next, hpc, if_neg hw] at hn
      cases hn
      exact still rfl rfl rfl
    | emptied =>
      simp only [SnapshotCall.next, hpc] at hn
      cases hn
      exact still rfl rfl ⟨[], hsave, rfl, X.pieces_flatten _⟩
    | writing rest position =>
      obtain ⟨file, hfile, rfl, hall⟩ := hsave
      simp only at hfile hall
      cases rest with
      | cons piece rest =>
        simp only [SnapshotCall.next, hpc, hfile, Option.getD_some, writeAt_end] at hn
        cases hn
        exact still rfl rfl ⟨file ++ piece, rfl, by simp, by simpa using hall⟩
      | nil =>
        -- the file is whole, and the call returns
        simp only [SnapshotCall.next, hpc] at hn
        cases hn
        let entry := SnapshotStore.entryOf X.toStorageExternals call.snapshot
        have hmade : ∀ id e, Made start (xs ++ { call with pc := .done (.ok entry) } :: ys) id e ↔
            Made start (xs ++ call :: ys) id e ∨ id = call.snapshot.instanceId ∧ e = entry := by
          intro id e
          have hin : entry.instanceId = call.snapshot.instanceId := rfl
          have hdone : ({ call with pc := .done (.ok entry) } : SnapshotCall).made = some entry :=
            rfl
          simp only [Made, List.mem_append, List.mem_cons, or_and_right, exists_or,
            exists_eq_left, hdone, hm, Option.some.injEq, reduceCtorEq, false_or]
          constructor
          · rintro (h | ⟨hid, h | rfl | h⟩)
            · exact .inl (.inl h)
            · exact .inl (.inr ⟨hid, .inl h⟩)
            · exact .inr ⟨hid.symm.trans hin, rfl⟩
            · exact .inl (.inr ⟨hid, .inr h⟩)
          · rintro ((h | ⟨hid, h | h⟩) | ⟨hid, rfl⟩)
            · exact .inl h
            · exact .inr ⟨hid, .inl h⟩
            · exact .inr ⟨hid, .inr (.inr h)⟩
            · exact .inr ⟨hin.trans hid.symm, .inr (.inl rfl)⟩
        refine .inl ⟨?_, ⟨(s.stores call.owner).index⟩, ?_, hc.congr hmade⟩
        · rw [filterMap_middle, hl₁, hl₂]
          rfl
        · have hread : X.indexFromReader file = some (s.stores call.owner).index := by
            rw [← X.indexFromReader_toVec, ← hall]
            simp
          simp [SnapshotStore.openDir, SharedSnapshots.setReaders, hfile, hread]

theorem Kept.step {op : Sched (StoreOwner × InstanceSnapshot)} {calls' : List SnapshotCall}
    (h : Kept X start (s, calls)) (calm : Undisturbed X (s, calls) op)
    (hs : snapshotSched X (s, calls) op = some (s', calls')) : Kept X start (s', calls') := by
  obtain ⟨p, rfl, rfl, rfl⟩ | ⟨k, xs, call, call', ys, rfl, hk, rfl, hn, rfl⟩ :=
    interleave_cases hs
  · have hbusy : (calls ++ [(⟨p.1, p.2, .started⟩ : SnapshotCall)]).filterMap SnapshotCall.busy =
        calls.filterMap SnapshotCall.busy := by
      rw [filterMap_middle]
      exact List.append_nil _
    have hmade : ∀ id e, Made start (calls ++ [⟨p.1, p.2, .started⟩]) id e ↔
        Made start calls id e := by
      simp [Made, SnapshotCall.made]
    unfold Kept
    rw [hbusy]
    refine h.imp ?_ ?_
    · rintro ⟨hidle, disk, hopen, hc⟩
      exact ⟨hidle, disk, hopen, hc.congr hmade⟩
    · rintro ⟨owner, snapshot, stage, hone, hw, hsave, hc⟩
      exact ⟨owner, snapshot, stage, hone, hw, hsave,
        hc.congr fun id e => or_congr_left (hmade id e)⟩
  · cases hpc : call.pc with
    | started =>
      have hb : call.busy = none := by simp [SnapshotCall.busy, hpc]
      have hm : call.made = none := by simp [SnapshotCall.made, hpc]
      simp only [SnapshotCall.next, hpc] at hn
      split at hn <;> cases hn <;> exact h.moved hb rfl (by rw [hm]; rfl) rfl rfl
    | written =>
      obtain ⟨idle, current, hw⟩ := calm call hk (by simp [SnapshotCall.entering, hpc])
      exact h.enter hpc idle current hw hn
    | saving stage => exact h.save hpc hn
    | done res => simp [SnapshotCall.next, hpc] at hn

/-- On every schedule whose snapshots are entered one at a time, each into an index
that is up to date: when no call is under way, the directory opens with a snapshot for
every instance that has ever had one, the latest that was made for it. -/
theorem reopened_index_complete (X : IndexExternals) {dir : SnapshotDir} {start : SnapshotStore}
    (hopen : SnapshotStore.openDir X.toStorageExternals dir = .ok start)
    {ops : List (Sched (StoreOwner × InstanceSnapshot))}
    {t : SharedSnapshots × List SnapshotCall}
    (calm : Meets (snapshotSched X) (Undisturbed X) (⟨fun _ => start, fun _ => 0, dir⟩, []) ops)
    (hrun : run (snapshotSched X) (⟨fun _ => start, fun _ => 0, dir⟩, []) ops = some t)
    (quiet : t.2.filterMap SnapshotCall.busy = []) :
    ∃ reopened, SnapshotStore.openDir X.toStorageExternals t.1.dir = .ok reopened ∧
      ∀ id entry, Made start t.2 id entry →
        ∃ latest, reopened.index[id]? = some latest ∧ Made start t.2 id latest ∧
          ∀ entry', Made start t.2 id entry' → entry'.walOffset ≤ latest.walOffset := by
  have hstart : Kept X start (⟨fun _ => start, fun _ => 0, dir⟩, []) := by
    refine .inl ⟨rfl, start, hopen, ?_, ?_, ?_⟩
    · rintro id entry (h | ⟨-, _, hnone, -⟩)
      · exact ⟨entry, h, Nat.le_refl _⟩
      · cases hnone
    · exact fun id entry h => ⟨.handler, h⟩
    · exact fun _ id entry h => .inl h
  obtain ⟨-, disk, hdisk, hc⟩ | ⟨_, _, _, hone, -⟩ := run_keeps_of_meets
    (P := Kept X start) (fun _ _ _ h hg hs => h.step hg hs) hstart calm hrun
  · refine ⟨disk, hdisk, fun id entry hmade => ?_⟩
    obtain ⟨latest, hget, -⟩ := hc.reaches id entry hmade
    obtain ⟨owner, hown⟩ := hc.held id latest hget
    refine ⟨latest, hget, hc.known owner id latest hown, fun entry' hmade' => ?_⟩
    obtain ⟨latest', hget', hle⟩ := hc.reaches id entry' hmade'
    rw [hget] at hget'
    cases hget'
    exact hle
  · rw [hone] at quiet
    cases quiet

end

/-- `serde_json`, with an index that leaves the buffer as a whole. -/
noncomputable def serdeIndex : IndexExternals where
  toStorageExternals := serdeStorage
  pieces data := [data]
  pieces_flatten _ := by simp

/-- A snapshot of an instance at an offset. -/
def loopSnapshot (snapshotId instanceId : String) (walOffset : Nat) : InstanceSnapshot :=
  ⟨snapshotId, instanceId, "m", 1, "a", .null, walOffset⟩

/-- The two stores as `main` opens them on an empty directory. -/
def bothFresh : SharedSnapshots := ⟨fun _ => ⟨∅⟩, fun _ => 0, .empty⟩

/-- One snapshot after another, each by its store. -/
def savedInTurn (first second : StoreOwner × InstanceSnapshot) :
    List (Sched (StoreOwner × InstanceSnapshot)) :=
  .spawn first :: List.replicate 6 (.step 0) ++ .spawn second :: List.replicate 6 (.step 1)

/-- Both stores take a snapshot of one instance, the second one a later. -/
theorem reopened_index_complete_of_one :
    ∃ t, run (snapshotSched serdeIndex) (bothFresh, [])
        (savedInTurn (.handler, loopSnapshot "s1" "i" 5) (.manager, loopSnapshot "s2" "i" 7)) =
          some t ∧
      (t.2.filterMap SnapshotCall.made).map SnapshotMeta.walOffset = [5, 7] ∧
      ∃ reopened, SnapshotStore.openDir serdeStorage t.1.dir = .ok reopened ∧
        ∀ id entry, Made ⟨∅⟩ t.2 id entry →
          ∃ latest, reopened.index[id]? = some latest ∧ Made ⟨∅⟩ t.2 id latest ∧
            ∀ entry', Made ⟨∅⟩ t.2 id entry' → entry'.walOffset ≤ latest.walOffset := by
  refine run_exists (p := fun t =>
    (t.2.filterMap SnapshotCall.made).map SnapshotMeta.walOffset = [5, 7] ∧
      t.2.filterMap SnapshotCall.busy = []) (by decide +kernel) ?_
  rintro t hrun ⟨hmade, hquiet⟩
  exact ⟨hmade, @reopened_index_complete serdeIndex .empty _ rfl _ _ (by decide +kernel) hrun
    hquiet⟩

set_option maxRecDepth 4000 in
/-- The compaction manager takes a snapshot of `j`, and then the handler one of `i`,
of whose index `j` has never been a part. -/
theorem index_overwritten :
    ∃ t, run (snapshotSched serdeIndex) (bothFresh, [])
        (savedInTurn (.manager, loopSnapshot "s1" "j" 5) (.handler, loopSnapshot "s2" "i" 7)) =
          some t ∧
      (t.2.filterMap SnapshotCall.made).map SnapshotMeta.instanceId = ["j", "i"] ∧
      ∃ reopened, SnapshotStore.openDir serdeStorage t.1.dir = .ok reopened ∧
        reopened.index.contains "j" = false := by
  refine run_exists (p := fun t =>
    (t.2.filterMap SnapshotCall.made).map SnapshotMeta.instanceId = ["j", "i"] ∧
      t.1.dir.index = some (serdeStorage.indexToVec (t.1.stores .handler).index) ∧
      (t.1.stores .handler).index.contains "j" = false) (by decide +kernel) ?_
  rintro t - ⟨hmade, hfile, hlost⟩
  refine ⟨hmade, t.1.stores .handler, ?_, hlost⟩
  simp [SnapshotStore.openDir, hfile, serdeStorage.indexFromReader_toVec]

end Rstmdb
