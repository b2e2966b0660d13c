import Rstmdb.Core.Recovery
import Rstmdb.Storage.Store

/-! What the storage layer restores: snapshots, and on top of them whatever is left of
the log. An entry sets the state and context of its instance as a whole, so entries
from before a snapshot do no harm as long as the later ones follow. -/
namespace Rstmdb
open Json (Value)

/-- What an instance is, without the last event's id and place in the log. -/
def Instance.restored (i : Instance) : (String × UInt32) × (String × Value) × InstanceState :=
  ((i.machine, i.version), (i.state, i.ctx), i.instanceState)

/-- The state and context that an event's entry sets. -/
def WalEntry.sets : WalEntry → Option (String × Value)
  | .applyEvent _ _ _ toState _ ctx _ _ => some (toState, ctx)
  | _ => none

def WalEntry.isDelete : WalEntry → Bool
  | .deleteInstance .. => true
  | _ => false

/-- The entries of an instance. -/
def ownEntries (id : String) (es : List WalEntry) : List WalEntry :=
  es.filter (·.instanceId = some id)

/-- What the last of the events sets. -/
def lastSet (es : List WalEntry) : Option (String × Value) := (es.filterMap WalEntry.sets).getLast?

theorem ownEntries_append (id : String) (es fs : List WalEntry) :
    ownEntries id (es ++ fs) = ownEntries id es ++ ownEntries id fs :=
  List.filter_append _ _

theorem lastSet_append (es fs : List WalEntry) :
    lastSet (es ++ fs) = (lastSet fs).or (lastSet es) := by
  rw [lastSet, List.filterMap_append, List.getLast?_append]
  rfl

/-! ## Replay, instance by instance -/

/-- What an entry does to the instance that it is about. -/
def Instance.changed (i : Option Instance) : WalEntry → Option Instance
  | .createInstance id machine version initialState initialCtx _ =>
    some (i.getD (.new id machine version initialState initialCtx 0))
  | .applyEvent _ _ _ toState _ ctx eventId _ => i.map (·.applyTransition toState ctx eventId 0)
  | .deleteInstance .. => i.map (·.softDelete 0)
  | _ => i

namespace Instances

variable {is : Instances} {id : String}

theorem update_get {f : Instance → Instance} (k : String) (keeps : ∀ i, (f i).id = i.id) :
    (is.update k f).table[id]? = if k = id then (is.table[id]?).map f else is.table[id]? := by
  unfold update
  by_cases hid : k = id
  · subst hid
    rw [if_pos rfl]
    cases hk : is.table[k]? with
    | none => exact hk
    | some i =>
      have hput := is.put_self (f i)
      rw [keeps i, is.named k i hk] at hput
      exact hput
  · rw [if_neg hid]
    cases hk : is.table[k]? with
    | none => rfl
    | some i =>
      have hname : (f i).id = k := (keeps i).trans (is.named k i hk)
      exact is.put_of_ne fun he => hid (hname.symm.trans he.symm)

theorem applyWalEntry_get (e : WalEntry) :
    (is.applyWalEntry e).table[id]? =
      if e.instanceId = some id then Instance.changed is.table[id]? e else is.table[id]? := by
  cases e with
  | putMachine | checkpoint => rfl
  | snapshot k =>
    simp only [applyWalEntry, Instance.changed, ite_self]
  | createInstance k machine version initialState initialCtx =>
    simp only [applyWalEntry, WalEntry.instanceId, Option.some.injEq, Instance.changed]
    by_cases hk : k = id
    · subst hk
      cases hget : is.table[k]? with
      | none =>
        have hnone : is.table.contains k = false := Table.contains_eq_false hget
        rw [hnone, if_neg (by decide), if_pos rfl]
        exact is.put_self (.new k machine version initialState initialCtx 0)
      | some i =>
        have hsome : is.table.contains k = true := by
          rw [Std.ExtTreeMap.contains_eq_isSome_getElem?, hget]
          rfl
        simp [hsome, hget]
    · rw [if_neg hk]
      split
      · rfl
      · exact is.put_of_ne (Ne.symm hk)
  | applyEvent | deleteInstance =>
    simp only [applyWalEntry, WalEntry.instanceId, Option.some.injEq, Instance.changed]
    apply update_get
    exact fun i => rfl

theorem applyWalEntries_get (es : List WalEntry) :
    (is.applyWalEntries es).table[id]? =
      (ownEntries id es).foldl Instance.changed is.table[id]? := by
  induction es generalizing is with
  | nil => rfl
  | cons e es ih =>
    have hrest := @ih (is.applyWalEntry e)
    rw [applyWalEntry_get] at hrest
    rw [applyWalEntries, List.foldl_cons]
    refine hrest.trans ?_
    by_cases he : e.instanceId = some id
    · simp [ownEntries, he]
    · simp [ownEntries, he]

end Instances

/-- An instance after some of its entries. -/
theorem Instance.foldl_changed (i : Instance) (es : List WalEntry) :
    ∃ j, es.foldl changed (some i) = some j ∧
      j.restored = ((i.machine, i.version), (lastSet es).getD (i.state, i.ctx),
        if es.any WalEntry.isDelete then .deleted else i.instanceState) := by
  induction es generalizing i with
  | nil => exact ⟨i, rfl, rfl⟩
  | cons e es ih =>
    have hlast : lastSet (e :: es) = (lastSet es).or e.sets := by
      rw [← List.singleton_append, lastSet_append]
      cases hs : e.sets <;> simp [lastSet, hs]
    cases e with
    | applyEvent id event fromState toState payload ctx eventId =>
      obtain ⟨j, hj, hr⟩ := ih (i.applyTransition toState ctx eventId 0)
      refine ⟨j, hj, ?_⟩
      rw [hr, hlast]
      cases hs : lastSet es <;> simp [WalEntry.sets, WalEntry.isDelete, applyTransition]
    | deleteInstance id =>
      obtain ⟨j, hj, hr⟩ := ih (i.softDelete 0)
      refine ⟨j, hj, ?_⟩
      rw [hr, hlast]
      simp [WalEntry.sets, WalEntry.isDelete, softDelete]
    | putMachine | createInstance | snapshot | checkpoint =>
      obtain ⟨j, hj, hr⟩ := ih i
      refine ⟨j, hj, ?_⟩
      rw [hr, hlast]
      simp [WalEntry.sets, WalEntry.isDelete]

theorem Instance.foldl_created {e : WalEntry} {id : String} (h : e.creates = some id) :
    ∃ i : Instance, i.instanceState = .active ∧ ∀ es,
      (e :: es).foldl changed none = es.foldl changed (some i) ∧ lastSet (e :: es) = lastSet es ∧
        (e :: es).any WalEntry.isDelete = es.any WalEntry.isDelete := by
  cases e with
  | createInstance k machine version initialState initialCtx =>
    exact ⟨.new k machine version initialState initialCtx 0, rfl, fun es => ⟨rfl, rfl, rfl⟩⟩
  | putMachine | applyEvent | deleteInstance | snapshot | checkpoint => cases h

/-! ## Loading snapshots -/

theorem Instances.get_foldl_put {l : List Instance} {i : Instance}
    (only : ∀ j ∈ l, j.id = i.id → j = i) (is : Instances)
    (h : i ∈ l ∨ is.table[i.id]? = some i) : (l.foldl put is).table[i.id]? = some i := by
  induction l generalizing is with
  | nil =>
    obtain hnil | h := h
    · cases hnil
    · exact h
  | cons j l ih =>
    have hrest := ih fun k hk => only k (List.mem_cons_of_mem _ hk)
    by_cases hid : j.id = i.id
    · obtain rfl := only j List.mem_cons_self hid
      exact hrest _ (.inr (is.put_self j))
    · apply hrest
      obtain hmem | hget := h
      · obtain rfl | hmem := List.mem_cons.mp hmem
        · exact absurd rfl hid
        · exact .inl hmem
      · exact .inr ((is.put_of_ne (Ne.symm hid)).trans hget)

theorem Instances.get_foldl_put_none {l : List Instance} {id : String}
    (absent : ∀ j ∈ l, j.id ≠ id) (is : Instances) :
    (l.foldl put is).table[id]? = is.table[id]? := by
  induction l generalizing is with
  | nil => rfl
  | cons j l ih =>
    rw [List.foldl_cons, ih fun k hk => absent k (List.mem_cons_of_mem _ hk)]
    exact is.put_of_ne (Ne.symm (absent j List.mem_cons_self))

namespace SnapshotStore

/-- The store and its directory hold these snapshots, one for each of their instances. -/
structure Holding (X : StoreExternals) (store : SnapshotStore) (dir : SnapshotDir)
    (snapshots : List InstanceSnapshot) : Prop where
  index : ∀ id entry, store.index[id]? = some entry ↔
    ∃ s ∈ snapshots, s.instanceId = id ∧ entry = entryOf X.toStorageExternals s
  files : ∀ s ∈ snapshots, dir.files[s.snapshotId]? = some (X.snapshotToVec s)
  distinct : (snapshots.map InstanceSnapshot.snapshotId).Nodup
  word : ∀ s ∈ snapshots, s.walOffset < 2 ^ 64

section
variable {X : StoreExternals} {store store' : SnapshotStore} {dir dir' : SnapshotDir}
  {snapshots : List InstanceSnapshot}

theorem holding_empty (X : StoreExternals) : Holding X ⟨∅⟩ .empty [] := by
  refine ⟨?_, ?_, .nil, ?_⟩ <;> simp

/-- A snapshot made under a new id takes the place of its instance's old one. -/
theorem Holding.createSnapshot (h : Holding X store dir snapshots) {s : InstanceSnapshot}
    {entry : SnapshotMeta} (fresh : ∀ s' ∈ snapshots, s'.snapshotId ≠ s.snapshotId)
    (hword : s.walOffset < 2 ^ 64)
    (hc : store.createSnapshot X.toStorageExternals dir s = (store', dir', .ok entry)) :
    Holding X store' dir' (snapshots.filter (·.instanceId ≠ s.instanceId) ++ [s]) := by
  obtain ⟨hindex, hfiles⟩ : store'.index = store.index.insert s.instanceId
        (entryOf X.toStorageExternals s) ∧
      dir'.files = dir.files.insert s.snapshotId (X.snapshotToVec s) := by
    simp only [SnapshotStore.createSnapshot] at hc
    split at hc
    · cases hc
    split at hc
    · cases hc
    · cases hc
      exact ⟨rfl, rfl⟩
  refine ⟨?_, ?_, ?_, ?_⟩
  · intro id e
    rw [hindex]
    simp only [List.mem_append, List.mem_filter, List.mem_singleton, decide_eq_true_eq]
    by_cases hid : id = s.instanceId
    · subst hid
      rw [Std.ExtTreeMap.getElem?_insert_self, Option.some.injEq]
      constructor
      · rintro rfl
        exact ⟨s, .inr rfl, rfl, rfl⟩
      · rintro ⟨s', ⟨-, hne⟩ | rfl, he, rfl⟩
        · exact absurd he hne
        · rfl
    · rw [Table.getElem?_insert_ne hid, h.index]
      constructor
      · rintro ⟨s', hs', rfl, he⟩
        exact ⟨s', .inl ⟨hs', hid⟩, rfl, he⟩
      · rintro ⟨s', ⟨hs', -⟩ | rfl, he, rfl⟩
        · exact ⟨s', hs', he, rfl⟩
        · exact absurd he.symm hid
  · intro s' hs'
    rw [hfiles]
    obtain hs' | hs' := List.mem_append.mp hs'
    · have hmem := List.mem_of_mem_filter hs'
      rw [Table.getElem?_insert_ne (fresh s' hmem)]
      exact h.files s' hmem
    · rw [List.mem_singleton.mp hs']
      simp
  · rw [List.map_append, List.map_singleton, List.nodup_append]
    refine ⟨h.distinct.sublist (List.filter_sublist.map _), List.nodup_singleton _, ?_⟩
    intro a ha b hb
    obtain ⟨s', hs', rfl⟩ := List.mem_map.mp ha
    rw [List.mem_singleton.mp hb]
    exact fresh s' (List.mem_of_mem_filter hs')
  · intro s' hs'
    obtain hs' | hs' := List.mem_append.mp hs'
    · exact h.word s' (List.mem_of_mem_filter hs')
    · rw [List.mem_singleton.mp hs']
      exact hword

theorem Holding.one (h : Holding X store dir snapshots) {s s' : InstanceSnapshot}
    (hs : s ∈ snapshots) (hs' : s' ∈ snapshots) (hid : s.snapshotId = s'.snapshotId) : s = s' :=
  List.inj_on_of_nodup_map h.distinct hs hs' hid

theorem loadSnapshot_ok {snapshotId : String} {data : Bytes} {snapshot : InstanceSnapshot}
    (hdata : dir.files[snapshotId]? = some data)
    (hsum : ∀ entry ∈ store.index.values, entry.snapshotId = snapshotId →
      hex8 (X.crc32c data) = entry.checksum)
    (hread : X.snapshotFromSlice data = some snapshot) :
    store.loadSnapshot X dir snapshotId = .ok snapshot := by
  have hcheck : (store.index.values.find? (·.snapshotId = snapshotId)).any
      (hex8 (X.crc32c data) ≠ ·.checksum) = false := by
    cases hf : store.index.values.find? (·.snapshotId = snapshotId) with
    | none => rfl
    | some entry =>
      have hsame := List.find?_some hf
      simp [hsum entry (List.mem_of_find?_eq_some hf) (of_decide_eq_true hsame)]
  simp only [SnapshotStore.loadSnapshot, hdata, hcheck, Bool.false_eq_true, if_false, hread]

theorem Holding.loadSnapshot (h : Holding X store dir snapshots) {s : InstanceSnapshot}
    (hs : s ∈ snapshots) : store.loadSnapshot X dir s.snapshotId = .ok s := by
  refine loadSnapshot_ok (h.files s hs) ?_ (X.snapshotFromSlice_toVec s (h.word s hs))
  intro entry hentry hsame
  obtain ⟨id, hid⟩ := Table.mem_values.mp hentry
  obtain ⟨s', hs', -, rfl⟩ := (h.index id entry).mp hid
  rw [h.one hs' hs hsame]
  rfl

end

/-- What has been made is there when the directory is opened again. -/
theorem openDir_created {X : StorageExternals} {store store' : SnapshotStore}
    {dir dir' : SnapshotDir} {snapshot : InstanceSnapshot} {entry : SnapshotMeta}
    (h : store.createSnapshot X dir snapshot = (store', dir', .ok entry)) :
    openDir X dir' = .ok store' := by
  simp only [createSnapshot] at h
  split at h
  · cases h
  · split at h <;> cases h
    simp only [openDir, X.indexFromReader_toVec]

end SnapshotStore

namespace Storage

variable {X : StoreExternals} {s : Storage} {snapshots : List InstanceSnapshot}

theorem loadSnapshots_eq (X : StoreExternals) (s : Storage) :
    s.loadSnapshots X = (s.snapshots.listSnapshots.filterMap fun entry =>
      (s.snapshots.loadSnapshot X s.snapshotDir entry.snapshotId).toOption.map
        InstanceSnapshot.toInstance).foldl Instances.put s.instances := by
  rw [List.foldl_filterMap, loadSnapshots]
  congr 1
  funext is entry
  cases s.snapshots.loadSnapshot X s.snapshotDir entry.snapshotId <;> rfl

section
variable (h : s.snapshots.Holding X s.snapshotDir snapshots)
include h

theorem mem_loaded {i : Instance} :
    i ∈ (s.snapshots.listSnapshots.filterMap fun entry =>
        (s.snapshots.loadSnapshot X s.snapshotDir entry.snapshotId).toOption.map
          InstanceSnapshot.toInstance) ↔ ∃ snapshot ∈ snapshots, snapshot.toInstance = i := by
  simp only [List.mem_filterMap, SnapshotStore.listSnapshots, Table.mem_values]
  constructor
  · rintro ⟨entry, ⟨id, hid⟩, hload⟩
    obtain ⟨snapshot, hs, -, rfl⟩ := (h.index id entry).mp hid
    refine ⟨snapshot, hs, ?_⟩
    rw [SnapshotStore.entryOf, h.loadSnapshot hs] at hload
    exact Option.some.inj hload
  · rintro ⟨snapshot, hs, rfl⟩
    refine ⟨_, ⟨snapshot.instanceId, (h.index _ _).mpr ⟨snapshot, hs, rfl, rfl⟩⟩, ?_⟩
    rw [SnapshotStore.entryOf, h.loadSnapshot hs]
    rfl

theorem loadSnapshots_get {snapshot : InstanceSnapshot} (hs : snapshot ∈ snapshots) :
    (s.loadSnapshots X).table[snapshot.instanceId]? = some snapshot.toInstance := by
  rw [loadSnapshots_eq]
  refine Instances.get_foldl_put (i := snapshot.toInstance) ?_ _
    (.inl ((mem_loaded h).mpr ⟨snapshot, hs, rfl⟩))
  intro j hj hid
  obtain ⟨snapshot', hs', rfl⟩ := (mem_loaded h).mp hj
  have hentry := (h.index snapshot.instanceId _).mpr ⟨snapshot', hs', hid, rfl⟩
  rw [(h.index _ _).mpr ⟨snapshot, hs, rfl, rfl⟩] at hentry
  have hsame : snapshot.snapshotId = snapshot'.snapshotId :=
    congrArg SnapshotMeta.snapshotId (Option.some.inj hentry)
  rw [h.one hs hs' hsame]

theorem loadSnapshots_get_none {id : String}
    (absent : ∀ snapshot ∈ snapshots, snapshot.instanceId ≠ id) :
    (s.loadSnapshots X).table[id]? = s.instances.table[id]? := by
  rw [loadSnapshots_eq]
  apply Instances.get_foldl_put_none
  intro j hj
  obtain ⟨snapshot, hs, rfl⟩ := (mem_loaded h).mp hj
  exact absent snapshot hs

end

/-! ## Recovery -/

/-- What `recover` reads of a log: the entries that do not lie before the start of the
first segment. -/
def returned {X : Externals} (cs : List (Chunk X)) : List WalEntry :=
  let earliest := ((cs.map Chunk.id).head?.map (WalOffset.pack · 0)).getD ⟨0⟩
  ((entries cs).filter (earliest.asU64 ≤ ·.2.1.asU64)).map (·.2.2)

theorem recover_eq {pre : List (Chunk X.toExternals)} {c : Chunk X.toExternals}
    (h : s.wal.Repr pre c) :
    ∃ wal, s.recover X = some (.ok { s with
      wal, instances := (s.loadSnapshots X).applyWalEntries (returned (pre ++ [c])) }) := by
  let earliest := ((pre ++ [c]).map Chunk.id).head?.map (WalOffset.pack · 0) |>.getD ⟨0⟩
  have hearliest : s.wal.earliestOffset.getD ⟨0⟩ = earliest := by
    rw [Wal.earliestOffset, h.keys]
  obtain ⟨stats, hread⟩ := h.readFrom_start earliest none
  refine ⟨{ s.wal with stats }, ?_⟩
  simp only [recover, hearliest, hread, returned]
  rfl

/-- With ids that fit into an offset, all that is there is read. -/
theorem returned_of_ids {X : Externals} {cs : List (Chunk X)}
    (asc : cs.Pairwise fun d d' => d.id < d'.id) (ids : ∀ d ∈ cs, d.id < 2 ^ 24) :
    returned cs = (entries cs).map (·.2.2) := by
  rw [returned, List.filter_eq_self.mpr]
  intro p hp
  apply decide_eq_true
  obtain ⟨d, hd, hpd⟩ := mem_entries.mp hp
  obtain ⟨o, ho, hoff⟩ := Chunk.mem_entries hpd
  cases cs with
  | nil => cases hd
  | cons d₀ ds =>
    have hid := ids d hd
    have hid₀ := ids d₀ List.mem_cons_self
    have hle : d₀.id ≤ d.id := by
      obtain rfl | hd := List.mem_cons.mp hd
      · exact Nat.le_refl _
      · exact Nat.le_of_lt ((List.pairwise_cons.mp asc).1 d hd)
    simp only [List.map_cons, List.head?_cons, Option.map_some, Option.getD_some, hoff]
    rw [WalOffset.pack_asU64 d₀.id (Nat.zero_le _), WalOffset.pack_asU64 d.id ho,
      Nat.mod_eq_of_lt hid, Nat.mod_eq_of_lt hid₀]
    exact Nat.add_le_add (Nat.mul_le_mul_right _ hle) (Nat.zero_le _)

/-- An instance's entries begin with its creation, and a deletion ends them. -/
structure Legal (es : List WalEntry) : Prop where
  created : ∀ id, ∀ e ∈ (ownEntries id es).head?, e.creates = some id
  deletedLast : ∀ id, ∀ e ∈ (ownEntries id es).dropLast, e.isDelete = false

/-- A snapshot of the state that its instance had right after one of its entries. -/
def TakenIn (history : List ReadEntry) (snapshot : InstanceSnapshot) : Prop :=
  ∃ before p after, history = before ++ p :: after ∧
    p.2.2.instanceId = some snapshot.instanceId ∧
    ∃ i,
      (Instances.empty.applyWalEntries ((before ++ [p]).map (·.2.2))).table[snapshot.instanceId]? =
        some i ∧
      snapshot = .fromInstance { i with lastWalOffset := p.2.1.asU64 } snapshot.snapshotId

/-- A storage layer about to recover: its log is what is left of a history, and it has
a snapshot of every instance. Nothing is gone that lies in or behind the segment with
the least snapshot offset. -/
structure Retained (X : StoreExternals) (s : Storage) (lost pre : List (Chunk X.toExternals))
    (c : Chunk X.toExternals) (snapshots : List InstanceSnapshot) : Prop where
  repr : s.wal.Repr pre c
  blank : s.instances = .empty
  ascending : (lost ++ (pre ++ [c])).Pairwise fun d d' => d.id < d'.id
  legal : Legal ((entries (lost ++ (pre ++ [c]))).map (·.2.2))
  held : s.snapshots.Holding X s.snapshotDir snapshots
  taken : ∀ snapshot ∈ snapshots, TakenIn (entries (lost ++ (pre ++ [c]))) snapshot
  everyone : ∀ p ∈ entries (lost ++ (pre ++ [c])), ∀ id ∈ p.2.2.instanceId,
    ∃ snapshot ∈ snapshots, snapshot.instanceId = id
  kept : ∀ o ∈ s.snapshots.minWalOffset, ∀ d ∈ lost, d.id < (⟨o⟩ : WalOffset).segmentId

/-- What is read sets the state and context that the whole history sets, if it sets
any, and has the deletion that the history has. -/
def Rereads (history read : List WalEntry) (snapshot : InstanceSnapshot) : Prop :=
  let own := ownEntries snapshot.instanceId
  (lastSet (own read)).getD (snapshot.state, snapshot.ctx) =
      (lastSet (own history)).getD (snapshot.state, snapshot.ctx) ∧
    ((own history).any WalEntry.isDelete = true → (own read).any WalEntry.isDelete = true)

section
variable {lost pre : List (Chunk X.toExternals)} {c : Chunk X.toExternals}
  {snapshot : InstanceSnapshot} {history : List ReadEntry}

/-- The instance right after the entry that its snapshot was taken after. -/
theorem Legal.first {before after : List ReadEntry} {p : ReadEntry} {id : String}
    (h : Legal ((before ++ p :: after).map (·.2.2))) (hp : p.2.2.instanceId = some id) :
    ∃ e own, e.creates = some id ∧ ownEntries id ((before ++ [p]).map (·.2.2)) = e :: own ∧
      ownEntries id ((before ++ p :: after).map (·.2.2)) =
        e :: (own ++ ownEntries id (after.map (·.2.2))) := by
  obtain ⟨e, own, hown⟩ : ∃ e own, ownEntries id ((before ++ [p]).map (·.2.2)) = e :: own := by
    apply List.exists_cons_of_ne_nil
    have hmem : p.2.2 ∈ ownEntries id ((before ++ [p]).map (·.2.2)) := by simp [ownEntries, hp]
    exact List.ne_nil_of_mem hmem
  have hall : ownEntries id ((before ++ p :: after).map (·.2.2)) =
      e :: (own ++ ownEntries id (after.map (·.2.2))) := by
    rw [List.append_cons, List.map_append, ownEntries_append, hown]
    rfl
  exact ⟨e, own, h.created id e (by rw [hall]; rfl), hown, hall⟩

/-- What a legal history makes of an instance, in terms of a snapshot taken in it. -/
theorem Legal.replayed (h : Legal (history.map (·.2.2))) (ht : TakenIn history snapshot) :
    ∃ i, (Instances.empty.applyWalEntries (history.map (·.2.2))).table[snapshot.instanceId]? =
      some i ∧ i.restored = ((snapshot.machine, snapshot.version),
        (lastSet (ownEntries snapshot.instanceId (history.map (·.2.2)))).getD
          (snapshot.state, snapshot.ctx),
        if (ownEntries snapshot.instanceId (history.map (·.2.2))).any WalEntry.isDelete then
          .deleted
        else .active) := by
  obtain ⟨before, p, after, rfl, hp, i, hi, hsnap⟩ := ht
  obtain ⟨e, own, hcreate, hown, hall⟩ := h.first hp
  obtain ⟨i₀, hactive, hfold⟩ := Instance.foldl_created hcreate
  obtain ⟨j, hj, hr⟩ := i₀.foldl_changed own
  obtain ⟨k, hk, hr'⟩ := i₀.foldl_changed
    (own ++ ownEntries snapshot.instanceId (after.map (·.2.2)))
  obtain ⟨hstart, hset, hdel⟩ := hfold (own ++ ownEntries snapshot.instanceId (after.map (·.2.2)))
  rw [Instances.applyWalEntries_get, hown] at hi
  obtain rfl : j = i := Option.some.inj (hj.symm.trans ((hfold own).1.symm.trans hi))
  rw [Instances.applyWalEntries_get, hall, hset, hdel]
  refine ⟨k, hstart.trans hk, hr'.trans ?_⟩
  -- the snapshot has what the entries up to it set
  obtain ⟨hmachine, hrest⟩ := Prod.mk.inj hr
  obtain ⟨hstate, -⟩ := Prod.mk.inj hrest
  obtain ⟨hmachine, hversion⟩ := Prod.mk.inj hmachine
  have hs : snapshot.state = j.state ∧ snapshot.ctx = j.ctx ∧ snapshot.machine = j.machine ∧
      snapshot.version = j.version := by
    rw [hsnap]
    exact ⟨rfl, rfl, rfl, rfl⟩
  rw [hs.1, hs.2.1, hs.2.2.1, hs.2.2.2, hstate, hmachine, hversion, lastSet_append, hactive]
  cases lastSet (ownEntries snapshot.instanceId (after.map (·.2.2))) <;> cases lastSet own <;> rfl

namespace Retained

theorem returned_subset (lost : List (Chunk X.toExternals)) {id : String} {e : WalEntry}
    (he : e ∈ ownEntries id (returned (pre ++ [c]))) :
    e ∈ ownEntries id ((entries (lost ++ (pre ++ [c]))).map (·.2.2)) := by
  obtain ⟨hmem, hid⟩ := List.mem_filter.mp he
  obtain ⟨p, hp, rfl⟩ := List.mem_map.mp hmem
  refine List.mem_filter.mpr ⟨List.mem_map.mpr ⟨p, ?_, rfl⟩, hid⟩
  rw [entries_append]
  exact List.mem_append_right _ (List.mem_of_mem_filter hp)

variable (h : Retained X s lost pre c snapshots)
include h

theorem recovered (hs : snapshot ∈ snapshots) :
    ∃ i, ((s.loadSnapshots X).applyWalEntries (returned (pre ++ [c]))).table[snapshot.instanceId]? =
        some i ∧
      i.restored = ((snapshot.machine, snapshot.version),
        (lastSet (ownEntries snapshot.instanceId (returned (pre ++ [c])))).getD
          (snapshot.state, snapshot.ctx),
        if (ownEntries snapshot.instanceId (returned (pre ++ [c]))).any WalEntry.isDelete then
          .deleted
        else .active) := by
  rw [Instances.applyWalEntries_get, loadSnapshots_get h.held hs]
  exact snapshot.toInstance.foldl_changed _

theorem restored_iff (hs : snapshot ∈ snapshots) :
    (((s.loadSnapshots X).applyWalEntries (returned (pre ++ [c]))).table[snapshot.instanceId]?).map
        Instance.restored =
      ((Instances.empty.applyWalEntries ((entries (lost ++ (pre ++ [c]))).map
        (·.2.2))).table[snapshot.instanceId]?).map Instance.restored ↔
      Rereads ((entries (lost ++ (pre ++ [c]))).map (·.2.2)) (returned (pre ++ [c])) snapshot := by
  obtain ⟨i, hi, hr⟩ := h.recovered hs
  obtain ⟨j, hj, hr'⟩ := h.legal.replayed (h.taken snapshot hs)
  have hsub :
      (ownEntries snapshot.instanceId (returned (pre ++ [c]))).any WalEntry.isDelete = true →
      (ownEntries snapshot.instanceId ((entries (lost ++ (pre ++ [c]))).map (·.2.2))).any
        WalEntry.isDelete = true := by
    simp only [List.any_eq_true]
    rintro ⟨e, he, hd⟩
    exact ⟨e, returned_subset lost he, hd⟩
  rw [hi, hj, Option.map_some, Option.map_some, Option.some.injEq, hr, hr', Rereads]
  simp only [Prod.mk.injEq, true_and]
  refine and_congr_right fun _ => ?_
  generalize (ownEntries snapshot.instanceId (returned (pre ++ [c]))).any WalEntry.isDelete = a
    at hsub ⊢
  generalize (ownEntries snapshot.instanceId ((entries (lost ++ (pre ++ [c]))).map (·.2.2))).any
    WalEntry.isDelete = b at hsub ⊢
  revert hsub
  cases a <;> cases b <;> simp

theorem absent {id : String} (hid : ∀ snapshot ∈ snapshots, snapshot.instanceId ≠ id) :
    ((s.loadSnapshots X).applyWalEntries (returned (pre ++ [c]))).table[id]? = none ∧
      (Instances.empty.applyWalEntries
        ((entries (lost ++ (pre ++ [c]))).map (·.2.2))).table[id]? = none := by
  have hown : ownEntries id ((entries (lost ++ (pre ++ [c]))).map (·.2.2)) = [] := by
    rw [List.eq_nil_iff_forall_not_mem]
    intro e he
    obtain ⟨hmem, he⟩ := List.mem_filter.mp he
    obtain ⟨p, hp, rfl⟩ := List.mem_map.mp hmem
    obtain ⟨snapshot, hs, hid'⟩ := h.everyone p hp id (of_decide_eq_true he)
    exact hid snapshot hs hid'
  have hread : ownEntries id (returned (pre ++ [c])) = [] := by
    rw [List.eq_nil_iff_forall_not_mem]
    intro e he
    have := returned_subset lost he
    rw [hown] at this
    cases this
  have hblank : Instances.empty.table[id]? = none := by simp [Instances.empty]
  rw [Instances.applyWalEntries_get, Instances.applyWalEntries_get, hown, hread,
    loadSnapshots_get_none h.held hid, h.blank]
  exact ⟨hblank, hblank⟩

/-- The entry that a snapshot was taken after is still there. -/
theorem taken_kept (hs : snapshot ∈ snapshots) :
    ∃ before p after, entries (pre ++ [c]) = before ++ p :: after ∧
      p.2.2.instanceId = some snapshot.instanceId ∧
      ∃ i, (Instances.empty.applyWalEntries
          ((entries lost ++ before ++ [p]).map (·.2.2))).table[snapshot.instanceId]? = some i ∧
        snapshot = .fromInstance { i with lastWalOffset := p.2.1.asU64 } snapshot.snapshotId := by
  obtain ⟨before, p, after, hall, hp, i, hi, hsnap⟩ := h.taken snapshot hs
  have hkept : p ∉ entries lost := by
    intro hmem
    obtain ⟨d, hd, hpd⟩ := mem_entries.mp hmem
    obtain ⟨o, ho, hoff⟩ := Chunk.mem_entries hpd
    have hoffset : snapshot.walOffset = p.2.1.asU64 := by
      rw [hsnap]
      rfl
    have hindex : snapshot.walOffset ∈ s.snapshots.offsets := SnapshotStore.mem_offsets.mpr
      ⟨_, _, (h.held.index _ _).mpr ⟨snapshot, hs, rfl, rfl⟩, rfl⟩
    obtain ⟨least, hleast⟩ : ∃ least, s.snapshots.minWalOffset = some least :=
      Option.ne_none_iff_exists'.mp fun hnone => by
        have hnil : s.snapshots.offsets = [] := List.min?_eq_none_iff.mp hnone
        rw [hnil] at hindex
        cases hindex
    have hle : least ≤ snapshot.walOffset :=
      (List.min?_eq_some_iff.mp hleast).2 snapshot.walOffset hindex
    have hseg : (⟨least⟩ : WalOffset).segmentId ≤ d.id := by
      calc (⟨least⟩ : WalOffset).segmentId
          ≤ (WalOffset.pack d.id o).segmentId := by
            rw [hoffset, hoff] at hle
            simp only [WalOffset.segmentId, Nat.shiftRight_eq_div_pow]
            exact Nat.div_le_div_right hle
        _ = d.id % 2 ^ 24 := WalOffset.pack_segmentId d.id ho
        _ ≤ d.id := Nat.mod_le _ _
    exact Nat.lt_irrefl _ (Nat.lt_of_lt_of_le (h.kept least hleast d hd) hseg)
  rw [entries_append] at hall
  obtain ⟨more, hlost, hrest⟩ | ⟨more, hbefore, hrest⟩ := List.append_eq_append_iff.mp hall
  · refine ⟨more, p, after, hrest, hp, i, ?_, hsnap⟩
    rw [← hlost]
    exact hi
  · cases more with
    | nil =>
      refine ⟨[], p, after, hrest.symm, hp, i, ?_, hsnap⟩
      rw [List.append_nil] at hbefore
      rw [hbefore, List.append_nil]
      exact hi
    | cons q more =>
      obtain ⟨rfl, -⟩ := List.cons.inj hrest
      exact absurd (by simp [hbefore]) hkept

/-- With ids that fit into an offset, what is read comes to the same end. -/
theorem rereads_of_ids (ids : ∀ d ∈ pre ++ [c], d.id < 2 ^ 24) (hs : snapshot ∈ snapshots) :
    Rereads ((entries (lost ++ (pre ++ [c]))).map (·.2.2)) (returned (pre ++ [c])) snapshot := by
  obtain ⟨before, p, after, hkept, hp, i, hi, hsnap⟩ := h.taken_kept hs
  have hlegal := h.legal
  rw [returned_of_ids h.repr.holds.ascending ids, Rereads]
  rw [entries_append lost] at hlegal ⊢
  simp only [List.map_append, ownEntries_append]
  constructor
  · cases hlast : lastSet (ownEntries snapshot.instanceId ((entries (pre ++ [c])).map (·.2.2))) with
    | some x => rw [lastSet_append, hlast]; rfl
    | none =>
      -- no event is left, so the snapshot was taken after the last one
      rw [lastSet_append, hlast, Option.none_or]
      rw [hkept, ← List.append_assoc] at hlegal
      obtain ⟨e, own, hcreate, hown, -⟩ := hlegal.first hp
      obtain ⟨i₀, -, hfold⟩ := Instance.foldl_created hcreate
      obtain ⟨j, hj, hr⟩ := i₀.foldl_changed own
      rw [Instances.applyWalEntries_get, hown] at hi
      obtain rfl : j = i := Option.some.inj (hj.symm.trans ((hfold own).1.symm.trans hi))
      have hset : lastSet own = lastSet (ownEntries snapshot.instanceId
          ((entries lost).map (·.2.2))) := by
        rw [← (hfold own).2.1, ← hown]
        rw [hkept, List.append_cons, List.map_append, ownEntries_append, lastSet_append] at hlast
        obtain ⟨-, hnone⟩ := Option.or_eq_none_iff.mp hlast
        rw [List.append_assoc, List.map_append, ownEntries_append, lastSet_append, hnone]
        rfl
      have hstate : (snapshot.state, snapshot.ctx) = (lastSet own).getD (i₀.state, i₀.ctx) := by
        rw [hsnap]
        exact congrArg (·.2.1) hr
      rw [← hset, hstate]
      cases lastSet own <;> rfl
  · simp only [List.any_eq_true]
    rintro ⟨e, he, hd⟩
    have hne : ownEntries snapshot.instanceId ((entries (pre ++ [c])).map (·.2.2)) ≠ [] := by
      have hmem : p.2.2 ∈ ownEntries snapshot.instanceId ((entries (pre ++ [c])).map (·.2.2)) := by
        simp [ownEntries, hp, hkept]
      exact List.ne_nil_of_mem hmem
    have hlast := hlegal.deletedLast snapshot.instanceId
    rw [List.map_append, ownEntries_append, List.dropLast_append_of_ne_nil hne] at hlast
    obtain he | he := List.mem_append.mp he
    · have hno := hlast e (List.mem_append_left _ he)
      rw [hd] at hno
      cases hno
    · exact ⟨e, he, hd⟩

end Retained

end

/-- Snapshots and what is left of the log restore every instance as a replay of the
whole history gives it, exactly if what is read has the last state, context and
deletion of each. So it is whenever the ids of the segments fit into an offset. -/
theorem recover_eq_replay_iff (X : StoreExternals) {s : Storage}
    {lost pre : List (Chunk X.toExternals)} {c : Chunk X.toExternals}
    {snapshots : List InstanceSnapshot} (h : Retained X s lost pre c snapshots) :
    ∃ s', s.recover X = some (.ok s') ∧
      ((∀ id : String, (s'.instances.table[id]?).map Instance.restored =
          ((Instances.empty.applyWalEntries
            ((entries (lost ++ (pre ++ [c]))).map (·.2.2))).table[id]?).map Instance.restored) ↔
        ∀ snapshot ∈ snapshots,
          Rereads ((entries (lost ++ (pre ++ [c]))).map (·.2.2)) (returned (pre ++ [c])) snapshot) ∧
      ((∀ d ∈ pre ++ [c], d.id < 2 ^ 24) → ∀ snapshot ∈ snapshots,
        Rereads ((entries (lost ++ (pre ++ [c]))).map (·.2.2))
          (returned (pre ++ [c])) snapshot) := by
  obtain ⟨wal, hrecover⟩ := recover_eq (X := X) h.repr
  refine ⟨_, hrecover, ?_, fun ids snapshot hs => h.rereads_of_ids ids hs⟩
  constructor
  · intro hall snapshot hs
    exact (h.restored_iff hs).mp (hall snapshot.instanceId)
  · intro hall id
    by_cases hid : ∃ snapshot ∈ snapshots, snapshot.instanceId = id
    · obtain ⟨snapshot, hs, rfl⟩ := hid
      exact (h.restored_iff hs).mpr (hall snapshot hs)
    · have hnone : ∀ snapshot ∈ snapshots, snapshot.instanceId ≠ id :=
        fun snapshot hs he => hid ⟨snapshot, hs, he⟩
      obtain ⟨h₁, h₂⟩ := h.absent hnone
      simp only [h₁, h₂]

/-! ## One instance in two segments -/

def created : WalEntry := .createInstance "i" "m" 1 "a" .null none

def moved : WalEntry := .applyEvent "i" "e" "a" "b" .null .null none none

/-- A segment with one entry. -/
noncomputable def chunkOf (id : SegmentId) (e : WalEntry)
    (fit : (serdeStore.toVec e).length ≤ maxRecordSize) : Chunk serdeStore.toExternals :=
  (Chunk.empty _ id).push (1, e) fit (Nat.zero_le _)

noncomputable def createdChunk (id : SegmentId) : Chunk serdeStore.toExternals :=
  chunkOf id created (by decide +kernel)

noncomputable def movedChunk (id : SegmentId) : Chunk serdeStore.toExternals :=
  chunkOf id moved (by decide +kernel)

theorem chunkOf_entries (id : SegmentId) (e : WalEntry)
    (fit : (serdeStore.toVec e).length ≤ maxRecordSize) :
    (chunkOf id e fit).entries = [(1, WalOffset.pack id 0, e)] :=
  Chunk.push_entries

theorem entries_two (id id' : SegmentId) :
    entries [createdChunk id, movedChunk id'] =
      [(1, WalOffset.pack id 0, created), (1, WalOffset.pack id' 0, moved)] := by
  simp [entries, createdChunk, movedChunk, chunkOf_entries]

theorem legal_two : Legal [created, moved] := by
  have own (id : String) : ownEntries id [created, moved] =
      if id = "i" then [created, moved] else [] := by
    by_cases hid : id = "i"
    · subst hid
      rfl
    · have hne : ¬ "i" = id := fun he => hid he.symm
      simp [ownEntries, created, moved, WalEntry.instanceId, hid, hne]
  constructor
  · intro id e he
    rw [own] at he
    split at he
    · rename_i hid
      cases he
      rw [hid]
      rfl
    · cases he
  · intro id e he
    rw [own] at he
    split at he
    · obtain rfl : e = created := by simpa using he
      rfl
    · cases he

/-- A storage layer with one snapshot, over this log. -/
noncomputable def withSnapshot (wal : Wal) (snapshot : InstanceSnapshot) : Storage :=
  let (store, dir, _) :=
    SnapshotStore.createSnapshot serdeStore.toStorageExternals ⟨∅⟩ .empty snapshot
  ⟨wal, store, dir, .empty, 0⟩

variable {snapshot : InstanceSnapshot}

theorem created_one (hid : snapshot.snapshotId = "s") (hword : snapshot.walOffset < 2 ^ 64) :
    ∃ store dir entry, SnapshotStore.createSnapshot serdeStore.toStorageExternals ⟨∅⟩ .empty
        snapshot = (store, dir, .ok entry) ∧
      SnapshotStore.Holding serdeStore store dir [snapshot] := by
  obtain ⟨store, dir, res, hc⟩ : ∃ store dir res, SnapshotStore.createSnapshot
      serdeStore.toStorageExternals ⟨∅⟩ .empty snapshot = (store, dir, res) := ⟨_, _, _, rfl⟩
  have hdone : serdeStore.snapshotWrite snapshot.snapshotId = .done := by
    rw [hid]
    rfl
  obtain ⟨entry, rfl⟩ := (SnapshotStore.createSnapshot_ok_iff hc).mpr hdone
  exact ⟨store, dir, entry, hc,
    (SnapshotStore.holding_empty serdeStore).createSnapshot (by simp) hword hc⟩

theorem holding_one (wal : Wal) (hid : snapshot.snapshotId = "s")
    (hword : snapshot.walOffset < 2 ^ 64) :
    (withSnapshot wal snapshot).snapshots.Holding serdeStore (withSnapshot wal snapshot).snapshotDir
      [snapshot] := by
  obtain ⟨store, dir, entry, hc, h⟩ := created_one hid hword
  simp only [withSnapshot, hc]
  exact h

/-- A directory that opens with one snapshot. -/
theorem exists_held (snapshot : InstanceSnapshot) (hid : snapshot.snapshotId = "s")
    (hword : snapshot.walOffset < 2 ^ 64) :
    ∃ store dir, SnapshotStore.Holding serdeStore store dir [snapshot] ∧
      SnapshotStore.openDir serdeStore.toStorageExternals dir = .ok store := by
  obtain ⟨store, dir, entry, hc, h⟩ := created_one hid hword
  exact ⟨store, dir, h, SnapshotStore.openDir_created hc⟩

theorem least_of_one (wal : Wal) (hid : snapshot.snapshotId = "s")
    (hword : snapshot.walOffset < 2 ^ 64) {o : Nat}
    (h : (withSnapshot wal snapshot).snapshots.minWalOffset = some o) : o = snapshot.walOffset := by
  have hmem : o ∈ (withSnapshot wal snapshot).snapshots.offsets := (List.min?_eq_some_iff.mp h).1
  obtain ⟨id, entry, hget, rfl⟩ := SnapshotStore.mem_offsets.mp hmem
  obtain ⟨snapshot', hs, -, rfl⟩ := ((holding_one wal hid hword).index id entry).mp hget
  rw [List.mem_singleton.mp hs]
  rfl

/-- A snapshot of the instance. -/
def snapshotAt (state : String) (walOffset : Nat) : InstanceSnapshot :=
  ⟨"s", "i", "m", 1, state, .null, walOffset⟩

section
variable {id id' : SegmentId}

theorem replayed_one : (Instances.empty.applyWalEntries [created]).table["i"]? =
    some (.new "i" "m" 1 "a" .null 0) := by
  rw [Instances.applyWalEntries_get]
  rfl

theorem replayed_two : (Instances.empty.applyWalEntries [created, moved]).table["i"]? =
    some ((Instance.new "i" "m" 1 "a" .null 0).applyTransition "b" .null none 0) := by
  rw [Instances.applyWalEntries_get]
  rfl

/-- A snapshot after the first entry or after both, and a log without what may be gone. -/
theorem retained_two {wal : Wal} {lost pre : List (Chunk serdeStore.toExternals)}
    {c : Chunk serdeStore.toExternals} {snapshot : InstanceSnapshot} (hw : wal.Repr pre c)
    (hall : lost ++ (pre ++ [c]) = [createdChunk id, movedChunk id']) (hlt : id < id')
    (htaken : snapshot = snapshotAt "a" (WalOffset.pack id 0).asU64 ∨
      snapshot = snapshotAt "b" (WalOffset.pack id' 0).asU64)
    (hword : snapshot.walOffset < 2 ^ 64)
    (hkept : ∀ d ∈ lost, d.id < (⟨snapshot.walOffset⟩ : WalOffset).segmentId) :
    Retained serdeStore (withSnapshot wal snapshot) lost pre c [snapshot] := by
  have hname : snapshot.snapshotId = "s" ∧ snapshot.instanceId = "i" := by
    obtain rfl | rfl := htaken <;> exact ⟨rfl, rfl⟩
  have hes : entries (lost ++ (pre ++ [c])) = _ := hall ▸ entries_two id id'
  refine ⟨hw, rfl, ?_, ?_, holding_one wal hname.1 hword, ?_, ?_, ?_⟩
  · rw [hall]
    exact List.pairwise_pair.mpr hlt
  · rw [hes]
    exact legal_two
  · intro snapshot' hs
    rw [List.mem_singleton.mp hs, hes]
    obtain rfl | rfl := htaken
    · exact ⟨[], _, _, rfl, rfl, _, replayed_one, rfl⟩
    · exact ⟨[_], _, [], rfl, rfl, _, replayed_two, rfl⟩
  · intro p hp k hk
    refine ⟨snapshot, List.mem_singleton_self _, ?_⟩
    rw [hes] at hp
    obtain rfl | hp := List.mem_cons.mp hp
    · exact hname.2.trans (Option.some.inj hk)
    · rw [List.mem_singleton.mp hp] at hk
      exact hname.2.trans (Option.some.inj hk)
  · intro o ho
    rw [least_of_one wal hname.1 hword ho]
    exact hkept

end

/-- The event's segment is left, and a snapshot taken after it: the instance is restored
although its creation is gone. -/
theorem recover_eq_replay_compacted :
    ∃ s s' : Storage, s.wal.segmentIds = [2] ∧ s.recover serdeStore = some (.ok s') ∧
      (s'.instances.table["i"]?).map Instance.restored =
        some (("m", 1), ("b", .null), .active) := by
  obtain ⟨dir, hdir⟩ := @Holds.exists_dir _ ([] ++ [movedChunk 2]) (List.pairwise_singleton _ _)
  obtain ⟨w, -, hw, -⟩ := Wal.openDir_of_holds hdir ⟨1000, .everyWrite⟩
  have h := @retained_two _ _ _ [createdChunk 1] _ _ _ hw rfl (by decide) (.inr rfl) (by decide) (by
    intro d hd
    rw [List.mem_singleton.mp hd]
    decide)
  obtain ⟨s', hrecover, hiff, hids⟩ := recover_eq_replay_iff serdeStore h
  refine ⟨withSnapshot w _, s', hw.keys, hrecover, ?_⟩
  have hall := hiff.mpr (hids ?_) "i"
  · rw [hall]
    exact congrArg _ replayed_two
  · intro d hd
    rw [List.mem_singleton.mp hd]
    decide

/-- The event lies in a segment whose id does not fit into an offset. Its offset is
smaller than that of the first segment, so it is passed over. -/
theorem recover_passes_over :
    ∃ (s s' : Storage) (lost pre : List (Chunk serdeStore.toExternals))
      (c : Chunk serdeStore.toExternals) (snapshots : List InstanceSnapshot),
      Retained serdeStore s lost pre c snapshots ∧ s.recover serdeStore = some (.ok s') ∧
      (s'.instances.table["i"]?).map Instance.state = some "a" ∧
      ((Instances.empty.applyWalEntries
        ((entries (lost ++ (pre ++ [c]))).map (·.2.2))).table["i"]?).map Instance.state =
          some "b" := by
  let first := 2 ^ 24 - 1
  obtain ⟨dir, hdir⟩ := @Holds.exists_dir _ ([createdChunk first] ++ [movedChunk (2 ^ 24)])
    (List.pairwise_pair.mpr (show first < 2 ^ 24 by decide))
  obtain ⟨w, -, hw, -⟩ := Wal.openDir_of_holds hdir ⟨1000, .everyWrite⟩
  have h := @retained_two _ _ _ [] _ _ _ hw rfl (by decide) (.inl rfl) (by decide) (by simp)
  obtain ⟨wal, hrecover⟩ := recover_eq (X := serdeStore) h.repr
  refine ⟨_, _, _, _, _, _, h, hrecover, ?_, ?_⟩
  · obtain ⟨i, hi, hr⟩ := h.recovered (List.mem_singleton_self _)
    have hreturned : returned ([createdChunk first] ++ [movedChunk (2 ^ 24)]) = [created] := by
      have hes : entries ([createdChunk first] ++ [movedChunk (2 ^ 24)]) = _ :=
        entries_two first (2 ^ 24)
      have hstart : ¬ (WalOffset.pack first 0).asU64 ≤ (WalOffset.pack (2 ^ 24) 0).asU64 := by
        decide
      have hhead : ([createdChunk first] ++ [movedChunk (2 ^ 24)]).map Chunk.id =
          [first, 2 ^ 24] := rfl
      rw [returned, hes, hhead]
      simp only [List.head?_cons, Option.map_some, Option.getD_some, List.filter_cons,
        List.filter_nil, Nat.le_refl, decide_true, if_true, hstart, decide_false,
        Bool.false_eq_true, if_false, List.map_cons, List.map_nil]
    rw [hreturned] at hi hr
    have hstate : i.state = "a" := congrArg (·.2.1.1) hr
    simp only [hreturned]
    exact (congrArg (Option.map Instance.state) hi).trans (congrArg some hstate)
  · have hes : entries ([] ++ ([createdChunk first] ++ [movedChunk (2 ^ 24)])) = _ :=
      entries_two first (2 ^ 24)
    rw [hes]
    exact congrArg _ replayed_two

end Storage

end Rstmdb
