import Rstmdb.Core.Replay

/-! What a restart finds when segments are gone. A start on any part of the log
succeeds; a replay without the first part of the log lacks exactly the machines
put and the instances created in that part. -/
namespace Rstmdb
open Json (Value)

/-- The definition in the entry, if it has one, can be parsed. -/
def WalEntry.Replayable (X : CoreExternals) : WalEntry → Prop
  | .putMachine machine version _ json =>
    ∃ d, MachineDefinition.fromJson X machine version json = some (.ok d)
  | _ => True

/-- The last offset of every instance is one of these. -/
def Memory.OffsetsMeet (m : Memory) (p : Nat → Prop) : Prop :=
  ∀ (id : String) (i : Instance), m.instances[id]? = some i → p i.lastWalOffset

/-- The last offset of every instance lies in a segment up to this one. -/
def Memory.Within (m : Memory) (last : SegmentId) : Prop :=
  ∀ (id : String) (i : Instance), m.instances[id]? = some i →
    (⟨i.lastWalOffset⟩ : WalOffset).segmentId ≤ last

section
variable {X : CoreExternals} {m m' : Memory} {offset : Nat} {entry : WalEntry}

theorem Changes.replayable (h : Changes X m offset entry m') : entry.Replayable X := by
  cases h with
  | putMachine _ valid => exact ⟨_, valid⟩
  | createInstance | applyEvent | deleteInstance => trivial

theorem Memory.within_empty (last : SegmentId) : Memory.empty.Within last := by
  intro id i hi
  simp [Memory.empty] at hi

variable {last : SegmentId} {p : Nat → Prop}

theorem Memory.Within.mono {last' : SegmentId} (h : m.Within last) (hle : last ≤ last') :
    m.Within last' :=
  fun id i hi => le_trans (h id i hi) hle

theorem Memory.OffsetsMeet.setInstance (h : m.OffsetsMeet p) {id : String} {i : Instance}
    (hi : p i.lastWalOffset) : (m.setInstance id i).OffsetsMeet p :=
  Table.forall_insert h hi

theorem Changes.offsetsMeet (h : Changes X m offset entry m') (hm : m.OffsetsMeet p)
    (ho : p offset) : m'.OffsetsMeet p := by
  cases h with
  | putMachine => exact hm
  | createInstance | applyEvent | deleteInstance => exact hm.setInstance ho

theorem Changes.within (h : Changes X m offset entry m') (hm : m.Within last)
    (ho : (⟨offset⟩ : WalOffset).segmentId ≤ last) : m'.Within last :=
  h.offsetsMeet (p := fun o => (⟨o⟩ : WalOffset).segmentId ≤ last) hm ho

/-- An entry that can be replayed is replayed without a panic. -/
theorem replayEntry_of_replayable (h : entry.Replayable X) :
    ∃ m', replayEntry X m offset entry = some m' := by
  cases entry with
  | putMachine machine version hash json =>
    obtain ⟨d, hd⟩ := h
    simp only [replayEntry, hd]
    split
    · exact ⟨m, rfl⟩
    · split
      · exact ⟨m, rfl⟩
      · exact ⟨_, rfl⟩
  | createInstance | applyEvent | deleteInstance =>
    simp only [replayEntry]
    split <;> exact ⟨_, rfl⟩
  | snapshot | checkpoint => exact ⟨m, rfl⟩

theorem replayEntry_offsetsMeet (h : replayEntry X m offset entry = some m') (hm : m.OffsetsMeet p)
    (ho : p offset) : m'.OffsetsMeet p := by
  cases entry with
  | putMachine =>
    simp only [replayEntry] at h
    split at h
    · cases h
      exact hm
    split at h
    · cases h
      exact hm
    · split at h <;> cases h <;> exact hm
  | createInstance | deleteInstance =>
    simp only [replayEntry] at h
    split at h <;> cases h
    · exact hm
    · exact hm.setInstance ho
  | applyEvent _ _ _ _ _ _ eventId =>
    simp only [replayEntry] at h
    split at h <;> cases h
    · exact hm
    · cases eventId <;> exact hm.setInstance ho
  | snapshot | checkpoint =>
    cases h
    exact hm

theorem replayEntry_within (h : replayEntry X m offset entry = some m') (hm : m.Within last)
    (ho : (⟨offset⟩ : WalOffset).segmentId ≤ last) : m'.Within last :=
  replayEntry_offsetsMeet (p := fun o => (⟨o⟩ : WalOffset).segmentId ≤ last) h hm ho

/-- A replay leaves every instance at the offset of an entry. -/
theorem replayEntries_offsetsMeet {es : List ReadEntry} (h : replayEntries X m es = some m')
    (hm : m.OffsetsMeet p) (ho : ∀ e ∈ es, p e.2.1.asU64) : m'.OffsetsMeet p := by
  induction es generalizing m with
  | nil =>
    cases h
    exact hm
  | cons e es ih =>
    obtain ⟨seq, off, entry⟩ := e
    simp only [replayEntries] at h
    split at h
    · cases h
    · rename_i m₁ hm₁
      refine ih h (replayEntry_offsetsMeet hm₁ hm ?_) fun e he => ho e (List.mem_cons_of_mem _ he)
      exact ho (seq, off, entry) List.mem_cons_self

theorem replayEntries_within {es : List ReadEntry} (hr : ∀ p ∈ es, p.2.2.Replayable X)
    (ho : ∀ p ∈ es, p.2.1.segmentId ≤ last) (hm : m.Within last) :
    ∃ m', replayEntries X m es = some m' ∧ m'.Within last := by
  induction es generalizing m with
  | nil => exact ⟨m, rfl, hm⟩
  | cons p es ih =>
    obtain ⟨seq, off, entry⟩ := p
    obtain ⟨m₁, hm₁⟩ := @replayEntry_of_replayable _ m off.asU64 _
      (hr _ List.mem_cons_self)
    have hoff : off.segmentId ≤ last := ho (seq, off, entry) List.mem_cons_self
    have hwithin := replayEntry_within hm₁ hm hoff
    simp only [replayEntries, hm₁]
    exact ih (fun p hp => hr p (List.mem_cons_of_mem _ hp))
      (fun p hp => ho p (List.mem_cons_of_mem _ hp)) hwithin

end

/-! ## Engines on a part of the log -/

/-- The log is whole as far as it goes, and the engine's offsets lie in it. What the
memory holds need not be in the log. -/
structure Engine.Sound {X : CoreExternals} (s : Engine) (pre : List (Chunk X.toExternals))
    (c : Chunk X.toExternals) : Prop where
  repr : s.wal.Repr pre c
  clean : c.tail = []
  replayable : ∀ p ∈ entries (pre ++ [c]), p.2.2.Replayable X
  within : s.toMemory.Within c.id

/-- A step of the log with the memory: nothing, or one entry with its change. -/
def LogGrown (X : CoreExternals) (m m' : Memory) (es es' : List ReadEntry) : Prop :=
  (es' = es ∧ m' = m) ∨
    ∃ seq off entry, es' = es ++ [(seq, off, entry)] ∧ Changes X m off.asU64 entry m'

theorem segmentId_le_of_mem {X : Externals} {dir : Dir} {pre : List (Chunk X)} {c : Chunk X}
    (h : Holds dir (pre ++ [c])) {p : ReadEntry} (hp : p ∈ entries (pre ++ [c])) :
    p.2.1.segmentId ≤ c.id := by
  obtain ⟨d, hd, hp⟩ := mem_entries.mp hp
  obtain ⟨o, hm, he⟩ := Chunk.mem_entries hp
  rw [he, WalOffset.pack_segmentId d.id hm]
  exact le_trans (Nat.mod_le _ _) (h.le_last hd)

namespace Engine.Sound

variable {X : CoreExternals} {s s' : Engine} {pre : List (Chunk X.toExternals)}
  {c : Chunk X.toExternals}

theorem logs {p : WalEntry → Prop} (h : s.Sound pre c) (hl : Logs X p s s') :
    ∃ (pre' : List (Chunk X.toExternals)) (c' : Chunk X.toExternals), s'.Sound pre' c' ∧
      c.id ≤ c'.id ∧
      LogGrown X s.toMemory s'.toMemory (entries (pre ++ [c])) (entries (pre' ++ [c'])) := by
  cases hl with
  | kept => exact ⟨pre, c, h, le_refl _, .inl ⟨rfl, rfl⟩⟩
  | refused failed =>
    obtain ⟨pre', c', hg⟩ := h.repr.append (.inl h.clean) failed
    have he : entries (pre' ++ [c']) = entries (pre ++ [c]) := hg.entries
    refine ⟨pre', c', ⟨hg.repr, hg.clean h.clean, ?_, h.within.mono hg.ahead⟩, hg.ahead,
      .inl ⟨he, rfl⟩⟩
    rw [he]
    exact h.replayable
  | @logged entry _ seq off _ appended changes =>
    obtain ⟨pre', c', hg⟩ := h.repr.append (.inl h.clean) appended
    have he : entries (pre' ++ [c']) = entries (pre ++ [c]) ++ [(seq, off, entry)] := hg.entries
    have hoff : off.segmentId ≤ c'.id :=
      segmentId_le_of_mem hg.repr.holds (p := (seq, off, entry)) (by simp [he])
    refine ⟨pre', c', ⟨hg.repr, hg.clean h.clean, ?_,
      changes.within (h.within.mono hg.ahead) hoff⟩, hg.ahead, .inr ⟨seq, off, entry, he, changes⟩⟩
    rw [he]
    intro p hp
    obtain hp | hp := List.mem_append.mp hp
    · exact h.replayable p hp
    · rw [List.mem_singleton.mp hp]
      exact changes.replayable

theorem readLog (h : s.Sound pre c) (stats : WalStats) :
    ({ s with wal := { s.wal with stats } } : Engine).Sound pre c :=
  ⟨⟨h.repr.holds, h.repr.keys, h.repr.current⟩, h.clean, h.replayable, h.within⟩

/-- Compaction up to the current segment keeps the rest of the log as it is. -/
theorem compact (h : s.Sound pre c) {before : WalOffset} (hb : before.segmentId ≤ c.id) :
    ({ s with wal := (s.wal.compactBefore before).1 } : Engine).Sound
      (pre.filter (before.segmentId ≤ ·.id)) c := by
  refine ⟨h.repr.compactBefore hb, h.clean, ?_, h.within⟩
  intro p hp
  obtain ⟨d, hd, hp⟩ := mem_entries.mp hp
  refine h.replayable p (mem_entries.mpr ⟨d, ?_, hp⟩)
  obtain hd | hd := List.mem_append.mp hd
  · exact List.mem_append_left _ (List.mem_of_mem_filter hd)
  · exact List.mem_append_right _ hd

/-- A start on the directory succeeds with what a replay of the log yields. -/
theorem restart (h : s.Sound pre c) (config : WalConfig) :
    ∃ s', new X config s.wal.dir = some (.ok s') ∧ s'.Sound pre c ∧
      replayEntries X .empty (entries (pre ++ [c])) = some s'.toMemory ∧
      s'.idempotencyCache = ∅ ∧ s'.wal.dir = s.wal.dir := by
  obtain ⟨w, hopen, hr, hdir, -⟩ := Wal.openDir_of_holds h.repr.holds config
  obtain ⟨stats, hread⟩ := hr.readFrom
  obtain ⟨m, hm, hwithin⟩ := replayEntries_within h.replayable
    (fun _ => segmentId_le_of_mem h.repr.holds) (Memory.within_empty c.id)
  refine ⟨⟨m, ∅, { w with stats }⟩, ?_, ?_, hm, rfl, hdir⟩
  · simp only [new, hopen, withWal, hread, hm]
  · exact ⟨⟨hr.holds, hr.keys, hr.current⟩, h.clean, h.replayable, hwithin⟩

end Engine.Sound

theorem Engine.sound_fresh (X : CoreExternals) (config : WalConfig) :
    (Engine.fresh config).Sound (X := X) [] (Chunk.empty X.toExternals 1) := by
  refine ⟨repr_fresh X config, rfl, ?_, Memory.within_empty _⟩
  simp [entries]

/-! ## Histories -/

/-- The changes that the entries made one after the other, on an empty memory. -/
inductive History (X : CoreExternals) : List ReadEntry → Memory → Prop
  | nil : History X [] .empty
  | snoc {es : List ReadEntry} {m m' : Memory} {seq : UInt64} {off : WalOffset}
      {entry : WalEntry} (before : History X es m)
      (changes : Changes X m off.asU64 entry m') : History X (es ++ [(seq, off, entry)]) m'

/-- The machine version that an entry defines. -/
def WalEntry.defines : WalEntry → Option (String × UInt32)
  | .putMachine machine version _ _ => some (machine, version)
  | _ => none

/-- The instance that an entry creates. -/
def WalEntry.creates : WalEntry → Option String
  | .createInstance id .. => some id
  | _ => none

/-- Every instance is kept under its id. -/
def Memory.Named (m : Memory) : Prop :=
  ∀ (id : String) (i : Instance), m.instances[id]? = some i → i.id = id

def definedIn (es : List ReadEntry) : List (String × UInt32) := es.filterMap (·.2.2.defines)

def createdIn (es : List ReadEntry) : List String := es.filterMap (·.2.2.creates)

@[simp] theorem definedIn_append (es fs : List ReadEntry) :
    definedIn (es ++ fs) = definedIn es ++ definedIn fs :=
  List.filterMap_append

@[simp] theorem createdIn_append (es fs : List ReadEntry) :
    createdIn (es ++ fs) = createdIn es ++ createdIn fs :=
  List.filterMap_append

section
variable {X : CoreExternals} {m m' : Memory} {es : List ReadEntry}

theorem History.grown {es' : List ReadEntry} (h : History X es m) (hg : LogGrown X m m' es es') :
    History X es' m' := by
  obtain ⟨rfl, rfl⟩ | ⟨seq, off, entry, rfl, changes⟩ := hg
  · exact h
  · exact .snoc h changes

theorem Memory.Named.setInstance (h : m.Named) {id : String} {i : Instance} (hi : i.id = id) :
    (m.setInstance id i).Named :=
  Table.forall_insert h hi

variable {offset : Nat} {entry : WalEntry}

theorem Changes.named (h : Changes X m offset entry m') (hm : m.Named) : m'.Named := by
  cases h with
  | putMachine => exact hm
  | createInstance => exact hm.setInstance rfl
  | applyEvent present | deleteInstance present =>
    have hid := hm _ _ present
    exact hm.setInstance hid

theorem Memory.named_empty : Memory.empty.Named := by
  intro id i hi
  simp [Memory.empty] at hi

theorem History.named (h : History X es m) : m.Named := by
  induction h with
  | nil => exact Memory.named_empty
  | snoc before changes ih => exact changes.named ih

theorem replayEntry_named (h : replayEntry X m offset entry = some m') (hm : m.Named) :
    m'.Named := by
  cases entry with
  | putMachine =>
    simp only [replayEntry] at h
    split at h
    · cases h
      exact hm
    split at h
    · cases h
      exact hm
    · split at h <;> cases h <;> exact hm
  | createInstance =>
    simp only [replayEntry] at h
    split at h <;> cases h
    · exact hm
    · exact hm.setInstance rfl
  | applyEvent _ _ _ _ _ _ eventId =>
    simp only [replayEntry] at h
    split at h <;> cases h
    · exact hm
    · rename_i i hi
      have hid : i.id = _ := hm _ i hi
      cases eventId <;> exact hm.setInstance hid
  | deleteInstance =>
    simp only [replayEntry] at h
    split at h <;> cases h
    · exact hm
    · rename_i i hi
      have hid : i.id = _ := hm _ i hi
      exact hm.setInstance hid
  | snapshot | checkpoint =>
    cases h
    exact hm

theorem replayEntries_named (h : replayEntries X m es = some m') (hm : m.Named) : m'.Named := by
  induction es generalizing m with
  | nil =>
    cases h
    exact hm
  | cons p es ih =>
    obtain ⟨seq, off, entry⟩ := p
    simp only [replayEntries] at h
    split at h
    · cases h
    · rename_i hr
      exact ih h (replayEntry_named hr hm)

theorem Changes.definitions_iff (h : Changes X m offset entry m') (key : String × UInt32) :
    m'.definitions.contains key = true ↔
      m.definitions.contains key = true ∨ entry.defines = some key := by
  cases h with
  | putMachine =>
    simp only [Memory.setDefinition, WalEntry.defines, Option.some.injEq,
      Std.ExtTreeMap.contains_insert, Bool.or_eq_true, beq_iff_eq, Std.compare_eq_iff_eq]
    exact or_comm
  | createInstance | applyEvent | deleteInstance => simp [Memory.setInstance, WalEntry.defines]

theorem Changes.instances_iff (h : Changes X m offset entry m') (id : String) :
    m'.instances.contains id = true ↔
      m.instances.contains id = true ∨ entry.creates = some id := by
  cases h with
  | putMachine => simp [Memory.setDefinition, WalEntry.creates]
  | createInstance =>
    simp only [Memory.setInstance, WalEntry.creates, Option.some.injEq,
      Std.ExtTreeMap.contains_insert, Bool.or_eq_true, beq_iff_eq, Std.compare_eq_iff_eq]
    exact or_comm
  | applyEvent present | deleteInstance present =>
    simp only [Memory.setInstance, WalEntry.creates, reduceCtorEq, or_false,
      Std.ExtTreeMap.contains_insert, Bool.or_eq_true, beq_iff_eq, Std.compare_eq_iff_eq,
      or_iff_right_iff_imp]
    rintro rfl
    simp [Std.ExtTreeMap.contains_eq_isSome_getElem?, present]

/-- The machines and instances in memory are those that the entries made. -/
theorem History.contains_iff (h : History X es m) :
    (∀ key, m.definitions.contains key = true ↔ key ∈ definedIn es) ∧
      ∀ id, m.instances.contains id = true ↔ id ∈ createdIn es := by
  induction h with
  | nil => simp [Memory.empty, definedIn, createdIn]
  | @snoc es m m' seq off entry before changes ih =>
    constructor
    · intro key
      rw [changes.definitions_iff, ih.1, definedIn_append, List.mem_append]
      simp [definedIn, eq_comm]
    · intro id
      rw [changes.instances_iff, ih.2, createdIn_append, List.mem_append]
      simp [createdIn, eq_comm]

end

/-- What a replay lacks when it starts without the entries in `lost`. -/
structure Memory.Lacks (m n : Memory) (lost : List ReadEntry) : Prop where
  definitions : ∀ key : String × UInt32,
    m.definitions[key]? = if key ∈ definedIn lost then none else n.definitions[key]?
  instances : ∀ id : String, (m.instances[id]?).map Instance.persisted =
    if id ∈ createdIn lost then none else (n.instances[id]?).map Instance.persisted

section
variable {X : CoreExternals} {m n n' : Memory} {lost : List ReadEntry}

variable {id : String} {i : Instance}

section
variable (h : m.Lacks n lost)
include h

theorem Memory.Lacks.setInstance (hid : id ∉ createdIn lost) {j : Instance}
    (hji : j.persisted = i.persisted) : (m.setInstance id j).Lacks (n.setInstance id i) lost := by
  refine ⟨h.definitions, fun k => ?_⟩
  by_cases hk : k = id
  · subst hk
    simp [Memory.setInstance, hji, hid]
  · simp only [Memory.setInstance, Table.getElem?_insert_ne hk]
    exact h.instances k

/-- A change to an instance that the replay lacks changes nothing for it. -/
theorem Memory.Lacks.skip (hid : id ∈ createdIn lost) (i : Instance) :
    m.Lacks (n.setInstance id i) lost := by
  refine ⟨h.definitions, fun k => ?_⟩
  by_cases hk : k = id
  · subst hk
    have := h.instances k
    rw [if_pos hid] at this ⊢
    exact this
  · rw [Memory.setInstance, Table.getElem?_insert_ne hk]
    exact h.instances k

theorem Memory.Lacks.present (hid : id ∉ createdIn lost) (hi : n.instances[id]? = some i) :
    ∃ j, m.instances[id]? = some j ∧ j.persisted = i.persisted := by
  have := h.instances id
  rw [if_neg hid, hi] at this
  exact Option.map_eq_some_iff.mp this

theorem Memory.Lacks.absent
    (hid : id ∈ createdIn lost ∨ n.instances[id]? = none) : m.instances[id]? = none := by
  have := h.instances id
  obtain hid | hn := hid
  · simpa [hid] using this
  · simpa [hn] using this

theorem Memory.Lacks.update (present : n.instances[id]? = some i)
    (i' : Instance) {f : Instance → Instance}
    (hf : ∀ j, j.persisted = i.persisted → (f j).persisted = i'.persisted) :
    (∃ j, m.instances[id]? = some j ∧
        (m.setInstance id (f j)).Lacks (n.setInstance id i') lost) ∨
      m.instances[id]? = none ∧ m.Lacks (n.setInstance id i') lost := by
  by_cases hid : id ∈ createdIn lost
  · exact .inr ⟨h.absent (.inl hid), h.skip hid _⟩
  · obtain ⟨j, hj, hji⟩ := h.present hid present
    exact .inl ⟨j, hj, h.setInstance hid (hf j hji)⟩

/-- Replaying the next entry keeps what is lacking. -/
theorem replayEntry_lacks {offset : Nat} {entry : WalEntry} {es : List ReadEntry}
    (hist : History X (lost ++ es) n) (hc : Changes X n offset entry n') :
    ∃ m', replayEntry X m offset entry = some m' ∧ m'.Lacks n' lost := by
  have known := hist.contains_iff
  cases hc with
  | @putMachine name version json d absent valid =>
    have hlost : (name, version) ∉ definedIn lost := by
      intro hin
      have := (known.1 (name, version)).mpr (by simp [hin])
      rw [Table.contains_eq_false absent] at this
      cases this
    have hnew : m.definitions.contains (name, version) = false := by
      apply Table.contains_eq_false
      rw [h.definitions, if_neg hlost, absent]
    refine ⟨m.setDefinition (name, version) d, ?_, fun key => ?_, h.instances⟩
    · simp only [replayEntry, not_null_of_valid valid, hnew, valid, Bool.false_eq_true, if_false]
    · by_cases hk : key = (name, version)
      · subst hk
        simp [Memory.setDefinition, hlost]
      · simp only [Memory.setDefinition, Table.getElem?_insert_ne hk]
        exact h.definitions key
  | @createInstance id machine version ctx key d absent =>
    have hlost : id ∉ createdIn lost := by
      intro hin
      have := (known.2 id).mpr (by simp [hin])
      rw [Table.contains_eq_false absent] at this
      cases this
    have hnew : m.instances.contains id = false :=
      Table.contains_eq_false (h.absent (.inr absent))
    refine ⟨_, ?_, h.setInstance hlost rfl⟩
    simp only [replayEntry, hnew, Bool.false_eq_true, if_false]
  | @applyEvent id event toState payload eventId key i d guard present =>
    obtain ⟨j, hj, hl⟩ | ⟨hj, hl⟩ := h.update present (i.applyTransition toState
        (mergeCtx i.ctx payload) eventId offset)
      (f := fun j => { j with
        state := toState, ctx := mergeCtx i.ctx payload, lastWalOffset := offset,
        lastEventId := eventId.or j.lastEventId }) (by
        rintro ⟨⟩ hji
        cases i
        cases eventId <;> simp_all [Instance.persisted, Instance.applyTransition])
    · refine ⟨_, ?_, hl⟩
      cases eventId <;> simp only [replayEntry, hj, Option.none_or, Option.some_or]
    · exact ⟨m, by simp only [replayEntry, hj], hl⟩
  | @deleteInstance id key i present alive =>
    obtain ⟨j, hj, hl⟩ | ⟨hj, hl⟩ := h.update present (i.softDelete offset)
      (f := fun j => { j with instanceState := .deleted, lastWalOffset := offset }) (by
        rintro ⟨⟩ hji
        cases i
        simp_all [Instance.persisted, Instance.softDelete])
    · exact ⟨_, by simp only [replayEntry, hj], hl⟩
    · exact ⟨m, by simp only [replayEntry, hj], hl⟩

end

/-- A replay that starts behind the lost entries lacks just what they made. -/
theorem replayEntries_lacks {es : List ReadEntry} (hist : History X (lost ++ es) n) :
    ∃ m, replayEntries X .empty es = some m ∧ m.Lacks n lost := by
  induction es using List.reverseRecOn generalizing n with
  | nil =>
    rw [List.append_nil] at hist
    obtain ⟨hd, hi⟩ := hist.contains_iff
    refine ⟨.empty, rfl, fun key => ?_, fun id => ?_⟩
    · split
      · simp [Memory.empty]
      · rename_i hkey
        have : n.definitions[key]? = none := by simpa using mt (hd key).mp hkey
        simp [Memory.empty, this]
    · split
      · simp [Memory.empty]
      · rename_i hid
        have : n.instances[id]? = none := by simpa using mt (hi id).mp hid
        simp [Memory.empty, this]
  | append_singleton es p ih =>
    rw [← List.append_assoc] at hist
    generalize hall : (lost ++ es) ++ [p] = all at hist
    cases hist with
    | nil => simp at hall
    | @snoc es' m₁ _ seq off entry before changes =>
      obtain ⟨rfl, hp⟩ := List.append_inj' hall rfl
      cases hp
      obtain ⟨m, hm, hlacks⟩ := ih before
      obtain ⟨m', hm', hlacks'⟩ := replayEntry_lacks hlacks before changes
      refine ⟨m', ?_, hlacks'⟩
      rw [replayEntries_append, hm]
      simp [replayEntries, hm']

end

end Rstmdb
