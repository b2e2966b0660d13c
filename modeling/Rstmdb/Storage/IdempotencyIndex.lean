import Rstmdb.Json.Map
import Rstmdb.Storage.Snapshot

/-! The index of idempotency keys and its file. The entries are kept under pairs of
strings, and a pair is no key that `serde_json` writes. -/
namespace Rstmdb
open Json (Value KeyData)

structure IdempotencyEntry where
  key : String
  instanceId : Option String
  operation : String
  walOffset : UInt64
  result : Value
  createdAt : Int64

def IdempotencyEntry.toValue (e : IdempotencyEntry) : Value :=
  .object [("key", .string e.key), ("instance_id", e.instanceId.elim .null .string),
    ("operation", .string e.operation), ("wal_offset", .number (.posInt e.walOffset)),
    ("result", e.result), ("created_at", .number (.ofI64 e.createdAt))]

/-- Under what an entry is kept. Without an instance it is the empty string. -/
def IdempotencyEntry.under (e : IdempotencyEntry) : String × String :=
  (e.instanceId.getD "", e.key)

/-- What a thread reads of the clocks: nanoseconds of the monotonic one, and Unix time in
milliseconds. -/
structure ClockReading where
  instant : Nat
  unixMillis : Int64

/-- `serde_json` reads an object without fields as a map without entries. -/
structure IndexReader where
  fromReader : Bytes → Option (Table (String × String) IdempotencyEntry)
  fromReader_empty : fromReader (Json.toVec (.object [])) = some ∅

structure IdempotencyIndex where
  entries : Table (String × String) IdempotencyEntry
  retentionMs : Int64
  /-- There is a path for persistence. -/
  persistPath : Bool
  lastCleanup : Nat

namespace IdempotencyIndex

/-- A pair serializes as a sequence. -/
def keyData (_ : String × String) : KeyData := .compound

/-- An index over the file at a path. -/
def withPersistence (X : IndexReader) (retentionMs : Int64) (clock : ClockReading)
    (file : Option Bytes) : Except StorageError IdempotencyIndex :=
  match file with
  | none => .ok ⟨∅, retentionMs, true, clock.instant⟩
  | some data =>
    match X.fromReader data with
    | some entries => .ok ⟨entries, retentionMs, true, clock.instant⟩
    | none => .error .json

def get (index : IdempotencyIndex) (instanceId : Option String) (key : String) :
    Option IdempotencyEntry :=
  index.entries[(instanceId.getD "", key)]?

/-- Empties the file and writes the entries. What is out when the writing fails stays. -/
def persist (index : IdempotencyIndex) (file : Option Bytes) :
    Option Bytes × Except StorageError Unit :=
  if index.persistPath then
    let (out, ok) := Json.writeMap (index.entries.toList.map fun p => (keyData p.1, p.2.toValue))
    (some (out.flatMap String.utf8EncodeChar), if ok then .ok () else .error .json)
  else (file, .ok ())

def cleanup (index : IdempotencyIndex) (unixMillis : Int64) (file : Option Bytes) :
    IdempotencyIndex × Option Bytes × Except StorageError Unit :=
  let index := { index with
    entries := index.entries.filter fun _ e => unixMillis - e.createdAt < index.retentionMs }
  let (file, res) := index.persist file
  (index, file, res)

/-- Cleans up if the last time was more than a minute ago. -/
def maybeCleanup (index : IdempotencyIndex) (clock : ClockReading) (file : Option Bytes) :
    IdempotencyIndex × Option Bytes × Except StorageError Unit :=
  if 60 * 10 ^ 9 < clock.instant - index.lastCleanup then
    match index.cleanup clock.unixMillis file with
    | (index, file, .ok ()) => ({ index with lastCleanup := clock.instant }, file, .ok ())
    | (index, file, .error e) => (index, file, .error e)
  else (index, file, .ok ())

def put (index : IdempotencyIndex) (entry : IdempotencyEntry) (clock : ClockReading)
    (file : Option Bytes) : IdempotencyIndex × Option Bytes × Except StorageError Unit :=
  { index with entries := index.entries.insert entry.under entry }.maybeCleanup clock file

/-- The index and its file after some calls of `put`, whether they return errors or not. -/
def putAll (s : IdempotencyIndex × Option Bytes) (puts : List (IdempotencyEntry × ClockReading)) :
    IdempotencyIndex × Option Bytes :=
  puts.foldl
    (fun s p =>
      let (index, file, _) := s.1.put p.1 p.2 s.2
      (index, file))
    s

/-! ## What a call does -/

/-- A cleanup leaves the settings as they are, and what has not expired. -/
theorem maybeCleanup_keeps (index : IdempotencyIndex) (clock : ClockReading) (file : Option Bytes) :
    let index' := (index.maybeCleanup clock file).1
    (index'.retentionMs = index.retentionMs ∧ index'.persistPath = index.persistPath) ∧
      ∀ (k : String × String) e, index.entries[k]? = some e →
        clock.unixMillis - e.createdAt < index.retentionMs → index'.entries[k]? = some e := by
  have settings : (index.cleanup clock.unixMillis file).1.retentionMs = index.retentionMs ∧
      (index.cleanup clock.unixMillis file).1.persistPath = index.persistPath := ⟨rfl, rfl⟩
  have kept (k : String × String) (e : IdempotencyEntry) (he : index.entries[k]? = some e)
      (hfresh : clock.unixMillis - e.createdAt < index.retentionMs) :
      (index.cleanup clock.unixMillis file).1.entries[k]? = some e := by
    simp [cleanup, he, hfresh]
  simp only [maybeCleanup]
  split
  · cases hc : index.cleanup clock.unixMillis file with
    | mk index₁ rest =>
      obtain ⟨file₁, res⟩ := rest
      rw [hc] at settings kept
      cases res with
      | ok | error => exact ⟨settings, kept⟩
  · exact ⟨⟨rfl, rfl⟩, fun k e he _ => he⟩

theorem put_get (index : IdempotencyIndex) (entry : IdempotencyEntry) (clock : ClockReading)
    (file : Option Bytes) (hfresh : clock.unixMillis - entry.createdAt < index.retentionMs) :
    (index.put entry clock file).1.entries[entry.under]? = some entry :=
  (maybeCleanup_keeps _ clock file).2 _ entry (by simp) hfresh

theorem putAll_settings (puts : List (IdempotencyEntry × ClockReading)) (index : IdempotencyIndex)
    (file : Option Bytes) :
    (putAll (index, file) puts).1.retentionMs = index.retentionMs ∧
      (putAll (index, file) puts).1.persistPath = index.persistPath := by
  induction puts generalizing index file with
  | nil => exact ⟨rfl, rfl⟩
  | cons p puts ih =>
    obtain ⟨hretention, hpath⟩ := (maybeCleanup_keeps
      { index with entries := index.entries.insert p.1.under p.1 } p.2 file).1
    obtain ⟨hr, hp⟩ := ih (index.put p.1 p.2 file).1 (index.put p.1 p.2 file).2.1
    exact ⟨hr.trans hretention, hp.trans hpath⟩

variable {index : IdempotencyIndex}

/-- After any calls of `put` there is an entry, if each was given one that had not
expired. -/
theorem putAll_entries {puts : List (IdempotencyEntry × ClockReading)} (hputs : puts ≠ [])
    (file : Option Bytes)
    (hfresh : ∀ p ∈ puts, p.2.unixMillis - p.1.createdAt < index.retentionMs) :
    (putAll (index, file) puts).1.entries ≠ ∅ := by
  obtain ⟨init, p, rfl⟩ := (List.eq_nil_or_concat puts).resolve_left hputs
  rw [List.concat_eq_append] at hfresh ⊢
  have hlast : (putAll (index, file) (init ++ [p])).1 =
      ((putAll (index, file) init).1.put p.1 p.2 (putAll (index, file) init).2).1 := by
    simp [putAll]
  rw [hlast]
  intro hempty
  have hget := put_get (putAll (index, file) init).1 p.1 p.2 (putAll (index, file) init).2 (by
    rw [(putAll_settings init index file).1]
    exact hfresh p (by simp))
  rw [hempty] at hget
  simp at hget

/-! ## The file -/

/-- With a path, what has entries is not written to its end. -/
theorem persist_ok_iff (hpath : index.persistPath = true) (file : Option Bytes) :
    (index.persist file).2 = .ok () ↔ index.entries = ∅ := by
  have hwritten : (index.persist file).2 = .ok () ↔ (Json.writeMap
      (index.entries.toList.map fun p => (keyData p.1, p.2.toValue))).2 = true := by
    simp only [persist, hpath, if_true]
    split <;> simp_all
  rw [hwritten, Json.writeMap_ok_iff]
  constructor
  · intro h
    have hnil : index.entries.toList = [] := by
      rw [List.eq_nil_iff_forall_not_mem]
      intro p hp
      exact h _ (List.mem_map_of_mem hp) rfl
    exact Std.ExtTreeMap.toList_inj.mp (hnil.trans (by simp))
  · intro h
    simp [h]

theorem persist_empty (hpath : index.persistPath = true) (hempty : index.entries = ∅)
    (file : Option Bytes) : (index.persist file).1 = some (Json.toVec (.object [])) := by
  have hnil : (∅ : Table (String × String) IdempotencyEntry).toList = [] := by simp
  simp only [persist, hpath, if_true, hempty, hnil]
  rfl

section
variable {X : IndexReader} {retentionMs : Int64} {clock : ClockReading} {file : Option Bytes}
  {index : IdempotencyIndex}

theorem withPersistence_settings (h : withPersistence X retentionMs clock file = .ok index) :
    index.retentionMs = retentionMs ∧ index.persistPath = true := by
  unfold withPersistence at h
  split at h
  · cases h
    exact ⟨rfl, rfl⟩
  split at h
  · cases h
    exact ⟨rfl, rfl⟩
  · cases h

end

/-- After any calls of `put` with entries that have not expired, the index persists and
opens again with the same entries exactly if it has none. -/
theorem survives_iff (X : IndexReader) {retentionMs : Int64} {clock : ClockReading}
    {file : Option Bytes} {index : IdempotencyIndex}
    (hopen : withPersistence X retentionMs clock file = .ok index)
    {puts : List (IdempotencyEntry × ClockReading)}
    (hfresh : ∀ p ∈ puts, p.2.unixMillis - p.1.createdAt < retentionMs) (clock' : ClockReading) :
    let (index', file') := putAll (index, file) puts
    ((index'.persist file').2 = .ok () ∧
      ∃ reopened, withPersistence X retentionMs clock' (index'.persist file').1 = .ok reopened ∧
        ∀ instanceId key, reopened.get instanceId key = index'.get instanceId key) ↔
      index.entries = ∅ ∧ puts = [] := by
  obtain ⟨hretention, hpath⟩ := withPersistence_settings hopen
  have hpath' := (putAll_settings puts index file).2.trans hpath
  dsimp only
  rw [persist_ok_iff hpath']
  constructor
  · rintro ⟨hempty, -⟩
    have hputs : puts = [] := by
      by_contra hne
      exact putAll_entries hne file (hretention ▸ hfresh) hempty
    subst hputs
    exact ⟨hempty, rfl⟩
  · rintro ⟨hempty, rfl⟩
    refine ⟨hempty, ⟨∅, retentionMs, true, clock'.instant⟩, ?_, ?_⟩
    · simp only [withPersistence, persist_empty hpath' hempty, X.fromReader_empty]
    · intro instanceId key
      rw [get, get]
      exact congrArg (fun t : Table (String × String) IdempotencyEntry =>
        t[(instanceId.getD "", key)]?) hempty.symm

/-- The reader of files that this index writes. -/
def emptyReader : IndexReader where
  fromReader data := if data = Json.toVec (.object []) then some ∅ else none
  fromReader_empty := if_pos rfl

/-- The index of a path where there is no file, with an hour for retention. -/
def fresh : IdempotencyIndex := ⟨∅, 3600000, true, 0⟩

theorem survives_without_entries :
    let (index, file) := putAll (fresh, none) []
    (index.persist file).2 = .ok () ∧
      ∃ reopened, withPersistence emptyReader 3600000 ⟨1, 0⟩ (index.persist file).1 = .ok reopened ∧
        ∀ instanceId key, reopened.get instanceId key = index.get instanceId key := by
  have hopen : withPersistence emptyReader 3600000 ⟨0, 0⟩ none = .ok fresh := rfl
  exact (@survives_iff emptyReader _ _ _ _ hopen [] (by simp) ⟨1, 0⟩).mpr ⟨rfl, rfl⟩

/-- An entry of an instance under a key. -/
def oneEntry : IdempotencyEntry := ⟨"k", some "i", "APPLY_EVENT", 100, .null, 0⟩

/-- One entry: persisting it fails, and the index does not open on what that leaves. -/
theorem entry_not_persisted :
    let (index, file) := putAll (fresh, none) [(oneEntry, ⟨1, 0⟩)]
    (index.get (some "i") "k").map IdempotencyEntry.walOffset = some 100 ∧
      (index.persist file).2 = .error .json ∧
      (index.persist file).1 = some [123] ∧
      (withPersistence emptyReader 3600000 ⟨1, 0⟩ (index.persist file).1).isOk = false := by
  decide +kernel

end IdempotencyIndex

end Rstmdb
