import Rstmdb.Json.Text
import Rstmdb.Wal.Entry

/-! The outside functions the log is used with: the derived JSON of an entry,
the CRC-32C checksum and a file read in one piece. They meet what the log
assumes of them, so that what is proved for all such functions is not empty. -/
namespace Rstmdb
open Json (Value)

/-- An optional field, left out when there is no value. -/
def optionalField (name : String) : Option String → List (String × Value)
  | some s => [(name, .string s)]
  | none => []

/-- The derived serializer: the tag first, then the fields as declared. -/
def WalEntry.toJson : WalEntry → Value
  | .putMachine machine version definitionHash definition =>
    .object [("type", .string "put_machine"), ("machine", .string machine),
      ("version", .number (.posInt version.toUInt64)),
      ("definition_hash", .string definitionHash), ("definition", definition)]
  | .createInstance instanceId machine version initialState initialCtx idempotencyKey =>
    .object ([("type", .string "create_instance"), ("instance_id", .string instanceId),
      ("machine", .string machine), ("version", .number (.posInt version.toUInt64)),
      ("initial_state", .string initialState), ("initial_ctx", initialCtx)] ++
      optionalField "idempotency_key" idempotencyKey)
  | .applyEvent instanceId event fromState toState payload ctx eventId idempotencyKey =>
    .object ([("type", .string "apply_event"), ("instance_id", .string instanceId),
      ("event", .string event), ("from_state", .string fromState),
      ("to_state", .string toState), ("payload", payload), ("ctx", ctx)] ++
      optionalField "event_id" eventId ++ optionalField "idempotency_key" idempotencyKey)
  | .deleteInstance instanceId idempotencyKey =>
    .object ([("type", .string "delete_instance"), ("instance_id", .string instanceId)] ++
      optionalField "idempotency_key" idempotencyKey)
  | .snapshot instanceId snapshotId state ctx =>
    .object [("type", .string "snapshot"), ("instance_id", .string instanceId),
      ("snapshot_id", .string snapshotId), ("state", .string state), ("ctx", ctx)]
  | .checkpoint timestamp =>
    .object [("type", .string "checkpoint"), ("timestamp", .number (.ofI64 timestamp))]

theorem Json.Number.ofI64_injective : Function.Injective Json.Number.ofI64 := by
  intro s t h
  apply Int64.toInt_inj.mp
  have hs := s.toInt_lt
  have hs' := s.le_toInt
  have ht := t.toInt_lt
  have ht' := t.le_toInt
  unfold Json.Number.ofI64 at h
  cases ha : s.toInt with
  | ofNat n =>
    cases hb : t.toInt with
    | ofNat m =>
      simp only [ha, hb, Json.Number.posInt.injEq] at h
      have := congrArg UInt64.toNat h
      simp only [UInt64.toNat_ofNat'] at this
      simp only [ha, hb, Int.ofNat_eq_natCast] at *
      omega
    | negSucc m => simp [ha, hb] at h
  | negSucc n =>
    cases hb : t.toInt with
    | ofNat m => simp [ha, hb] at h
    | negSucc m =>
      simp only [ha, hb, Json.Number.negInt.injEq] at h
      have := congrArg Fin.val h
      simp only [Fin.val_ofNat] at this
      omega

theorem optionalField_inj {name : String} {a b : Option String}
    (h : optionalField name a = optionalField name b) : a = b := by
  cases a <;> cases b <;> simp_all [optionalField]

theorem eventFields_inj {a b c d : Option String}
    (h : optionalField "event_id" a ++ optionalField "idempotency_key" b =
      optionalField "event_id" c ++ optionalField "idempotency_key" d) : a = c ∧ b = d := by
  cases a <;> cases b <;> cases c <;> cases d <;> simp_all [optionalField]

theorem version_inj {v v' : UInt32} (h : v.toUInt64 = v'.toUInt64) : v = v' := by
  apply UInt32.toNat_inj.mp
  simpa using congrArg UInt64.toNat h

theorem WalEntry.toJson_injective : Function.Injective WalEntry.toJson := by
  intro e e' h
  -- The tags tell the constructors apart, the fields their arguments.
  cases e <;> cases e' <;>
    simp only [WalEntry.toJson, Value.object.injEq, List.cons_append, List.nil_append,
      List.cons.injEq, Prod.mk.injEq, Value.string.injEq, Value.number.injEq,
      Json.Number.posInt.injEq, true_and, and_true, false_and, reduceCtorEq,
      String.reduceEq] at h
  case putMachine.putMachine =>
    obtain ⟨rfl, hv, rfl, rfl⟩ := h
    rw [version_inj hv]
  case createInstance.createInstance =>
    obtain ⟨rfl, rfl, hv, rfl, rfl, hk⟩ := h
    rw [version_inj hv, optionalField_inj hk]
  case applyEvent.applyEvent =>
    obtain ⟨rfl, rfl, rfl, rfl, rfl, rfl, hk⟩ := h
    obtain ⟨rfl, rfl⟩ := eventFields_inj hk
    rfl
  case deleteInstance.deleteInstance =>
    obtain ⟨rfl, hk⟩ := h
    rw [optionalField_inj hk]
  case snapshot.snapshot =>
    obtain ⟨rfl, rfl, rfl, rfl⟩ := h
    rfl
  case checkpoint.checkpoint => rw [Json.Number.ofI64_injective h]

/-- One byte of the reflected CRC-32C. -/
def crcByte (crc : UInt32) (b : UInt8) : UInt32 :=
  (List.range 8).foldl
    (fun c _ => if c &&& 1 = 1 then (c >>> 1) ^^^ 0x82F63B78 else c >>> 1) (crc ^^^ b.toUInt32)

def crc32c (bs : Bytes) : UInt32 := ~~~(bs.foldl crcByte 0xFFFFFFFF)

example : crc32c [0x31, 0x32, 0x33, 0x34, 0x35, 0x36, 0x37, 0x38, 0x39] = 0xE3069283 := by
  decide +kernel

/-- `serde_json` for entries, with the checksum and a file read in one piece.
Reading back is the inverse of writing. -/
noncomputable def serde : Externals where
  crc32c
  toVec e := Json.toVec e.toJson
  fromSlice := Function.partialInv fun e : WalEntry => Json.toVec e.toJson
  fromSlice_toVec :=
    Function.partialInv_left (Json.toVec_injective.comp WalEntry.toJson_injective)
  reads b := if b = [] then [] else [b]
  reads_flatten b := by
    split
    · rename_i h
      simp [h]
    · simp
  reads_ne_nil b := by
    split
    · simp
    · simpa using ‹_›

/-- The same functions, where the entries that are going to be read are listed.
So a reader can be run on them. -/
noncomputable def serdeReading (known : List WalEntry) : Externals :=
  { serde with
    fromSlice := fun b =>
      match known.find? fun e => decide (Json.toVec e.toJson = b) with
      | some e => some e
      | none => serde.fromSlice b
    fromSlice_toVec := by
      intro e
      split
      · rename_i e' hf
        have hp := List.find?_some hf
        have he : Json.toVec e'.toJson = Json.toVec e.toJson := of_decide_eq_true hp
        rw [(Json.toVec_injective.comp WalEntry.toJson_injective) he]
      · exact serde.fromSlice_toVec e }

theorem serdeReading_eq (known : List WalEntry) : serdeReading known = serde := by
  refine Externals.ext rfl rfl ?_ rfl
  funext b
  simp only [serdeReading]
  split
  · rename_i e hf
    have hp := List.find?_some hf
    have he : Json.toVec e.toJson = b := of_decide_eq_true hp
    rw [← he]
    exact (serde.fromSlice_toVec e).symm
  · rfl

end Rstmdb
