import Rstmdb.Core.Faults
import Rstmdb.Server.Calls

/-! A request that panics. Nothing catches the panic: what the request has done until then
stays, and nothing is done after it. -/
namespace Rstmdb
open Json (Value)

/-- The entry that an operation wants to log. -/
def wantedEntry (X : ServerExternals) (c : CommandHandler) (s : Shared) (params : Value) :
    Operation → Option WalEntry
  | .putMachine =>
    (PutMachineParams.fromValue params).bind fun p =>
      if versionLimitReached c s.engine p.machine p.version then none
      else s.engine.planned X.toCoreExternals (.putMachine p.machine p.version p.definition)
  | .createInstance =>
    (CreateInstanceParams.fromValue params).bind fun p =>
      s.engine.planned X.toCoreExternals (.createInstance (p.instanceId.getD (X.uuid s.uuids))
        p.machine p.version p.initialCtx p.idempotencyKey)
  | .applyEvent =>
    (ApplyEventParams.fromValue params).bind fun p =>
      s.engine.planned X.toCoreExternals (.applyEvent p.request)
  | .deleteInstance =>
    (params.index "instance_id").asStr.bind fun id =>
      s.engine.planned X.toCoreExternals
        (.deleteInstance id (params.index "idempotency_key").asStr)
  | _ => none

/-! ## What is left behind -/

namespace Wal

/-- What `append` does to the log holding the segment lock, up to the offset it returns. -/
def recorded (w : Wal) (record : WalRecord) : Wal :=
  match w.current with
  | none => w
  | some segment =>
    match segment.append w.dir record with
    | .error _ => w
    | .ok (_, segment, dir) => (w.noteWrite segment dir record.diskSize).applyPolicy segment

/-- The log as an append leaves it that panics: the record is written, and then its offset
does not fit. -/
def unwound (X : Externals) (w : Wal) (entry : WalEntry) : Wal :=
  let record := w.nextRecord X entry
  if w.needsRotation record.diskSize then w.drawSequence.2.rotateSegment.1.recorded record
  else w.drawSequence.2.recorded record

theorem recorded_of_appendLocked {w w' : Wal} {record : WalRecord} {out : UInt64 × WalOffset}
    (h : w.appendLocked record = some (w', .ok out)) : w' = w.recorded record := by
  unfold appendLocked at h
  split at h
  · cases h
  rename_i hcur
  split at h
  · cases h
  rename_i happend
  split at h <;> cases h
  simp only [recorded, hcur, happend]

/-- The same log as that of an append that returns. -/
theorem unwound_of_append {X : Externals} {w w' : Wal} {entry : WalEntry}
    {out : UInt64 × WalOffset} (h : w.append X entry = some (w', .ok out)) :
    w' = w.unwound X entry := by
  simp only [unwound]
  obtain ⟨-, -, hout⟩ | ⟨-, -, -, -, hout⟩ | ⟨-, hrot, hid, h⟩ | ⟨-, hrot, h⟩ := append_cases h
  · cases hout
  · cases hout
  · obtain ⟨hid', -⟩ | ⟨-, hr⟩ := rotateSegment_cases w.drawSequence.2
    · exact absurd (hid'.symm.trans hid) (by decide)
    · rw [if_pos hrot, hr]
      exact recorded_of_appendLocked h
  · rw [if_neg (by simp [hrot])]
    exact recorded_of_appendLocked h

end Wal

/-- What an operation leaves that panics. `WATCH_ALL` has subscribed by then, and an
operation has its entry in the log, if it got as far as that. -/
def abandoned (X : ServerExternals) (c : CommandHandler) (s : Shared) (ses : Session)
    (params : Value) : Operation → Shared × Session
  | .watchAll =>
    match WatchAllParams.fromValue params, s.broadcaster with
    | some p, some b =>
      let id := subscriptionId X s
      let (b, _) := b.subscribeAll id ⟨p.machines, p.fromStates, p.toStates, p.events⟩ p.includeCtx
      ({ s with broadcaster := some b, uuids := s.uuids + 1 }, ses.addAllSubscription id)
    | _, _ => (s, ses)
  | op =>
    let drawn := op = .createInstance &&
      (CreateInstanceParams.fromValue params).any (·.instanceId.isNone)
    let wal := match wantedEntry X c s params op with
      | some entry => s.engine.wal.unwound X.toExternals entry
      | none => s.engine.wal
    ({ s with engine := { s.engine with wal }, uuids := s.uuids + drawn.toNat }, ses)

/-- What a request leaves that panics: the calls before its last one have done their work. -/
def unwound (X : ServerExternals) (c : CommandHandler) (s : Shared) (ses : Session)
    (request : Request) : Shared × Session :=
  if request.op ∈ watchOps then abandoned X c s ses request.params request.op
  else
    match (calls X c s ses request).getLast? with
    | some k => abandoned X c k.shared k.session.recordRequest k.request.params k.request.op
    | none => (s, ses)

variable {X : ServerExternals} {c : CommandHandler} {s : Shared} {ses : Session} {request : Request}

/-- A request panics in its last call. -/
theorem panics_of_handle (h : handle X c s ses request = none) :
    ∃ front k, calls X c s ses request = front ++ [k] ∧ k.Panics X c := by
  have hafter : After X c (fun _ _ _ => True) [] _ (handle X c s ses request) := calls_after
    (fun _ _ _ _ _ _ => trivial) (fun _ _ _ _ _ _ _ _ _ _ => trivial) trivial request
  rw [h] at hafter
  obtain ⟨front, k, hcalls, -, hk⟩ := hafter
  exact ⟨front, k, hcalls, hk⟩

theorem unwound_of_calls {front : List Call} {k : Call} (hop : request.op ∉ watchOps)
    (h : calls X c s ses request = front ++ [k]) : unwound X c s ses request =
      abandoned X c k.shared k.session.recordRequest k.request.params k.request.op := by
  rw [unwound, if_neg hop, h, List.getLast?_concat]

end Rstmdb
