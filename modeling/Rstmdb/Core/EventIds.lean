import Rstmdb.Core.Creation

/-! The last event id of an instance over a restart. A call sets it to the id of its
event, and to none for an event without one. A replay leaves it alone for such an event,
so that it brings back an id that the instance no longer had. -/
namespace Rstmdb
open Json (Value)

/-- An entry that a replay on this memory deals with as its call did. -/
def WalEntry.Faithful (m : Memory) (entry : WalEntry) : Prop :=
  ∀ id, entry.instanceId = some id → entry.KeepsEventId m.instances[id]?

/-- Replaying an entry on the memory that its call found makes the call's change. -/
theorem Changes.replayEntry_eq {X : CoreExternals} {m m' : Memory} {offset : Nat}
    {entry : WalEntry} (h : Changes X m offset entry m') (hf : entry.Faithful m) :
    replayEntry X m offset entry = some m' := by
  cases h with
  | @putMachine name version _ _ absent valid =>
    have hnew : m.definitions.contains (name, version) = false := Table.contains_eq_false absent
    simp only [replayEntry, not_null_of_valid valid, hnew, valid, Bool.false_eq_true, if_false]
  | @createInstance id _ _ _ _ _ absent =>
    have hnew : m.instances.contains id = false := Table.contains_eq_false absent
    simp only [replayEntry, hnew, Bool.false_eq_true, if_false]
  | @applyEvent id _ _ _ eventId _ i _ _ present =>
    cases eventId with
    | none =>
      have hlast : i.lastEventId = none := hf id rfl i present
      simp only [replayEntry, present, Instance.applyTransition, ← hlast]
    | some => simp only [replayEntry, present, Instance.applyTransition]
  | deleteInstance present => simp only [replayEntry, present, Instance.softDelete]

namespace Engine

variable {X : CoreExternals} {s s' : Engine}

/-- An event without an id is asked for on an instance without a last event id. -/
def keepsEventId (s : Engine) : EngineOp → Prop
  | .applyEvent r => r.eventId = none → ∀ i ∈ s.instances[r.instanceId]?, i.lastEventId = none
  | _ => True

theorem logs_faithful_event {r : EventRequest} {res : Except CoreError ApplyResult}
    (hop : s.keepsEventId (.applyEvent r)) (h : s.applyEvent X r = some (s', res)) :
    Logs X (·.Faithful s.toMemory) s s' := by
  unfold applyEvent at h
  split at h
  · cases h
    exact .kept
  split at h
  · cases h
  · rename_i ha
    cases h
    cases applied_of_applyLocked ha with
    | rejected => exact .kept
    | refused failed => exact .refused failed
  · rename_i s₁ a ha
    cases h
    obtain ⟨i, toState, wal, seq, off, hi, htarget, happend, rfl, rfl⟩ := applyLocked_ok ha
    obtain ⟨-, -, d, guard, hd, hg, hopen⟩ := targetOf_ok htarget
    have hkey : WalEntry.eventKey (.applyEvent r.instanceId r.event i.state toState r.payload
        (mergeCtx i.ctx r.payload) r.eventId r.idempotencyKey) = r.eventKey := by
      unfold EventRequest.eventKey
      cases r.idempotencyKey <;> rfl
    have hlogged := Logs.logged (p := (·.Faithful s.toMemory)) happend
      (.applyEvent hi hd hg hopen) (by
        rintro id ⟨⟩
        cases he : r.eventId with
        | none => exact hop he
        | some => trivial)
    rw [← cacheResult_eq hkey rfl] at hlogged
    exact hlogged

theorem faithful_of_entryType {entry : WalEntry} (h : entry.entryType ≠ .applyEvent) (m : Memory) :
    entry.Faithful m := by
  intro id _
  cases entry <;> trivial

/-- What a call logs under this condition is replayed as it was made. -/
theorem logs_faithful {op : EngineOp} (hop : s.keepsEventId op) (h : s.step X op = some s') :
    Logs X (·.Faithful s.toMemory) s s' ∨
      ∃ config, op = .restart config ∧ new X config s.wal.dir = some (.ok s') := by
  cases op with
  | applyEvent request =>
    obtain ⟨⟨_, res⟩, hc, rfl⟩ := Option.map_eq_some_iff.mp h
    exact .inl (logs_faithful_event hop hc)
  | putMachine =>
    refine (step_logs h).imp_left (Logs.imp fun entry he => faithful_of_entryType ?_ _)
    simp [show entry.entryType = _ from he]
  | createInstance | deleteInstance =>
    refine (step_logs h).imp_left (Logs.imp fun entry he => faithful_of_entryType ?_ _)
    simp [he.1]
  | restart config => exact .inr ⟨config, rfl, step_restart h⟩

/-- Replaying the log gives back the memory, the last event ids included. -/
structure LogReturns (s : Engine) (pre : List (Chunk X.toExternals)) (c : Chunk X.toExternals) :
    Prop where
  repr : s.wal.Repr pre c
  clean : c.tail = []
  replayed : replayEntries X .empty (entries (pre ++ [c])) = some s.toMemory

theorem logReturns_step {pre : List (Chunk X.toExternals)} {c : Chunk X.toExternals} {op : EngineOp}
    (h : s.LogReturns pre c) (hop : s.keepsEventId op) (hs : s.step X op = some s') :
    ∃ pre' c', s'.LogReturns (X := X) pre' c' := by
  obtain hlogs | ⟨config, rfl, hnew⟩ := logs_faithful hop hs
  · cases hlogs with
    | kept => exact ⟨pre, c, h⟩
    | refused failed =>
      obtain ⟨pre', c', hr, ht, he⟩ := h.repr.append_clean h.clean failed
      refine ⟨pre', c', hr, ht, ?_⟩
      rw [he]
      exact h.replayed
    | logged appended changes meets =>
      obtain ⟨pre', c', hr, ht, he⟩ := h.repr.append_clean h.clean appended
      refine ⟨pre', c', hr, ht, ?_⟩
      rw [he, replayEntries_append, h.replayed]
      simp [replayEntries, changes.replayEntry_eq meets]
  · obtain ⟨w, hs₁, hr, -⟩ := new_of_replayed h.repr h.replayed config
    rw [hs₁] at hnew
    cases hnew
    exact ⟨pre, c, hr, h.clean, h.replayed⟩

/-- In every run in which no event without an id is asked for on an instance that has a
last event id, a restart reports the last event ids that were reported before it. -/
theorem last_event_id_restored (X : CoreExternals) {config : WalConfig} {s₀ s : Engine}
    {ops : List EngineOp} (hopen : new X config ∅ = some (.ok s₀))
    (hops : Meets (step X) keepsEventId s₀ ops) (hrun : run (step X) s₀ ops = some s)
    (config' : WalConfig) :
    ∃ s', new X config' s.wal.dir = some (.ok s') ∧ ∀ id,
      (s'.getInstance id).map Instance.lastEventId =
        (s.getInstance id).map Instance.lastEventId := by
  have hstart : ∃ pre c, s₀.LogReturns (X := X) pre c := by
    obtain rfl := eq_fresh_of_new hopen
    exact ⟨[], _, repr_fresh X config, rfl, rfl⟩
  obtain ⟨pre, c, h⟩ := run_keeps_of_meets (P := fun s => ∃ pre c, s.LogReturns (X := X) pre c)
    (fun _ _ _ ⟨_, _, h⟩ hop hs => logReturns_step h hop hs) hstart hops hrun
  obtain ⟨w, hnew, -⟩ := new_of_replayed h.repr h.replayed config'
  exact ⟨_, hnew, fun id => rfl⟩

/-- An event on the instance of the loop machine, with this id. -/
def eventWith (eventId : Option String) : EngineOp :=
  .applyEvent ⟨"i", "e", .null, none, none, eventId, none⟩

instance (s : Engine) : ∀ op, Decidable (s.keepsEventId op)
  | .applyEvent r => inferInstanceAs
      (Decidable (r.eventId = none → ∀ i ∈ s.instances[r.instanceId]?, i.lastEventId = none))
  | .putMachine .. | .createInstance .. | .deleteInstance .. | .restart _ =>
    inferInstanceAs (Decidable True)

set_option maxRecDepth 4000 in
/-- An event without an id, and one with. -/
theorem last_event_id_restored_of_id :
    ∃ s, run (step serdeCore) (fresh ⟨1000, .everyWrite⟩)
        [.putMachine "m" 1 loopMachine, .createInstance "i" "m" 1 .null none, eventWith none,
          eventWith (some "x")] = some s ∧
      (s.instances["i"]?).map Instance.lastEventId = some (some "x") ∧
      ∃ s', new serdeCore ⟨1000, .everyWrite⟩ s.wal.dir = some (.ok s') ∧ ∀ id,
        (s'.getInstance id).map Instance.lastEventId =
          (s.getInstance id).map Instance.lastEventId := by
  refine run_exists
    (p := fun s => (s.instances["i"]?).map Instance.lastEventId = some (some "x"))
    (by decide +kernel) ?_
  intro s hrun hi
  exact ⟨hi, last_event_id_restored serdeCore (new_empty serdeCore _) (by decide +kernel) hrun
    ⟨1000, .everyWrite⟩⟩

/-- The entries of an event with an id and one without. -/
def namedAndUnnamed : List WalEntry :=
  [.putMachine "m" 1 "6c3fccfb" loopMachine, .createInstance "i" "m" 1 "a" .null none,
    .applyEvent "i" "e" "a" "a" .null .null (some "x") none,
    .applyEvent "i" "e" "a" "a" .null .null none none]

set_option maxRecDepth 4000 in
/-- An event with an id, one without, and a restart: the first id is back. -/
theorem last_event_id_returns :
    ∃ s, run (step serdeCore) (fresh ⟨1000, .everyWrite⟩)
        [.putMachine "m" 1 loopMachine, .createInstance "i" "m" 1 .null none,
          eventWith (some "x"), eventWith none] = some s ∧
      (s.instances["i"]?).map Instance.lastEventId = some none ∧
      ∃ s', s.step serdeCore (.restart ⟨1000, .everyWrite⟩) = some s' ∧
        (s'.instances["i"]?).map Instance.lastEventId = some (some "x") := by
  rw [← serdeCoreReading_eq namedAndUnnamed]
  refine run_exists (p := fun s => (s.instances["i"]?).map Instance.lastEventId = some none ∧
    (s.step (serdeCoreReading namedAndUnnamed) (.restart ⟨1000, .everyWrite⟩)).any (fun s' =>
      decide ((s'.instances["i"]?).map Instance.lastEventId = some (some "x"))) = true)
    (by decide +kernel) ?_
  rintro s - ⟨hbefore, hafter⟩
  obtain ⟨s', hs', hid⟩ := (Option.any_eq_true _ _).mp hafter
  exact ⟨hbefore, s', hs', of_decide_eq_true hid⟩

end Engine

end Rstmdb
