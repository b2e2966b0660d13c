import Rstmdb.Server.Deletion

/-! The states in which the server makes its calls: over every run the log is open and in
order. -/
namespace Rstmdb

/-! ## The log stays open -/

namespace Wal

variable {X : Externals} {w w' : Wal}

theorem appendLocked_closed {r : WalRecord} {res : Except WalError (UInt64 × WalOffset)}
    (h : w.appendLocked r = some (w', res)) : w'.closed = w.closed := by
  cases hcur : w.current with
  | none => simp [appendLocked, hcur] at h
  | some seg =>
    obtain ⟨-, rfl, -⟩ | ⟨-, -, rfl, -⟩ := appendLocked_cases hcur h
    · rfl
    · obtain hp | hp := applyPolicy_cases (w.written seg r) (grownSegment seg r) <;>
      · rw [hp]
        rfl

theorem append_closed {e : WalEntry} {res : Except WalError (UInt64 × WalOffset)}
    (h : w.append X e = some (w', res)) : w'.closed = w.closed := by
  obtain ⟨-, rfl, -⟩ | ⟨-, -, -, rfl, -⟩ | ⟨-, -, -, h⟩ | ⟨-, -, h⟩ := append_cases h
  · rfl
  · rfl
  · have hc := appendLocked_closed h
    exact hc
  · have hc := appendLocked_closed h
    exact hc

theorem compactBefore_closed (w : Wal) (before : WalOffset) :
    (w.compactBefore before).1.closed = w.closed := by
  obtain ⟨deleted, he⟩ := compactBefore_eq w before
  rw [he]

theorem openSegments_closed {ids : List SegmentId} {n m : UInt64}
    (h : openSegments X ids w n = .ok (w', m)) : w'.closed = w.closed := by
  induction ids generalizing w n with
  | nil =>
    cases h
    rfl
  | cons id ids ih =>
    unfold openSegments at h
    split at h
    · cases h
    split at h
    · cases h
    · have hc := ih h
      exact hc

theorem recover_closed (h : recover X w = .ok w') : w'.closed = w.closed := by
  unfold recover at h
  split at h
  · obtain ⟨-, hr⟩ | ⟨-, hr⟩ := rotateSegment_cases w <;> rw [hr] at h <;> cases h
    rfl
  split at h
  · cases h
  rename_i hopen
  split at h
  · cases h
  · cases h
    have hc := openSegments_closed hopen
    exact hc

theorem openDir_closed {config : WalConfig} {dir : Dir} (h : openDir X config dir = .ok w) :
    w.closed = false := by
  have hc := recover_closed h
  exact hc

end Wal

theorem Engine.new_closed {X : CoreExternals} {config : WalConfig} {dir : Dir} {e : Engine}
    (h : Engine.new X config dir = some (.ok e)) : e.wal.closed = false := by
  unfold Engine.new at h
  split at h
  · cases h
  rename_i wal hopen
  unfold Engine.withWal at h
  split at h
  · cases h
  · cases h
  rename_i wal' entries hread
  split at h
  · cases h
  cases h
  obtain ⟨stats, rfl⟩ := Wal.readFrom_frame hread
  have hc := Wal.openDir_closed hopen
  exact hc

theorem EngineTouched.closed {X : CoreExternals} {e e' : Engine} {op : Operation}
    (h : EngineTouched X e op e') : e'.wal.closed = e.wal.closed := by
  cases h with
  | called hl =>
    cases hl with
    | kept => rfl
    | refused failed => exact Wal.append_closed failed
    | logged appended => exact Wal.append_closed appended
  | readLog => rfl
  | compacted before => exact Wal.compactBefore_closed _ before

theorem runCompaction_closed (X : ServerExternals) (s : Shared) (store : SnapshotStore) :
    (runCompaction X s store).1.engine.wal.closed = s.engine.wal.closed := by
  obtain ⟨dir, n, before, h⟩ := runCompaction_eq X s store
  rw [h]
  cases before with
  | none => rfl
  | some => exact Wal.compactBefore_closed _ _

/-! ## Calls -/

/-- The state in which a call is made: the engine is sound, its instances have the names
they are kept under, and the log is open. -/
structure Call.Sound (X : ServerExternals) (k : Call) : Prop where
  sound : ∃ compaction pre ch, k.shared.Sound X compaction pre ch
  named : k.shared.engine.toMemory.Named
  opened : k.shared.engine.wal.closed = false

/-- What holds of the server along a run, and of every state in which a call was made. -/
structure CallsSound (X : ServerExternals) (l : List ServerEvent) (server : Server) : Prop where
  sound : ∃ pre ch, server.shared.Sound X server.compaction pre ch
  named : server.shared.engine.toMemory.Named
  opened : server.shared.engine.wal.closed = false
  calls : ∀ c k, .called c k ∈ l → k.Sound X

section
variable {X : ServerExternals} {l : List ServerEvent} {server : Server}

theorem CallsSound.called (h : CallsSound X l server) (c₁ : CommandHandler) (ses : Session)
    (request : Request) :
    ∀ c k, .called c k ∈ l ++ [.called c₁ ⟨server.shared, ses, request⟩] → k.Sound X := by
  intro c k hk
  obtain hk | hk := List.mem_append.mp hk
  · exact h.calls c k hk
  · cases List.mem_singleton.mp hk
    exact ⟨⟨_, h.sound⟩, h.named, h.opened⟩

theorem CallsSound.other (h : CallsSound X l server) {e : ServerEvent}
    (he : ∀ c k, e ≠ .called c k) : ∀ c k, .called c k ∈ l ++ [e] → k.Sound X := by
  intro c k hk
  obtain hk | hk := List.mem_append.mp hk
  · exact h.calls c k hk
  · exact absurd (List.mem_singleton.mp hk).symm (he c k)

theorem callsSound_run {config : ServerConfig} {ops : List ServerOp}
    (hrun : run (Server.step X) (.fresh config) ops = some server) :
    CallsSound X ((Server.fresh config).trace X ops) server := by
  have hfresh : CallsSound X [] (.fresh config) :=
    ⟨⟨[], _, Server.shared_sound_fresh X config⟩, Memory.named_empty, rfl, by simp⟩
  refine Server.trace_keep (P := CallsSound X) (l := []) ?_ ?_ ?_ ?_ hfresh hrun
  · intro l server ses request h hr
    exact ⟨h.sound, h.named, h.opened, h.called _ ses request⟩
  · intro l server ses request s' ses' answer h hr he
    obtain ⟨pre, ch, hsound⟩ := h.sound
    obtain ⟨pre', ch', hsound', -⟩ := hsound.execute he
    exact ⟨⟨pre', ch', hsound'⟩, (execute_engine he).named h.named,
      (execute_engine he).closed.trans h.opened, h.called _ ses request⟩
  · intro l server h
    obtain ⟨pre, ch, hsound⟩ := h.sound
    have hmem := runCompaction_memory X server.shared server.compaction
    exact ⟨⟨_, ch, hsound.runCompaction⟩, hmem ▸ h.named,
      (runCompaction_closed X _ _).trans h.opened, h.other (by rintro _ _ ⟨⟩)⟩
  · intro l server config server' h hs
    obtain ⟨pre, ch, hsound⟩ := h.sound
    obtain ⟨_, hs', hsound', hreplay⟩ := Server.Sound.start hsound (Server.start_tokens hs)
    cases hs.symm.trans hs'
    exact ⟨⟨pre, ch, hsound'⟩, replayEntries_named hreplay Memory.named_empty,
      Engine.new_closed (Server.start_parts hs).1,
      h.other (by rintro _ _ ⟨⟩)⟩

theorem calls_sound {config : ServerConfig} {ops : List ServerOp}
    (hrun : run (Server.step X) (.fresh config) ops = some server) {c : CommandHandler} {k : Call}
    (hk : .called c k ∈ (Server.fresh config).trace X ops) : k.Sound X :=
  (callsSound_run hrun).calls c k hk

end

end Rstmdb
