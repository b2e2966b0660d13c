import Rstmdb.Core.Recovery
import Rstmdb.Core.Versions
import Rstmdb.Server.Handler

/-! The limit on the versions of a machine, with `PUT_MACHINE` requests from many
connections and restarts. The handler counts the versions in memory before it calls the
engine, which looks, logs and stores in steps of its own. -/
namespace Rstmdb
open Json (Value)

/-! ## Requests -/

def PutMachineParams.call (p : PutMachineParams) : EngineCall :=
  .putMachine p.machine p.version p.definition

/-- Where a `PUT_MACHINE` request stands between two atomic steps. -/
inductive PutTask
  | counting (p : PutMachineParams)
  /-- The limit was not reached, and the engine is called. -/
  | registering (p : PutMachineParams) (pc : CallPc WalEntry)
  | refused

/-- The next atomic step of `handle_put_machine`. -/
def PutTask.next (X : CoreExternals) (c : CommandHandler) (s : ThreadedEngine) :
    PutTask → Option (ThreadedEngine × PutTask)
  | .counting p =>
    if versionLimitReached c s.engine p.machine p.version then some (s, .refused)
    else some (s, .registering p .started)
  | .registering p pc =>
    (p.call.next X (wholeAppend X.toExternals) s pc).map fun (s, pc) => (s, .registering p pc)
  | .refused => none

inductive PutOp
  | sched (op : Sched PutMachineParams)
  /-- The process ends and another starts on the same directory. -/
  | restart (config : WalConfig)

def putStep (X : CoreExternals) (c : CommandHandler) :
    ThreadedEngine × List PutTask → PutOp → Option (ThreadedEngine × List PutTask)
  | st, .sched op => interleave (fun _ p => .counting p) (PutTask.next X c) st op
  | (s, _), .restart config =>
    match Engine.new X config s.engine.wal.dir with
    | some (.ok engine) => some (⟨engine, [], []⟩, [])
    | _ => none

/-! ## A request alone -/

section
variable {X : ServerExternals} {c : CommandHandler} {s s' : Shared} {params : Value}
  {p : PutMachineParams} {r : Answered}

/-- The steps of a request alone are those of its call of the engine. -/
theorem run_registering {n : Nat} {s s' : ThreadedEngine} {pc pc' : CallPc WalEntry}
    (h : run (engineSched X.toCoreExternals (wholeAppend X.toExternals)) (s, [⟨p.call, pc⟩])
      (List.replicate n (.step 0)) = some (s', [⟨p.call, pc'⟩])) :
    run (putStep X.toCoreExternals c) (s, [.registering p pc])
      (List.replicate n (.sched (.step 0))) = some (s', [.registering p pc']) := by
  induction n generalizing s pc with
  | zero =>
    cases h
    rfl
  | succ n ih =>
    rw [List.replicate_succ, run_cons] at h ⊢
    obtain ⟨⟨s₁, ts⟩, hs, hrest⟩ := h
    cases hn : p.call.next X.toCoreExternals (wholeAppend X.toExternals) s pc with
    | none => simp [engineSched, interleave, EngineThread.next, hn] at hs
    | some out =>
      obtain ⟨s₂, pc₁⟩ := out
      obtain ⟨rfl, rfl⟩ : s₂ = s₁ ∧ [⟨p.call, pc₁⟩] = ts := by
        simpa [engineSched, interleave, EngineThread.next, hn] using hs
      exact ⟨(s₂, [.registering p pc₁]), by simp [putStep, interleave, PutTask.next, hn], ih hrest⟩

/-- A request that nothing comes between does what `handle_put_machine` does. -/
theorem put_machine_alone (hp : PutMachineParams.fromValue params = some p)
    (h : handlePutMachine X c s params = some (s', r)) :
    ∃ n t u, run (putStep X.toCoreExternals c) (⟨s.engine, [], []⟩, [])
        (.sched (.spawn p) :: List.replicate n (.sched (.step 0))) = some (t, [u]) ∧
      t.engine = s'.engine ∧ u.next X.toCoreExternals c t = none := by
  simp only [handlePutMachine, hp] at h
  split at h
  · rename_i hfull
    cases h
    refine ⟨1, ⟨s.engine, [], []⟩, .refused, ?_, rfl, rfl⟩
    simp [run, putStep, interleave, PutTask.next, hfull]
  · rename_i hroom
    have ended {e : Engine} {res : Except CoreError (String × Bool)}
        (hput : s.engine.putMachine X.toCoreExternals p.machine p.version p.definition =
          some (e, res)) :
        ∃ n t u, run (putStep X.toCoreExternals c) (⟨s.engine, [], []⟩, [])
            (.sched (.spawn p) :: List.replicate n (.sched (.step 0))) = some (t, [u]) ∧
          t.engine = e ∧ u.next X.toCoreExternals c t = none := by
      obtain ⟨n, t, hrun, he, -⟩ :=
        EngineCall.alone_putMachine [] (wholeAppend_whole X.toExternals) hput
      refine ⟨n + 1, t, .registering p (.done (res.map fun q => .machine q.1 q.2)), ?_, he, rfl⟩
      rw [run_cons]
      refine ⟨(⟨s.engine, [], []⟩, [.counting p]), rfl, ?_⟩
      rw [List.replicate_succ, run_cons]
      refine ⟨(⟨s.engine, [], []⟩, [.registering p .started]), ?_, run_registering hrun⟩
      simp [putStep, interleave, PutTask.next, hroom]
    split at h
    · cases h
    · rename_i hput
      cases h
      exact ended hput
    · rename_i hput
      cases h
      exact ended hput

end

/-! ## Counting versions -/

section
variable {s s' : Engine} {name : String}

theorem Engine.mem_getMachineVersions {version : UInt32} :
    version ∈ s.getMachineVersions name ↔ s.definitions.contains (name, version) = true := by
  simp only [getMachineVersions, List.mem_filterMap, Std.ExtTreeMap.mem_keys]
  constructor
  · rintro ⟨⟨n, v⟩, hmem, hkey⟩
    simp only [Option.ite_none_right_eq_some, Option.some.injEq] at hkey
    obtain ⟨rfl, rfl⟩ := hkey
    exact Std.ExtTreeMap.contains_iff_mem.mpr hmem
  · intro h
    exact ⟨(name, version), Std.ExtTreeMap.contains_iff_mem.mp h, by simp⟩

theorem Engine.nodup_getMachineVersions (s : Engine) (name : String) :
    (s.getMachineVersions name).Nodup := by
  apply List.Nodup.filterMap
  · rintro ⟨n, v⟩ ⟨n', v'⟩ w hw hw'
    simp only [Option.mem_def, Option.ite_none_right_eq_some, Option.some.injEq] at hw hw'
    obtain ⟨rfl, rfl⟩ := hw
    obtain ⟨rfl, rfl⟩ := hw'
    rfl
  · exact s.definitions.nodup_keys

theorem Engine.length_getMachineVersions_le (new : List UInt32)
    (h : ∀ version, s'.definitions.contains (name, version) = true →
      s.definitions.contains (name, version) = true ∨ version ∈ new) :
    (s'.getMachineVersions name).length ≤ (s.getMachineVersions name).length + new.length := by
  rw [← List.length_append]
  apply List.Subperm.length_le
  apply (s'.nodup_getMachineVersions name).subperm
  intro version hv
  rw [List.mem_append, mem_getMachineVersions]
  exact h version (mem_getMachineVersions.mp hv)

theorem Engine.length_getMachineVersions_room {k : Nat} {version : UInt32}
    (limit : (s.getMachineVersions name).length ≤ k)
    (room : s.definitions.contains (name, version) = true ∨
      (s.getMachineVersions name).length < k)
    (h : ∀ v, s'.definitions.contains (name, v) = true →
      s.definitions.contains (name, v) = true ∨ v = version) :
    (s'.getMachineVersions name).length ≤ k := by
  obtain hin | hlt := room
  · refine Nat.le_trans (length_getMachineVersions_le [] ?_) limit
    intro v hv
    obtain hv | rfl := h v hv
    · exact .inl hv
    · exact .inl hin
  · refine Nat.le_trans (length_getMachineVersions_le [version] ?_) hlt
    intro v hv
    exact (h v hv).imp_right List.mem_singleton.mpr

theorem Engine.getMachineVersions_congr (h : s'.definitions = s.definitions) (name : String) :
    s'.getMachineVersions name = s.getMachineVersions name := by
  rw [getMachineVersions, getMachineVersions, h]

end

theorem room_of_not_reached {c : CommandHandler} {s : Engine} {machine : String}
    {version : UInt32} (hk : 0 < c.maxMachineVersions)
    (h : versionLimitReached c s machine version = false) :
    s.definitions.contains (machine, version) = true ∨
      (s.getMachineVersions machine).length < c.maxMachineVersions.toNat := by
  simp only [versionLimitReached, Bool.and_eq_false_iff, Bool.not_eq_false', List.contains_iff_mem,
    decide_eq_false_iff_not, Engine.mem_getMachineVersions] at h
  obtain (h | h) | h := h
  · exact absurd hk h
  · exact .inl h
  · exact .inr (by omega)

/-! ## What a step can do -/

namespace PutTask

/-- The version that the request has been let through with and is registering. -/
def registers : PutTask → Option (String × UInt32)
  | .registering _ (.done _) => none
  | .registering p _ => some (p.machine, p.version)
  | _ => none

/-- The machine that the request is registering a version of. -/
def machine (t : PutTask) : Option String := t.registers.map Prod.fst

/-- The version that is in the log and about to be stored. -/
def unstored : PutTask → Option (String × UInt32)
  | .registering p (.logged ..) => some (p.machine, p.version)
  | _ => none

theorem registers_of_unstored {t : PutTask} {key : String × UInt32}
    (h : t.unstored = some key) : t.registers = some key := by
  unfold unstored at h
  split at h
  · exact h
  · cases h

/-- What the request has found is its own. -/
def Own : PutTask → Prop
  | .registering p (.logging q entry) =>
    entry = q.entry ∧ ∃ d, q = .putMachine p.machine p.version p.definition d
  | .registering p (.logged q _ _) => ∃ d, q = .putMachine p.machine p.version p.definition d
  | _ => True

end PutTask

/-- All that a step of a request can do. -/
inductive PutStepped (X : CoreExternals) (c : CommandHandler) (s : ThreadedEngine) :
    PutTask → ThreadedEngine → PutTask → Prop
  | full {p : PutMachineParams} : PutStepped X c s (.counting p) s .refused
  | counted {p : PutMachineParams}
      (room : versionLimitReached c s.engine p.machine p.version = false) :
      PutStepped X c s (.counting p) s (.registering p .started)
  | answered {p : PutMachineParams} {r : Except CoreError CallResult} :
      PutStepped X c s (.registering p .started) s (.registering p (.done r))
  | planned {p : PutMachineParams} (d : MachineDefinition) :
      PutStepped X c s (.registering p .started) s (.registering p (.logging
        (.putMachine p.machine p.version p.definition d)
        (.putMachine p.machine p.version d.checksum p.definition)))
  | failed {p : PutMachineParams} {q : Pending} {entry : WalEntry} {wal : Wal} {err : WalError}
      (h : s.engine.wal.append X.toExternals entry = some (wal, .error err)) :
      PutStepped X c s (.registering p (.logging q entry)) (s.setWal wal)
        (.registering p (.done (.error (.wal err))))
  | logged {p : PutMachineParams} {d : MachineDefinition} {wal : Wal} {seq : UInt64}
      {off : WalOffset}
      (h : s.engine.wal.append X.toExternals
        (.putMachine p.machine p.version d.checksum p.definition) = some (wal, .ok (seq, off)))
      (records : List ReadEntry) :
      PutStepped X c s (.registering p (.logging (.putMachine p.machine p.version p.definition d)
          (.putMachine p.machine p.version d.checksum p.definition)))
        { s.setWal wal with appended := records }
        (.registering p (.logged (.putMachine p.machine p.version p.definition d) seq off))
  | stored {p : PutMachineParams} {d : MachineDefinition} {seq : UInt64} {off : WalOffset}
      {r : Except CoreError CallResult} :
      PutStepped X c s
        (.registering p (.logged (.putMachine p.machine p.version p.definition d) seq off))
        (s.setEngine { s.engine with
          definitions := s.engine.definitions.insert (p.machine, p.version) d })
        (.registering p (.done r))

section
variable {X : CoreExternals} {c : CommandHandler} {s s' : ThreadedEngine} {t t' : PutTask}

theorem putStepped_registering {p : PutMachineParams} {pc pc' : CallPc WalEntry}
    (own : (PutTask.registering p pc).Own)
    (h : p.call.next X (wholeAppend X.toExternals) s pc = some (s', pc')) :
    PutStepped X c s (.registering p pc) s' (.registering p pc') := by
  cases pc with
  | started =>
    simp only [EngineCall.next, PutMachineParams.call, EngineCall.begin] at h
    split at h
    · cases h
    · cases h
      exact .answered
    · split at h <;> cases h <;> exact .answered
    · cases h
      exact .planned _
  | missed | absent | locked | caching | done => cases h
  | logging q entry =>
    simp only [EngineCall.next, EngineCall.append] at h
    split at h
    · cases h
    · rename_i hn
      obtain ⟨r, -, hq⟩ := wholeAppend_next hn
      cases hq
    · rename_i hn
      obtain ⟨r, ha, hq⟩ := wholeAppend_next hn
      cases hq
      cases h
      exact .failed ha
    · rename_i hn
      obtain ⟨r, ha, hq⟩ := wholeAppend_next hn
      cases hq
      cases h
      obtain ⟨rfl, d, rfl⟩ := own
      exact .logged ha _
  | logged q seq off =>
    obtain ⟨d, rfl⟩ := own
    cases h
    exact .stored

theorem putStepped_of_next (own : t.Own) (h : t.next X c s = some (s', t')) :
    PutStepped X c s t s' t' := by
  cases t with
  | counting p =>
    simp only [PutTask.next] at h
    split at h <;> cases h <;> rename_i hroom
    · exact .full
    · exact .counted (Bool.eq_false_iff.mpr hroom)
  | registering p pc =>
    obtain ⟨⟨s₁, pc'⟩, hn, hout⟩ := Option.map_eq_some_iff.mp h
    cases hout
    exact putStepped_registering own hn
  | refused => cases h

end

/-! ## The limit -/

/-- A request counts the versions of its machine while no other request for that machine
is between its count and its insert. -/
def countsAlone (st : ThreadedEngine × List PutTask) : PutOp → Bool
  | .sched (.step k) =>
    match st.2[k]? with
    | some (.counting p) => st.2.all fun t => t.machine != some p.machine
    | _ => true
  | _ => true

/-- No machine has too many versions, nor will it when what is in the log and what is
being registered is stored. -/
structure Limited {X : CoreExternals} (k : Nat) (s : ThreadedEngine) (ts : List PutTask)
    (pre : List (Chunk X.toExternals)) (c : Chunk X.toExternals) : Prop where
  repr : s.engine.wal.Repr pre c
  clean : c.tail = []
  own : ∀ t ∈ ts, t.Own
  logged : ∀ m, replayEntries X .empty (entries (pre ++ [c])) = some m →
    ∀ key, m.definitions.contains key = true →
      s.engine.definitions.contains key = true ∨ ∃ t ∈ ts, t.unstored = some key
  distinct : (ts.filterMap PutTask.machine).Nodup
  room : ∀ t ∈ ts, ∀ key ∈ t.registers, s.engine.definitions.contains key = true ∨
    (s.engine.getMachineVersions key.1).length < k
  limit : ∀ name, (s.engine.getMachineVersions name).length ≤ k

namespace Limited

section
variable {X : CoreExternals} {k : Nat} {s s' : ThreadedEngine} {ts xs ys : List PutTask}
  {t t' : PutTask} {pre pre' : List (Chunk X.toExternals)} {c c' : Chunk X.toExternals}

/-- A request that registers what it registered, or nothing any more, and stores nothing. -/
theorem moved (h : Limited k s (xs ++ t :: ys) pre c) (repr : s'.engine.wal.Repr pre' c')
    (clean : c'.tail = []) (defs : s'.engine.definitions = s.engine.definitions) (own : t'.Own)
    (logged : ∀ m', replayEntries X .empty (entries (pre' ++ [c'])) = some m' →
      ∃ m, replayEntries X .empty (entries (pre ++ [c])) = some m ∧
        ∀ key, m'.definitions.contains key = true →
          m.definitions.contains key = true ∨ t'.unstored = some key)
    (unstored : t.unstored = none)
    (registers : t'.registers = t.registers ∨ t'.registers = none) :
    Limited k s' (xs ++ t' :: ys) pre' c' := by
  have hroom : ∀ key ∈ t'.registers, s.engine.definitions.contains key = true ∨
      (s.engine.getMachineVersions key.1).length < k := by
    intro key hkey
    obtain hsame | hnone := registers
    · exact h.room t (by simp) key (hsame ▸ hkey)
    · simp [hnone] at hkey
  refine ⟨repr, clean, forall_replace h.own own, ?_, ?_, ?_, ?_⟩
  · intro m' hm' key hkey
    rw [defs]
    obtain ⟨m, hm, hsub⟩ := logged m' hm'
    obtain hold | hnew := hsub key hkey
    · obtain hin | ⟨u, hu, hkey⟩ := h.logged m hm key hold
      · exact .inl hin
      · obtain rfl | hu := mem_replace hu
        · simp [unstored] at hkey
        · exact .inr ⟨u, mem_of_others _ hu, hkey⟩
    · exact .inr ⟨t', by simp, hnew⟩
  · apply nodup_replace h.distinct
    intro name hname
    obtain hsame | hnone := registers
    · exact .inl (by simpa [PutTask.machine, hsame] using hname)
    · simp [PutTask.machine, hnone] at hname
  · simp only [defs, Engine.getMachineVersions_congr defs]
    exact forall_replace h.room hroom
  · simp only [Engine.getMachineVersions_congr defs]
    exact h.limit

theorem kept (h : Limited k s (xs ++ t :: ys) pre c) (own : t'.Own) (unstored : t.unstored = none)
    (registers : t'.registers = t.registers ∨ t'.registers = none) :
    Limited k s (xs ++ t' :: ys) pre c :=
  h.moved h.repr h.clean rfl own (fun m hm => ⟨m, hm, fun _ hin => .inl hin⟩) unstored registers

theorem spawned (h : Limited k s ts pre c) (p : PutMachineParams) :
    Limited k s (ts ++ [.counting p]) pre c := by
  refine ⟨h.repr, h.clean, ?_, ?_, ?_, ?_, h.limit⟩
  · exact forall_spawned h.own trivial
  · intro m hm key hkey
    obtain hin | ⟨t, ht, hkey⟩ := h.logged m hm key hkey
    · exact .inl hin
    · exact .inr ⟨t, List.mem_append_left _ ht, hkey⟩
  · rw [filterMap_spawned rfl]
    exact h.distinct
  · exact forall_spawned h.room (by rintro _ ⟨⟩)

theorem counted {p : PutMachineParams} (h : Limited k s (xs ++ .counting p :: ys) pre c)
    (alone : ∀ u ∈ xs ++ .counting p :: ys, u.machine ≠ some p.machine)
    (room : s.engine.definitions.contains (p.machine, p.version) = true ∨
      (s.engine.getMachineVersions p.machine).length < k) :
    Limited k s (xs ++ .registering p .started :: ys) pre c := by
  refine ⟨h.repr, h.clean, forall_replace h.own trivial, ?_, ?_, ?_, h.limit⟩
  · intro m hm key hkey
    obtain hin | ⟨u, hu, hkey⟩ := h.logged m hm key hkey
    · exact .inl hin
    · obtain rfl | hu := mem_replace hu
      · cases hkey
      · exact .inr ⟨u, mem_of_others _ hu, hkey⟩
  · apply nodup_replace h.distinct
    rintro _ ⟨⟩
    exact .inr fun u hu => alone u (mem_of_others _ hu)
  · apply forall_replace h.room
    rintro _ ⟨⟩
    exact room

theorem stored {p : PutMachineParams} {d : MachineDefinition} {q : Pending} {seq : UInt64}
    {off : WalOffset} {r : Except CoreError CallResult}
    (h : Limited k s (xs ++ .registering p (.logged q seq off) :: ys) pre c) :
    Limited k (s.setEngine { s.engine with
        definitions := s.engine.definitions.insert (p.machine, p.version) d })
      (xs ++ .registering p (.done r) :: ys) pre c := by
  have hothers : ∀ u ∈ xs ++ ys, u.machine ≠ some p.machine :=
    others_of_nodup h.distinct rfl
  have hold (key : String × UInt32) (hin : s.engine.definitions.contains key = true) :
      (s.engine.definitions.insert (p.machine, p.version) d).contains key = true := by
    simp [Std.ExtTreeMap.contains_insert, hin]
  have hnew (name : String) (version : UInt32)
      (hin : (s.engine.definitions.insert (p.machine, p.version) d).contains (name, version) =
        true) : (name, version) = (p.machine, p.version) ∨
          s.engine.definitions.contains (name, version) = true := by
    rw [Std.ExtTreeMap.contains_insert, Bool.or_eq_true, beq_iff_eq,
      Std.compare_eq_iff_eq] at hin
    exact hin.imp_left Eq.symm
  -- the versions of another machine are as many as before
  have hsame (name : String) (hne : name ≠ p.machine) :
      (Engine.getMachineVersions { s.engine with
        definitions := s.engine.definitions.insert (p.machine, p.version) d } name).length ≤
          (s.engine.getMachineVersions name).length := by
    apply Engine.length_getMachineVersions_le []
    intro version hin
    obtain heq | hin := hnew name version hin
    · exact absurd (congrArg Prod.fst heq) hne
    · exact .inl hin
  refine ⟨h.repr, h.clean, forall_replace h.own trivial, ?_, ?_, ?_, ?_⟩
  · intro m hm key hkey
    obtain hin | ⟨u, hu, hkey⟩ := h.logged m hm key hkey
    · exact .inl (hold key hin)
    · obtain rfl | hu := mem_replace hu
      · cases hkey
        exact .inl (by simp [ThreadedEngine.setEngine])
      · exact .inr ⟨u, mem_of_others _ hu, hkey⟩
  · apply nodup_replace h.distinct
    rintro _ ⟨⟩
  · intro u hu key hkey
    obtain rfl | hu := mem_replace hu
    · cases hkey
    have hne : key.1 ≠ p.machine := by
      intro heq
      apply hothers u hu
      rw [PutTask.machine, Option.mem_def.mp hkey, Option.map_some, heq]
    obtain hin | hlt := h.room u (mem_of_others _ hu) key hkey
    · exact .inl (hold key hin)
    · exact .inr (Nat.lt_of_le_of_lt (hsame key.1 hne) hlt)
  · intro name
    by_cases hname : name = p.machine
    · subst hname
      apply Engine.length_getMachineVersions_room (h.limit p.machine)
        (h.room (.registering p (.logged q seq off)) (by simp) _ rfl)
      intro version hin
      obtain heq | hin := hnew p.machine version hin
      · exact .inr (congrArg Prod.snd heq)
      · exact .inl hin
    · exact Nat.le_trans (hsame name hname) (h.limit name)

end

end Limited

/-! ## Restarts -/

section
variable {X : CoreExternals} {m m' : Memory} {key : String × UInt32}

theorem replayEntry_defines {off : Nat} {entry : WalEntry}
    (h : replayEntry X m off entry = some m') (hin : m'.definitions.contains key = true) :
    m.definitions.contains key = true ∨ entry.defines = some key := by
  by_cases hput : entry.entryType = .putMachine
  · cases entry <;> cases hput
    simp only [replayEntry] at h
    split at h
    · cases h
      exact .inl hin
    split at h
    · cases h
      exact .inl hin
    split at h <;> cases h
    · exact .inl hin
    · rw [Memory.setDefinition, Std.ExtTreeMap.contains_insert, Bool.or_eq_true, beq_iff_eq,
        Std.compare_eq_iff_eq] at hin
      exact hin.symm.imp_right (congrArg some)
  · obtain ⟨m₁, hm₁, hsame⟩ := replayEntry_definitions X m off hput
    rw [h] at hm₁
    cases hm₁
    rw [hsame] at hin
    exact .inl hin

theorem Engine.new_replays {pre : List (Chunk X.toExternals)} {c : Chunk X.toExternals} {w : Wal}
    (hr : w.Repr pre c) {config : WalConfig} {e : Engine}
    (h : new X config w.dir = some (.ok e)) :
    replayEntries X .empty (entries (pre ++ [c])) = some e.toMemory ∧ e.wal.Repr pre c := by
  cases hm : replayEntries X .empty (entries (pre ++ [c])) with
  | none =>
    obtain ⟨w', hopen, hr', -⟩ := Wal.openDir_of_holds hr.holds config
    obtain ⟨stats, hread⟩ := hr'.readFrom
    simp [new, hopen, withWal, hread, hm] at h
  | some m =>
    obtain ⟨w', hnew, hr', -⟩ := new_of_replayed hr hm config
    rw [hnew] at h
    cases h
    exact ⟨rfl, hr'⟩

end

namespace Limited

section
variable {X : CoreExternals} {ch : CommandHandler} {k : Nat} {s s' : ThreadedEngine}
  {ts ts' xs ys : List PutTask} {t t' : PutTask} {pre : List (Chunk X.toExternals)}
  {c : Chunk X.toExternals}

/-- Of a machine, one version at most is in the log and not yet stored. -/
theorem unstored_unique (h : Limited k s ts pre c) {u : PutTask} (ht : t ∈ ts) (hu : u ∈ ts)
    {name : String} {v v' : UInt32} (htv : t.unstored = some (name, v))
    (huv : u.unstored = some (name, v')) : v = v' := by
  have machine {x : PutTask} {w : UInt32} (hx : x.unstored = some (name, w)) :
      x.machine = some name := by
    simp [PutTask.machine, PutTask.registers_of_unstored hx]
  obtain ⟨xs, ys, rfl⟩ := List.append_of_mem ht
  obtain rfl | hu := mem_replace hu
  · rw [htv] at huv
    cases huv
    rfl
  · exact absurd (machine huv) (others_of_nodup h.distinct (machine htv) u hu)

/-- What was in the log and not yet stored is there after a restart, and no more. -/
theorem restarted (h : Limited k s ts pre c) {config : WalConfig} {e : Engine}
    (hnew : Engine.new X config s.engine.wal.dir = some (.ok e)) :
    Limited k ⟨e, [], []⟩ [] pre c := by
  obtain ⟨hm, hr⟩ := Engine.new_replays h.repr hnew
  have hfrom := h.logged _ hm
  refine ⟨hr, h.clean, by simp, ?_, by simp, by simp, ?_⟩
  · intro m hm' key hkey
    rw [hm] at hm'
    cases hm'
    exact .inl hkey
  · intro name
    by_cases hone : ∃ t ∈ ts, ∃ v, t.unstored = some (name, v)
    · obtain ⟨t, ht, v, hv⟩ := hone
      apply Engine.length_getMachineVersions_room (h.limit name)
        (h.room t ht _ (PutTask.registers_of_unstored hv))
      intro v' hin
      refine (hfrom _ hin).imp_right ?_
      rintro ⟨u, hu, huv⟩
      exact h.unstored_unique hu ht huv hv
    · refine Nat.le_trans (Engine.length_getMachineVersions_le [] ?_) (h.limit name)
      intro v hin
      obtain hin | ⟨t, ht, hv⟩ := hfrom _ hin
      · exact .inl hin
      · exact absurd ⟨t, ht, v, hv⟩ hone

theorem appended {e : WalEntry} {w : Wal} {r : Except WalError (UInt64 × WalOffset)}
    (h : Limited k s (xs ++ t :: ys) pre c)
    (ha : s.engine.wal.append X.toExternals e = some (w, r))
    (wal : s'.engine.wal = w) (defs : s'.engine.definitions = s.engine.definitions)
    (own : t'.Own) (unstored : t.unstored = none)
    (registers : t'.registers = t.registers ∨ t'.registers = none)
    (records : ∀ p, r = .ok p → ∀ key, e.defines = some key → t'.unstored = some key) :
    ∃ pre' c', Limited (X := X) k s' (xs ++ t' :: ys) pre' c' := by
  obtain ⟨pre', c', hr, hclean, he⟩ := h.repr.append_clean h.clean ha
  refine ⟨pre', c', h.moved (wal ▸ hr) hclean defs own ?_ unstored registers⟩
  intro m' hm'
  cases r with
  | error err =>
    rw [he] at hm'
    exact ⟨m', hm', fun key hin => .inl hin⟩
  | ok p =>
    rw [he, replayEntries_append] at hm'
    obtain ⟨m, hm, hlast⟩ := Option.bind_eq_some_iff.mp hm'
    simp only [replayEntries] at hlast
    split at hlast <;> cases hlast
    rename_i hentry
    refine ⟨m, hm, fun key hin => ?_⟩
    exact (replayEntry_defines hentry hin).imp_right (records p rfl key)

theorem stepped (hk : 0 < ch.maxMachineVersions)
    (h : Limited ch.maxMachineVersions.toNat s (xs ++ t :: ys) pre c)
    (alone : ∀ p, t = .counting p → ∀ u ∈ xs ++ t :: ys, u.machine ≠ some p.machine)
    (hs : PutStepped X ch s t s' t') :
    ∃ pre' c', Limited (X := X) ch.maxMachineVersions.toNat s' (xs ++ t' :: ys) pre' c' := by
  cases hs with
  | full => exact ⟨pre, c, h.kept trivial rfl (.inl rfl)⟩
  | counted room => exact ⟨pre, c, h.counted (alone _ rfl) (room_of_not_reached hk room)⟩
  | answered => exact ⟨pre, c, h.kept trivial rfl (.inr rfl)⟩
  | planned d => exact ⟨pre, c, h.kept ⟨rfl, d, rfl⟩ rfl (.inl rfl)⟩
  | failed ha => exact h.appended ha rfl rfl trivial rfl (.inr rfl) (by simp)
  | @logged p d _ _ _ ha =>
    refine h.appended ha rfl rfl ⟨d, rfl⟩ rfl (.inl rfl) ?_
    rintro _ _ _ ⟨⟩
    rfl
  | stored => exact ⟨pre, c, h.stored⟩

theorem step (hk : 0 < ch.maxMachineVersions)
    (h : Limited ch.maxMachineVersions.toNat s ts pre c) {op : PutOp}
    (alone : countsAlone (s, ts) op = true) (hs : putStep X ch (s, ts) op = some (s', ts')) :
    ∃ pre' c', Limited (X := X) ch.maxMachineVersions.toNat s' ts' pre' c' := by
  cases op with
  | sched op =>
    obtain ⟨p, rfl, rfl, rfl⟩ | ⟨i, xs, t, t', ys, rfl, ht, rfl, hn, rfl⟩ := interleave_cases hs
    · exact ⟨pre, c, h.spawned p⟩
    · apply h.stepped hk _ (putStepped_of_next (h.own t (by simp)) hn)
      rintro p rfl
      simpa only [countsAlone, ht, List.all_eq_true, bne_iff_ne] using alone
  | restart config =>
    simp only [putStep] at hs
    split at hs <;> cases hs
    rename_i hnew
    exact ⟨pre, c, h.restarted hnew⟩

end

end Limited

/-- `PUT_MACHINE` requests from any number of connections and any restarts, from an empty
engine: if no request counts the versions of its machine while another for that machine
is between its count and its insert, no machine ever has more versions than the limit. -/
theorem version_limit_held (X : CoreExternals) (c : CommandHandler)
    (hk : 0 < c.maxMachineVersions) {config : WalConfig} {e₀ : Engine}
    (hopen : Engine.new X config ∅ = some (.ok e₀)) {ops : List PutOp} {s : ThreadedEngine}
    {ts : List PutTask}
    (hgood : Meets (putStep X c) (fun st op => countsAlone st op = true) (⟨e₀, [], []⟩, []) ops)
    (hrun : run (putStep X c) (⟨e₀, [], []⟩, []) ops = some (s, ts)) (name : String) :
    (s.engine.getMachineVersions name).length ≤ c.maxMachineVersions.toNat := by
  have hstart : ∃ pre ch, Limited (X := X) c.maxMachineVersions.toNat ⟨e₀, [], []⟩ [] pre ch := by
    obtain rfl := Engine.eq_fresh_of_new hopen
    refine ⟨[], _, Engine.repr_fresh X config, rfl, by simp, ?_, by simp, by simp, ?_⟩
    · intro m hm key hkey
      cases hm
      simp [Memory.empty] at hkey
    · intro name
      simp [Engine.getMachineVersions, Engine.fresh, Memory.empty]
  obtain ⟨pre, ch, h⟩ := run_keeps_of_meets
    (P := fun st => ∃ pre ch, Limited (X := X) c.maxMachineVersions.toNat st.1 st.2 pre ch)
    (by rintro _ _ _ ⟨_, _, h⟩; exact h.step hk) hstart hgood hrun
  exact h.limit name

/-- A request for this version of the loop machine. -/
def loopVersion (version : UInt32) : PutMachineParams := ⟨"m", version, Engine.loopMachine, none⟩

/-- One version of each machine. -/
def oneVersion : CommandHandler := ⟨{}, none, false, 1⟩

/-- Two requests for two versions, each counting before either stores. -/
def bothCounted : List PutOp :=
  [.sched (.spawn (loopVersion 1)), .sched (.spawn (loopVersion 2)), .sched (.step 0),
    .sched (.step 1),
    .sched (.step 0), .sched (.step 0), .sched (.step 0), .sched (.step 1), .sched (.step 1),
    .sched (.step 1)]

/-- One request up to the append, a restart, and another request. -/
def restartedBetween : List PutOp :=
  [.sched (.spawn (loopVersion 1)), .sched (.step 0), .sched (.step 0), .sched (.step 0),
    .restart ⟨1000, .everyWrite⟩, .sched (.spawn (loopVersion 2)), .sched (.step 0)]

set_option maxRecDepth 4000 in
theorem version_limit_held_over_restart :
    ∃ q, run (putStep serdeCore oneVersion) (⟨Engine.fresh ⟨1000, .everyWrite⟩, [], []⟩, [])
        restartedBetween = some q ∧ q.1.engine.getMachineVersions "m" = [1] ∧
      (q.1.engine.getMachineVersions "m").length ≤ oneVersion.maxMachineVersions.toNat := by
  rw [← serdeCoreReading_eq [.putMachine "m" 1 "6c3fccfb" Engine.loopMachine]]
  refine run_exists (p := fun q => q.1.engine.getMachineVersions "m" = [1]) (by decide +kernel) ?_
  rintro ⟨s, ts⟩ hrun hone
  exact ⟨hone, version_limit_held _ oneVersion (by decide) (Engine.new_empty _ _)
    (by decide +kernel) hrun "m"⟩

set_option maxRecDepth 4000 in
theorem version_limit_passed :
    ∃ q, run (putStep serdeCore oneVersion) (⟨Engine.fresh ⟨1000, .everyWrite⟩, [], []⟩, [])
        bothCounted = some q ∧ q.1.engine.getMachineVersions "m" = [1, 2] ∧
      ¬(q.1.engine.getMachineVersions "m").length ≤ oneVersion.maxMachineVersions.toNat := by
  refine run_exists (p := fun q => q.1.engine.getMachineVersions "m" = [1, 2])
    (by decide +kernel) ?_
  intro q _ hq
  exact ⟨hq, by simp [hq, oneVersion]⟩

end Rstmdb
