import Rstmdb.Core.Paths
import Rstmdb.Core.Recovery

/-! Events that expect the instance at a given offset. The check, the append and the
update are under one lock, so an event passes only while the instance is as it was, if
no later record gets the same offset. Offsets keep 24 bits of a segment's id: they are
unique until a segment has an id of more. -/
namespace Rstmdb
open Json (Value)

/-! ## Places in the log -/

namespace EngineThread

variable {X : Externals}

/-- The segment that the thread has created and not yet made current. -/
def creatingSegment (t : EngineThread (steppedAppend X)) : Option SegmentId :=
  match t.pc with
  | .logging _ l => AppendCall.pendingId l
  | _ => none

/-- The offset that the append has returned, until its change is stored. -/
def returned (t : EngineThread (steppedAppend X)) : Option WalOffset :=
  match t.pc with
  | .logging _ l => AppendCall.offset? l
  | .logged _ _ off => some off
  | _ => none

end EngineThread

/-- A step of an append: it returns, or goes on. -/
theorem steppedAppend_next {X : Externals} {w w' : Wal} {l : AppendCall}
    {q : AppendCall ⊕ Except WalError (UInt64 × WalOffset)}
    (h : (steppedAppend X).next w l = some (w', q)) :
    (∃ r, l.pc = .done r ∧ w' = w ∧ q = .inr r) ∨
      ∃ l', l.Moved w w' l' ∧ q = .inl l' := by
  unfold steppedAppend at h
  dsimp only at h
  split at h
  · rename_i r hpc
    cases h
    exact .inl ⟨r, hpc, rfl, rfl⟩
  · obtain ⟨⟨s, l'⟩, hn, hout⟩ := Option.map_eq_some_iff.mp h
    cases hout
    exact .inr ⟨l', AppendCall.moved_of_next hn, rfl⟩

/-- An offset that is taken: its record is in a segment that is there, below the end
of the current one, and no thread is about to begin that segment. -/
structure Taken {X : Externals} (o : Nat) (w : Wal) (ts : List (EngineThread (steppedAppend X)))
    (cur : Segment) : Prop where
  current : w.current = some cur
  present : cur.id ∈ w.dir
  distinct : (ts.filterMap EngineThread.creatingSegment).Nodup
  pending : ∀ t ∈ ts, ∀ id ∈ t.creatingSegment, id ∈ w.dir ∧ id ≠ cur.id
  place : ∃ id pos, o = (WalOffset.pack id pos).asU64 ∧ pos ≤ WalOffset.offsetMask ∧
    id ∈ w.dir ∧ (id = cur.id → pos < cur.size) ∧ ∀ t ∈ ts, t.creatingSegment ≠ some id
  fresh : ∀ t ∈ ts, ∀ off ∈ t.returned, off.asU64 ≠ o

/-- Every segment has an id that fits in an offset. -/
def lowSegments {L : LogSteps} (p : ThreadedEngine × List (EngineThread L)) (_ : Sched EngineCall) :
    Prop :=
  ∀ id ∈ p.1.engine.wal.dir.keys, id < 2 ^ 24

instance {L : LogSteps} (p : ThreadedEngine × List (EngineThread L)) (op : Sched EngineCall) :
    Decidable (lowSegments p op) :=
  inferInstanceAs (Decidable (∀ id ∈ p.1.engine.wal.dir.keys, id < 2 ^ 24))

section
variable {X : CoreExternals} {s s' : ThreadedEngine} {call : EngineCall}
  {pc pc' : CallPc (steppedAppend X.toExternals).State} {w w' : Wal} {o : Nat} {cur : Segment}
  {ts ts' xs ys : List (EngineThread (steppedAppend X.toExternals))}
  {t t' : EngineThread (steppedAppend X.toExternals)}

/-- A step of a call as the log sees it: a step of an append, or nothing. -/
theorem Stepped.appends (h : Stepped X (steppedAppend X.toExternals) s call pc s' pc') :
    (s'.engine.wal = s.engine.wal ∧
      (⟨call, pc'⟩ : EngineThread (steppedAppend X.toExternals)).creatingSegment = none ∧
      ∀ off, (⟨call, pc'⟩ : EngineThread (steppedAppend X.toExternals)).returned = some off →
        (⟨call, pc⟩ : EngineThread (steppedAppend X.toExternals)).returned = some off) ∨
      ∃ p l l', pc = .logging p l ∧ pc' = .logging p l' ∧
        AppendCall.Moved s.engine.wal l s'.engine.wal l' := by
  cases h with
  | answered | missed | checked | acquired | rejected => exact .inl ⟨rfl, rfl, by rintro _ ⟨⟩⟩
  | planned =>
    left
    simp only [CallPc.log, steppedAppend, AppendCall.start, EngineThread.creatingSegment,
      EngineThread.returned, AppendCall.pendingId, AppendCall.offset?]
    cases s.engine.wal.closed <;> simp
  | @appending p l l' wal hn =>
    obtain ⟨r, -, -, hout⟩ | ⟨xs, hmoved, hout⟩ := steppedAppend_next hn
    · cases hout
    · cases hout
      exact .inr ⟨p, l, l', rfl, rfl, hmoved⟩
  | @refused p l wal err hn =>
    obtain ⟨r, -, rfl, -⟩ | ⟨xs, -, hout⟩ := steppedAppend_next hn
    · refine .inl ⟨?_, rfl, by rintro _ ⟨⟩⟩
      rw [ThreadedEngine.release_engine]
      rfl
    · cases hout
  | @appended p l wal seq off hn =>
    obtain ⟨r, hpc, rfl, hout⟩ | ⟨xs, -, hout⟩ := steppedAppend_next hn
    · cases hout
      refine .inl ⟨rfl, rfl, ?_⟩
      rintro _ ⟨⟩
      simp [EngineThread.returned, AppendCall.offset?, hpc]
    · cases hout
  | created | applied => exact .inl ⟨rfl, rfl, by rintro _ ⟨⟩⟩
  | @finished p seq off other =>
    refine .inl ⟨?_, rfl, by rintro _ ⟨⟩⟩
    rw [ThreadedEngine.release_engine]
    obtain ⟨name, version, json, d, rfl⟩ | ⟨id, key, i, rfl⟩ := other <;> rfl
  | cached =>
    refine .inl ⟨?_, rfl, by rintro _ ⟨⟩⟩
    simp only [ThreadedEngine.unlock, ThreadedEngine.setEngine, Engine.cacheResult]
    split <;> rfl

theorem Taken.quiet (h : Taken o w (xs ++ t :: ys) cur) (current : w'.current = w.current)
    (dir : w'.dir = w.dir)
    (pending : t'.creatingSegment = t.creatingSegment ∨ t'.creatingSegment = none)
    (returned : ∀ off, t'.returned = some off → t.returned = some off) :
    Taken o w' (xs ++ t' :: ys) cur := by
  have hmine : ∀ id, t'.creatingSegment = some id → t.creatingSegment = some id := by
    intro id hid
    obtain hsame | hnone := pending
    · exact hsame ▸ hid
    · simp [hnone] at hid
  obtain ⟨id, pos, ho, hpos, hid, hbelow, hfree⟩ := h.place
  refine ⟨current.trans h.current, dir ▸ h.present, nodup_replace h.distinct
    fun k hk => .inl (hmine k hk), ?_, ⟨id, pos, ho, hpos, dir ▸ hid, hbelow, ?_⟩, ?_⟩
  · rw [dir]
    exact forall_replace h.pending fun k hk => h.pending t (by simp) k (hmine k hk)
  · exact forall_replace hfree fun hk => hfree t (by simp) (hmine id hk)
  · exact forall_replace h.fresh fun off hoff => h.fresh t (by simp) off (returned off hoff)

theorem WalOffset.pack_inj {i j o o' : Nat} (hi : i < 2 ^ 24) (hj : j < 2 ^ 24)
    (ho : o ≤ offsetMask) (ho' : o' ≤ offsetMask) (h : (pack i o).asU64 = (pack j o').asU64) :
    i = j ∧ o = o' := by
  rw [pack_asU64 i ho, pack_asU64 j ho', Nat.mod_eq_of_lt hi, Nat.mod_eq_of_lt hj] at h
  simp only [offsetMask] at ho ho'
  omega

theorem Taken.moved {p : Pending} {l l' : AppendCall}
    (h : Taken o w (xs ++ ⟨call, .logging p l⟩ :: ys) cur) (low : ∀ id ∈ w.dir, id < 2 ^ 24)
    (hm : l.Moved w w' l') : ∃ cur', Taken o w' (xs ++ ⟨call, .logging p l'⟩ :: ys) cur' := by
  have ht : (⟨call, .logging p l⟩ : EngineThread (steppedAppend X.toExternals)) ∈
      xs ++ ⟨call, .logging p l⟩ :: ys := by
    simp
  obtain ⟨id, pos, ho, hpos, hid, hbelow, hfree⟩ := h.place
  cases hm with
  | quiet current dir pending returned =>
    exact ⟨cur, h.quiet current dir pending (by simp [EngineThread.returned, returned])⟩
  | @created id' free pending current dir returned =>
    have hkept {k : SegmentId} (hk : k ∈ w.dir) : k ∈ w'.dir := by
      rw [dir]
      exact Std.ExtTreeMap.mem_insert.mpr (.inr hk)
    refine ⟨cur, current.trans h.current, hkept h.present, nodup_replace h.distinct ?_, ?_,
      ⟨id, pos, ho, hpos, hkept hid, hbelow, forall_replace hfree ?_⟩, forall_replace h.fresh ?_⟩
    · intro k hk
      obtain rfl : id' = k := Option.some.inj (pending.symm.trans hk)
      exact .inr fun u hu hk' => free (h.pending u (mem_of_others _ hu) id' hk').1
    · intro u hu k hk
      obtain rfl | hu := mem_replace hu
      · obtain rfl : id' = k := Option.some.inj (pending.symm.trans hk)
        exact ⟨by simp [dir], fun he => free (he ▸ h.present)⟩
      · obtain ⟨hdir, hne⟩ := h.pending u (mem_of_others _ hu) k hk
        exact ⟨hkept hdir, hne⟩
    · intro hk
      obtain rfl : id' = id := Option.some.inj (pending.symm.trans hk)
      exact free hid
    · simp [EngineThread.returned, returned]
  | @assigned segment pending done current dir returned =>
    have hmine := h.pending _ ht segment.id pending
    have hnone :
        (⟨call, .logging p l'⟩ : EngineThread (steppedAppend X.toExternals)).creatingSegment
        = none := done
    refine ⟨segment, current, dir ▸ hmine.1, nodup_replace h.distinct (by simp [hnone]), ?_,
      ⟨id, pos, ho, hpos, dir ▸ hid, ?_, forall_replace hfree (by simp [hnone])⟩,
      forall_replace h.fresh (by simp [EngineThread.returned, returned])⟩
    · intro u hu k hk
      obtain rfl | hu := mem_replace hu
      · simp [hnone] at hk
      · refine ⟨dir ▸ (h.pending u (mem_of_others _ hu) k hk).1, ?_⟩
        rintro rfl
        exact others_of_nodup h.distinct pending u hu hk
    · rintro rfl
      exact absurd pending (hfree _ ht)
  | @written cur₀ cur' before current hid' size small dir done returned =>
    obtain rfl : cur₀ = cur := Option.some.inj (before.symm.trans h.current)
    have hnone :
        (⟨call, .logging p l'⟩ : EngineThread (steppedAppend X.toExternals)).creatingSegment
        = none := done
    refine ⟨cur', current, hid' ▸ dir _ h.present, nodup_replace h.distinct (by simp [hnone]), ?_,
      ⟨id, pos, ho, hpos, dir _ hid, ?_, forall_replace hfree (by simp [hnone])⟩,
      forall_replace h.fresh ?_⟩
    · intro u hu k hk
      obtain rfl | hu := mem_replace hu
      · simp [hnone] at hk
      · obtain ⟨hdir, hne⟩ := h.pending u (mem_of_others _ hu) k hk
        exact ⟨dir k hdir, hid' ▸ hne⟩
    · intro he
      exact (hbelow (he.trans hid')).trans size
    · intro off hoff he
      obtain rfl : WalOffset.pack cur₀.id cur₀.size = off :=
        Option.some.inj (returned.symm.trans hoff)
      obtain ⟨hsame, hend⟩ := WalOffset.pack_inj (low _ h.present) (low _ hid) small hpos
        (he.trans ho)
      exact absurd (hbelow hsame.symm) (by omega)

theorem Taken.step {op : Sched EngineCall} (h : Taken o s.engine.wal ts cur)
    (low : lowSegments (s, ts) op)
    (hs : engineSched X (steppedAppend X.toExternals) (s, ts) op = some (s', ts')) :
    ∃ cur', Taken o s'.engine.wal ts' cur' := by
  obtain ⟨call, -, rfl, rfl⟩ | ⟨-, xs, call, pc, pc', ys, -, -, rfl, hstep, rfl⟩ :=
    engineSched_cases hs
  · obtain ⟨id, pos, ho, hpos, hid, hbelow, hfree⟩ := h.place
    have hnew : (⟨call, .started⟩ : EngineThread (steppedAppend X.toExternals)).creatingSegment =
        none := rfl
    refine ⟨cur, h.current, h.present, ?_, ?_, ⟨id, pos, ho, hpos, hid, hbelow, ?_⟩, ?_⟩
    · rw [List.filterMap_append]
      simpa [hnew] using h.distinct
    · simpa [or_imp, forall_and, hnew] using h.pending
    · simpa [or_imp, forall_and, hnew] using hfree
    · simpa [or_imp, forall_and, EngineThread.returned] using h.fresh
  · obtain ⟨hwal, hnone, hreturned⟩ | ⟨p, l, l', rfl, rfl, hmoved⟩ := hstep.appends
    · exact ⟨cur, h.quiet (by rw [hwal]) (by rw [hwal]) (.inr hnone) hreturned⟩
    · refine h.moved (fun id hid => low id ?_) hmoved
      exact Std.ExtTreeMap.mem_keys.mpr hid

end

/-! ## One winner -/

/-- The request is for the instance at this offset, without a key. -/
def EventRequest.expects (r : EventRequest) (id : String) (o : Nat) : Bool :=
  r.instanceId == id && r.expectedWalOffset == some o && r.idempotencyKey == none

variable {id : String} {e : Engine} {i : Instance} {last : SegmentId}

theorem EventRequest.expects_iff {r : EventRequest} {o : Nat} :
    r.expects id o = true ↔
      r.instanceId = id ∧ r.expectedWalOffset = some o ∧ r.idempotencyKey = none := by
  simp [expects, and_assoc]

/-- The call expected the instance at this offset and has changed it: it returns `Ok`, or has. -/
def EngineThread.hasWon {L : LogSteps} (id : String) (o : Nat) (t : EngineThread L) : Bool :=
  match t.call, t.pc with
  | .applyEvent r, .caching _ => r.expects id o
  | .applyEvent r, .done (.ok (.applied _)) => r.expects id o
  | _, _ => false

section
variable {X : CoreExternals} {L : LogSteps} {s s' : ThreadedEngine} {call : EngineCall}
  {pc pc' : CallPc L.State} {ts ts' xs ys : List (EngineThread L)} {id : String} {i : Instance}

/-- At most one call has won. The instance is as it was, and none has, or it is at
another offset. -/
structure OneWinner (id : String) (i : Instance) (s : ThreadedEngine)
    (ts : List (EngineThread L)) : Prop where
  locked : Locked s ts
  plans : ∀ t ∈ ts, ∀ r j toState, t.pending = some (.applyEvent r j toState) →
    ∀ expected ∈ r.expectedWalOffset, j.lastWalOffset = expected
  once : ts.countP (EngineThread.hasWon id i.lastWalOffset) ≤ 1
  state : (s.engine.instances[id]? = some i ∧
      ts.countP (EngineThread.hasWon id i.lastWalOffset) = 0) ∨
    ∃ j, s.engine.instances[id]? = some j ∧ j.lastWalOffset ≠ i.lastWalOffset

/-- A call without a key wins when it stores its event. -/
theorem Stepped.hasWon {o : Nat} (h : Stepped X L s call pc s' pc')
    (hwon : (⟨call, pc'⟩ : EngineThread L).hasWon id o = true) :
    (⟨call, pc⟩ : EngineThread L).hasWon id o = true ∨
      ∃ r j toState seq off, pc = .logged (.applyEvent r j toState) seq off ∧
        ∃ r', call = .applyEvent r' ∧ r'.expects id o = true := by
  cases call with
  | putMachine | createInstance | deleteInstance => cases hwon
  | applyEvent r =>
    cases h with
    | answered _ answer =>
      cases answer with
      | failed => cases hwon
      | cached hcached =>
        obtain ⟨-, -, hkey⟩ := EventRequest.expects_iff.mp hwon
        simp [Engine.cachedResult, hkey] at hcached
    | rejected _ outcome => obtain ⟨err, rfl⟩ | ⟨offset, rfl⟩ := outcome <;> cases hwon
    | missed | checked | acquired | planned | appending | refused | appended | created => cases hwon
    | finished other =>
      obtain ⟨name, version, json, d, rfl⟩ | ⟨id, key, j, rfl⟩ := other <;> cases hwon
    | applied => exact .inr ⟨_, _, _, _, _, rfl, r, rfl, hwon⟩
    | cached => exact .inl hwon

theorem Pending.instanceAt_offset {p : Pending} {off : WalOffset} {q : String × Instance}
    (h : p.instanceAt off = some q) : q.2.lastWalOffset = off.asU64 := by
  cases p <;> cases h <;> rfl

/-- A call that is about to win has found the instance at the offset. -/
theorem OneWinner.found {r : EventRequest} {j : Instance} {toState : String} {seq : UInt64}
    {off : WalOffset} {o : Nat}
    (h : OneWinner id i s (xs ++ ⟨call, .logged (.applyEvent r j toState) seq off⟩ :: ys))
    {r' : EventRequest} (hcall : call = .applyEvent r') (hexpects : r'.expects id o = true) :
    s.engine.instances[id]? = some j ∧ j.lastWalOffset = o ∧ r.instanceId = id := by
  have ht : (⟨call, .logged (.applyEvent r j toState) seq off⟩ : EngineThread L) ∈
      xs ++ ⟨call, .logged (.applyEvent r j toState) seq off⟩ :: ys := by
    simp
  obtain ⟨hown, hfound⟩ := h.locked.own _ ht _ rfl
  obtain rfl : r = r' := EngineCall.applyEvent.inj (hown.trans hcall)
  obtain ⟨rfl, hexpected, -⟩ := EventRequest.expects_iff.mp hexpects
  exact ⟨hfound _ rfl, h.plans _ ht r j toState rfl o hexpected, rfl⟩

theorem Stepped.keeps_won {o : Nat} (h : Stepped X L s call pc s' pc')
    (hwon : (⟨call, pc⟩ : EngineThread L).hasWon id o = true) :
    (⟨call, pc'⟩ : EngineThread L).hasWon id o = true := by
  cases call with
  | putMachine | createInstance | deleteInstance => cases hwon
  | applyEvent r =>
    cases h with
    | answered early | acquired early => obtain rfl | rfl | rfl := early <;> cases hwon
    | planned ready =>
      cases ready
      cases hwon
    | cached => exact hwon
    | missed | checked | rejected | appending | refused | appended | created | applied | finished =>
      cases hwon

theorem OneWinner.won_cases (h : OneWinner id i s (xs ++ ⟨call, pc⟩ :: ys))
    (hs : Stepped X L s call pc s' pc')
    (fresh : ∀ p seq off, pc = .logged p seq off → off.asU64 ≠ i.lastWalOffset) :
    ((⟨call, pc'⟩ : EngineThread L).hasWon id i.lastWalOffset =
        (⟨call, pc⟩ : EngineThread L).hasWon id i.lastWalOffset ∧
      (s'.engine.instances[id]? = s.engine.instances[id]? ∨
        ∃ j, s'.engine.instances[id]? = some j ∧ j.lastWalOffset ≠ i.lastWalOffset)) ∨
      s.engine.instances[id]? = some i ∧
        (xs ++ ⟨call, pc⟩ :: ys).countP (EngineThread.hasWon id i.lastWalOffset) = 0 ∧
        ∃ j, s'.engine.instances[id]? = some j ∧ j.lastWalOffset ≠ i.lastWalOffset := by
  by_cases hwon : (⟨call, pc'⟩ : EngineThread L).hasWon id i.lastWalOffset =
      (⟨call, pc⟩ : EngineThread L).hasWon id i.lastWalOffset
  · refine .inl ⟨hwon, ?_⟩
    by_cases hsame : s'.engine.instances[id]? = s.engine.instances[id]?
    · exact .inl hsame
    · obtain ⟨p, seq, off, j, hpc, hat, hj⟩ := hs.effect.instances hsame
      exact .inr ⟨j, hj, Pending.instanceAt_offset hat ▸ fresh p seq off hpc⟩
  · right
    have hnew : (⟨call, pc'⟩ : EngineThread L).hasWon id i.lastWalOffset = true := by
      by_contra hlost
      have hbefore : (⟨call, pc⟩ : EngineThread L).hasWon id i.lastWalOffset ≠ true :=
        fun hbefore => hlost (hs.keeps_won hbefore)
      exact hwon ((Bool.eq_false_iff.mpr hlost).trans (Bool.eq_false_iff.mpr hbefore).symm)
    obtain hsame | ⟨r, j, toState, seq, off, rfl, r', hcall, hexpects⟩ := hs.hasWon hnew
    · exact absurd (hnew.trans hsame.symm) hwon
    obtain ⟨hj, hoffset, rfl⟩ := h.found hcall hexpects
    obtain ⟨hi, hcount⟩ | ⟨k, hk, hne⟩ := h.state
    · refine ⟨hi, hcount, ?_⟩
      cases hs.effect with
      | quiet _ _ before => exact absurd rfl (before _ _ _)
      | stored _ memory =>
        refine ⟨j.applyTransition toState (mergeCtx j.ctx r.payload) r.eventId off.asU64, ?_,
          fresh _ seq off rfl⟩
        rw [memory]
        exact Std.ExtTreeMap.getElem?_insert_self
    · rw [hj] at hk
      cases hk
      exact absurd hoffset hne

theorem OneWinner.stepped (h : OneWinner id i s (xs ++ ⟨call, pc⟩ :: ys))
    (hs : Stepped X L s call pc s' pc')
    (fresh : ∀ p seq off, pc = .logged p seq off → off.asU64 ≠ i.lastWalOffset) :
    OneWinner id i s' (xs ++ ⟨call, pc'⟩ :: ys) ∧
      (s.engine.instances[id]? ≠ some i → s'.engine.instances[id]? ≠ some i ∧
        (xs ++ ⟨call, pc'⟩ :: ys).countP (EngineThread.hasWon id i.lastWalOffset) =
          (xs ++ ⟨call, pc⟩ :: ys).countP (EngineThread.hasWon id i.lastWalOffset)) := by
  have hplans : ∀ t ∈ xs ++ ⟨call, pc'⟩ :: ys, ∀ r j toState,
      t.pending = some (.applyEvent r j toState) →
      ∀ expected ∈ r.expectedWalOffset, j.lastWalOffset = expected := by
    intro t ht r j toState hp
    obtain rfl | ht := mem_replace ht
    · obtain hsame | hready := hs.pending hp
      · exact h.plans _ (by simp) r j toState hsame
      · cases hready with
        | applyEvent _ target => exact (Engine.targetOf_ok target).2.1
    · exact h.plans t (mem_of_others _ ht) r j toState hp
  have hother {j : Instance} (hne : j.lastWalOffset ≠ i.lastWalOffset) : some j ≠ some i := by
    rintro ⟨⟩
    exact hne rfl
  have honce := h.once
  have hstate := h.state
  simp only [List.countP_append, List.countP_cons] at honce hstate ⊢
  obtain ⟨hwon, hinst⟩ | ⟨hi, hcount, j, hj, hne⟩ := h.won_cases hs fresh
  · refine ⟨⟨h.locked.stepped hs, hplans, ?_, ?_⟩, fun hmoved => ⟨?_, ?_⟩⟩
    · simpa only [List.countP_append, List.countP_cons, hwon] using honce
    · simp only [List.countP_append, List.countP_cons, hwon]
      obtain hsame | ⟨j, hj, hne⟩ := hinst
      · rwa [hsame]
      · exact .inr ⟨j, hj, hne⟩
    · obtain hsame | ⟨j, hj, hne⟩ := hinst
      · rwa [hsame]
      · rw [hj]
        exact hother hne
    · rw [hwon]
  · simp only [List.countP_append, List.countP_cons] at hcount
    refine ⟨⟨h.locked.stepped hs, hplans, ?_, .inr ⟨j, hj, hne⟩⟩, fun hmoved => absurd hi hmoved⟩
    simp only [List.countP_append, List.countP_cons]
    split <;> omega

theorem OneWinner.spawned (h : OneWinner id i s ts) (call : EngineCall) :
    OneWinner id i s (ts ++ [(⟨call, .started⟩ : EngineThread L)]) ∧
      (ts ++ [(⟨call, .started⟩ : EngineThread L)]).countP
        (EngineThread.hasWon id i.lastWalOffset) =
        ts.countP (EngineThread.hasWon id i.lastWalOffset) := by
  have hnew : (⟨call, .started⟩ : EngineThread L).hasWon id i.lastWalOffset = false := by
    cases call <;> rfl
  have hcount : (ts ++ [(⟨call, .started⟩ : EngineThread L)]).countP
      (EngineThread.hasWon id i.lastWalOffset) =
      ts.countP (EngineThread.hasWon id i.lastWalOffset) := by
    simp [hnew]
  refine ⟨⟨h.locked.spawned call, ?_, hcount ▸ h.once, hcount ▸ h.state⟩, hcount⟩
  exact forall_spawned h.plans (by rintro _ _ _ ⟨⟩)

end

section
variable {X : CoreExternals} {s s' : ThreadedEngine} {id : String} {i : Instance}
  {ts ts' : List (EngineThread (steppedAppend X.toExternals))}

/-- What holds along every run in which segments have low ids. -/
structure Unambiguous (id : String) (i : Instance) (s : ThreadedEngine)
    (ts : List (EngineThread (steppedAppend X.toExternals))) : Prop where
  winner : OneWinner id i s ts
  taken : ∃ cur, Taken i.lastWalOffset s.engine.wal ts cur

theorem Unambiguous.step {op : Sched EngineCall} (h : Unambiguous id i s ts)
    (low : lowSegments (s, ts) op)
    (hs : engineSched X (steppedAppend X.toExternals) (s, ts) op = some (s', ts')) :
    Unambiguous id i s' ts' ∧
      (s.engine.instances[id]? ≠ some i → s'.engine.instances[id]? ≠ some i ∧
        ts'.countP (EngineThread.hasWon id i.lastWalOffset) =
          ts.countP (EngineThread.hasWon id i.lastWalOffset)) := by
  obtain ⟨cur, htaken⟩ := h.taken
  have htaken' := htaken.step low hs
  obtain ⟨call, -, rfl, rfl⟩ | ⟨-, xs, call, pc, pc', ys, -, -, rfl, hstep, rfl⟩ :=
    engineSched_cases hs
  · obtain ⟨hwinner, hcount⟩ := h.winner.spawned call
    exact ⟨⟨hwinner, htaken'⟩, fun hmoved => ⟨hmoved, hcount⟩⟩
  · have hfresh : ∀ p seq off, pc = .logged p seq off → off.asU64 ≠ i.lastWalOffset := by
      rintro p seq off rfl
      exact htaken.fresh ⟨call, .logged p seq off⟩ (by simp) off rfl
    obtain ⟨hwinner, hmoved⟩ := h.winner.stepped hstep hfresh
    exact ⟨⟨hwinner, htaken'⟩, hmoved⟩

end

/-- The last offset of an instance is the place of a record in the log. -/
theorem Engine.Restorable.taken {X : CoreExternals} {pre : List (Chunk X.toExternals)}
    {c : Chunk X.toExternals} (h : e.Restorable pre c) (hi : e.instances[id]? = some i) :
    ∃ cur, Taken (X := X.toExternals) i.lastWalOffset e.wal [] cur := by
  obtain ⟨m, hm, hagree⟩ := h.replayed
  obtain ⟨j, hj, hji⟩ := hagree.present hi
  have hoffset : j.persisted.lastWalOffset = i.persisted.lastWalOffset := by rw [hji]
  have hmeet : m.OffsetsMeet fun o => ∃ p ∈ entries (pre ++ [c]), p.2.1.asU64 = o :=
    replayEntries_offsetsMeet hm (fun _ _ hnone => by simp [Memory.empty] at hnone)
      fun p hp => ⟨p, hp, rfl⟩
  obtain ⟨p, hp, hpo⟩ := hmeet id j hj
  obtain ⟨d, hd, hpd⟩ := mem_entries.mp hp
  obtain ⟨pos, hpos, hlow, hpack⟩ := Chunk.mem_entries_lt hpd
  obtain ⟨cur, hcur, hid, hsize⟩ := h.repr.current
  have hdir : ∀ d ∈ pre ++ [c], d.id ∈ e.wal.dir := by
    intro d hd
    rw [← Std.ExtTreeMap.mem_keys, h.repr.holds.keys]
    exact List.mem_map_of_mem hd
  refine ⟨cur, hcur, hid ▸ hdir c (by simp), List.nodup_nil, by simp,
    ⟨d.id, pos, ?_, hlow, hdir d hd, ?_, by simp⟩, by simp⟩
  · rw [← hpack, hpo]
    exact hoffset.symm
  · intro he
    obtain ⟨-, -, hlt⟩ := List.pairwise_append.mp h.repr.holds.ascending
    obtain hpre | hlast := List.mem_append.mp hd
    · exact absurd (he.trans hid) (hlt d hpre c (by simp)).ne
    · obtain rfl := List.mem_singleton.mp hlast
      rw [hsize, Chunk.bytes_eq_body h.clean]
      exact hpos

/-- Calls that expect an instance at the offset where it is, among events and deletions
from any number of clients with rotations of the log in between, after any run of the
engine: while the ids of all segments fit in an offset, at most one of them changes the
instance, and none does once the instance has changed. -/
theorem one_winner (X : CoreExternals) {config : WalConfig} {e₀ e : Engine}
    {prior : List EngineOp} (hopen : Engine.new X config ∅ = some (.ok e₀))
    (hprior : run (Engine.step X) e₀ prior = some e) {id : String} {i : Instance}
    (hi : e.instances[id]? = some i) {ops₁ ops₂ : List (Sched EngineCall)} {s : ThreadedEngine}
    {ts : List (EngineThread (steppedAppend X.toExternals))}
    (hlow : Meets (engineSched X (steppedAppend X.toExternals)) lowSegments (⟨e, [], []⟩, [])
      (ops₁ ++ ops₂))
    (hrun : run (engineSched X (steppedAppend X.toExternals)) (⟨e, [], []⟩, []) (ops₁ ++ ops₂) =
      some (s, ts)) :
    ts.countP (EngineThread.hasWon id i.lastWalOffset) ≤ 1 ∧
    ∀ s₁ ts₁, run (engineSched X (steppedAppend X.toExternals)) (⟨e, [], []⟩, []) ops₁ =
        some (s₁, ts₁) → s₁.engine.instances[id]? ≠ some i →
      ts.countP (EngineThread.hasWon id i.lastWalOffset) =
        ts₁.countP (EngineThread.hasWon id i.lastWalOffset) := by
  obtain ⟨pre, c, hrest⟩ := Engine.restorable_run hopen hprior
  have hstart : Unambiguous (X := X) id i ⟨e, [], []⟩ [] := by
    refine ⟨⟨.start, by simp, by simp, .inl ⟨hi, by simp⟩⟩, hrest.taken hi⟩
  constructor
  · exact (run_keeps_of_meets (P := fun p => Unambiguous id i p.1 p.2)
      (fun p op p' h low hs => (h.step low hs).1) hstart hlow hrun).winner.once
  · intro s₁ ts₁ hrun₁ hmoved
    obtain ⟨hlow₁, hlow₂⟩ := hlow.append hrun₁
    obtain ⟨p, hp, hrun₂⟩ := run_append.mp hrun
    rw [hrun₁] at hp
    cases hp
    have hmid : Unambiguous id i s₁ ts₁ :=
      run_keeps_of_meets (P := fun p => Unambiguous id i p.1 p.2)
        (fun p op p' h low hs => (h.step low hs).1) hstart hlow₁ hrun₁
    refine (run_keeps_of_meets (P := fun p => Unambiguous id i p.1 p.2 ∧
      p.1.engine.instances[id]? ≠ some i ∧
      p.2.countP (EngineThread.hasWon id i.lastWalOffset) =
        ts₁.countP (EngineThread.hasWon id i.lastWalOffset))
      ?_ ⟨hmid, hmoved, rfl⟩ hlow₂ hrun₂).2.2
    rintro p op p' ⟨hp, hne, hcount⟩ low hs
    obtain ⟨hp', hkept⟩ := hp.step low hs
    obtain ⟨hne', hcount'⟩ := hkept hne
    exact ⟨hp', hne', hcount'.trans hcount⟩

/-- The event of the one-state machine, on an instance that may have to be at an offset. -/
def loopOn (id : String) (expected : Option Nat) : EventRequest :=
  ⟨id, "e", .null, none, expected, none, none⟩

/-- A call that expects the instance where its creation left it. -/
def expectCreated : EngineCall := .applyEvent (loopOn "i" (some (3 * 2 ^ 40)))

/-- Two such calls. The first rotates the log while the second waits for the lock. -/
def firstCall : List (Sched EngineCall) :=
  [.spawn expectCreated, .spawn expectCreated, .step 0, .step 1] ++ List.replicate 12 (.step 0)

def secondCall : List (Sched EngineCall) := [.step 1, .step 1]

set_option maxRecDepth 4000 in
theorem one_winner_of_two :
    ∃ e, run (Engine.step serdeCore) (Engine.fresh ⟨100, .everyWrite⟩)
        [.putMachine "m" 1 Engine.loopMachine, .createInstance "i" "m" 1 .null none] = some e ∧
      ∃ i, e.instances["i"]? = some i ∧ i.lastWalOffset = 3 * 2 ^ 40 ∧
        ∃ q, run (engineSched serdeCore (steppedAppend serdeCore.toExternals)) (⟨e, [], []⟩, [])
            (firstCall ++ secondCall) = some q ∧
          q.2.all (fun t => t.pc.isDone) = true ∧ q.1.engine.wal.nextId = 5 ∧
          q.2.countP (EngineThread.hasWon "i" i.lastWalOffset) ≤ 1 := by
  refine run_exists (p := fun e => (e.instances["i"]?).any (·.lastWalOffset == 3 * 2 ^ 40) = true ∧
    Meets (engineSched serdeCore (steppedAppend serdeCore.toExternals)) lowSegments
      (⟨e, [], []⟩, [])
      (firstCall ++ secondCall) ∧
    (run (engineSched serdeCore (steppedAppend serdeCore.toExternals)) (⟨e, [], []⟩, [])
      (firstCall ++ secondCall)).any (fun q => decide (q.2.all (fun t => t.pc.isDone) = true ∧
        q.1.engine.wal.nextId = 5)) = true) (by decide +kernel) ?_
  rintro e hprior ⟨hoffset, hlow, he⟩
  obtain ⟨i, hi, ho⟩ := (Option.any_eq_true _ _).mp hoffset
  refine ⟨i, hi, by simpa using ho, run_exists he ?_⟩
  rintro ⟨s, ts⟩ hq ⟨hdone, hnext⟩
  have hopen := Engine.new_empty serdeCore ⟨100, .everyWrite⟩
  exact ⟨hdone, hnext, (one_winner serdeCore hopen hprior hi hlow hq).1⟩

/-! ## When the ids wrap -/

/-- Every append begins a segment of its own. -/
structure Wal.Rotating {X : Externals} (w : Wal) (last : SegmentId) : Prop where
  repr : ∃ (pre : List (Chunk X)) (c : Chunk X), w.Repr pre c ∧ c.tail = [] ∧ c.id = last
  full : ∀ seg ∈ w.current, seg.maxSize = 0
  config : w.config.segmentSize = 0
  opened : w.closed = false

theorem Wal.Rotating.append {X : Externals} {w : Wal} (h : w.Rotating (X := X) last) {e : WalEntry}
    (hfit : (X.toVec e).length ≤ maxRecordSize) :
    ∃ w', w.append X e = some (w', .ok (w.nextSequence, WalOffset.pack (last + 1) 0)) ∧
      w'.Rotating (X := X) (last + 1) := by
  obtain ⟨pre, c, hr, hc, rfl⟩ := h.repr
  have hnext : w.nextId = c.id + 1 := by simp [Wal.nextId, hr.keys]
  have hdrawn : w.drawSequence.2.Repr pre c := ⟨hr.holds, hr.keys, hr.current⟩
  obtain ⟨-, hrotate, hrotated⟩ := hdrawn.rotateSegment
  have hneeds : w.drawSequence.2.needsRotation (w.nextRecord X e).diskSize = true := by
    obtain ⟨seg, hs, -, -⟩ := hr.current
    have hs' : w.drawSequence.2.current = some seg := hs
    simp [Wal.needsRotation, hs', Segment.canFit, h.full seg hs, WalRecord.diskSize,
      recordHeaderSize]
  have hcur : w.drawSequence.2.rotated.current = some ⟨w.nextId, 0, w.config.segmentSize, false⟩ :=
    rfl
  have hpayload : (w.nextRecord X e).payload.length ≤ maxRecordSize := hfit
  obtain ⟨w', ha⟩ : ∃ w', w.drawSequence.2.rotated.appendLocked (w.nextRecord X e) =
      some (w', .ok (w.nextSequence, WalOffset.pack (c.id + 1) 0)) := by
    rw [← hnext]
    exact ⟨_, by
      simp only [Wal.appendLocked, hcur, Segment.append, WalRecord.encode_ok hpayload,
        WalOffset.new, Nat.zero_le, if_true]
      rfl⟩
  refine ⟨w', ?_, ?_⟩
  · unfold Wal.append
    rw [h.opened]
    simp only [Bool.false_eq_true, if_false]
    refine (if_pos hneeds).trans ?_
    rw [hrotate]
    exact ha
  · obtain ⟨err, herr, -⟩ | ⟨fit, low, -, hr', -, hclosed, hconfig⟩ :=
      hrotated.appendLocked rfl (p := (w.nextSequence, e)) ha
    · cases herr
    · refine ⟨⟨pre ++ [c], _, hr', rfl, rfl⟩, ?_, ?_, ?_⟩
      · obtain ⟨-, -, hres⟩ | ⟨-, -, rfl, -⟩ := Wal.appendLocked_cases hcur ha
        · cases hres
        intro seg hseg
        obtain hsame | hsync := Wal.applyPolicy_cases
          (w.drawSequence.2.rotated.written _ (w.nextRecord X e)) (Wal.grownSegment _ _)
        · rw [hsame] at hseg
          cases hseg
          exact h.config
        · rw [hsync] at hseg
          cases hseg
          exact h.config
      · rw [hconfig]
        exact h.config
      · rw [hclosed]
        exact h.opened

/-- An engine with the one-state machine on a log whose appends all rotate. -/
structure Engine.Looping (e : Engine) (last : SegmentId) : Prop where
  wal : e.wal.Rotating (X := serdeCore.toExternals) last
  machine : ∃ d, e.definitions[firstVersion]? = some d ∧
    d.getTransition "a" "e" = some ("a", none)

/-- An instance of it. -/
structure Instance.Loops (i : Instance) : Prop where
  machine : i.machine = "m"
  version : i.version = 1
  state : i.state = "a"
  ctx : i.ctx = .null

theorem Engine.Looping.target (h : e.Looping last) (hl : i.Loops) {expected : Option Nat}
    (hexpected : ∀ o ∈ expected, i.lastWalOffset = o) :
    e.targetOf (loopOn id expected) i = .ok "a" := by
  obtain ⟨d, hd, ht⟩ := h.machine
  have hmachine : e.getMachine i.machine i.version = .ok d := by
    rw [Engine.getMachine, hl.machine, hl.version]
    rw [firstVersion] at hd
    simp only [hd]
  have hoffset : Engine.checkExpectedWalOffset i expected = .ok () := by
    cases expected with
    | none => rfl
    | some o => simp [Engine.checkExpectedWalOffset, hexpected o rfl]
  have htransition : d.getTransition i.state "e" = some ("a", none) := hl.state ▸ ht
  simp only [Engine.targetOf, loopOn, Engine.checkExpectedState, hoffset, hmachine, htransition,
    evaluateOpt, bind, Except.bind]
  rfl

theorem Engine.Looping.event (h : e.Looping last) (hid : id = "i" ∨ id = "j")
    (hi : e.instances[id]? = some i) (hl : i.Loops) (expected : Option Nat)
    (hexpected : ∀ o ∈ expected, i.lastWalOffset = o) :
    ∃ e' a i', e.applyEvent serdeCore (loopOn id expected) = some (e', .ok a) ∧
      e'.Looping (last + 1) ∧ e'.instances = e.instances.insert id i' ∧ i'.Loops ∧
      i'.lastWalOffset = (WalOffset.pack (last + 1) 0).asU64 := by
  have hfit : (serdeCore.toVec (.applyEvent id "e" "a" "a" .null .null none none)).length ≤
      maxRecordSize := by
    obtain rfl | rfl := hid <;> decide +kernel
  obtain ⟨wal, ha, hwal⟩ := h.wal.append hfit
  have happend : e.append serdeCore (.applyEvent id "e" i.state "a" .null (mergeCtx i.ctx .null)
      none none) =
        some ({ e with wal }, .ok (e.wal.nextSequence, WalOffset.pack (last + 1) 0)) := by
    rw [hl.state, hl.ctx, Engine.append]
    simp only [mergeCtx]
    rw [ha]
  have hget : e.getInstance id = .ok i := by simp [Engine.getInstance, hi]
  let i' := i.applyTransition "a" (mergeCtx i.ctx .null) none (WalOffset.pack (last + 1) 0).asU64
  let a : ApplyResult := ⟨i.state, "a", mergeCtx i.ctx .null, (WalOffset.pack (last + 1) 0).asU64,
    e.wal.nextSequence, true⟩
  refine ⟨{ e with wal, instances := e.instances.insert id i' }, a, i', ?_, ⟨hwal, h.machine⟩, rfl,
    ⟨hl.machine, hl.version, rfl, ?_⟩, rfl⟩
  · simp only [Engine.applyEvent, loopOn, Engine.cachedResult, Engine.applyLocked, hget]
    rw [show e.targetOf ⟨id, "e", .null, none, expected, none, none⟩ i = .ok "a" from
      h.target hl hexpected]
    simp only [happend]
    rfl
  · change mergeCtx i.ctx .null = .null
    rw [hl.ctx]
    rfl

/-- Events on the second instance, each in a segment of its own. -/
theorem Engine.Looping.events (h : e.Looping last) {j : Instance} (hj : e.instances["j"]? = some j)
    (hl : j.Loops) (n : Nat) :
    ∃ e', run (Engine.step serdeCore) e (List.replicate n (.applyEvent (loopOn "j" none))) =
      some e' ∧ e'.Looping (last + n) ∧ e'.instances["i"]? = e.instances["i"]? := by
  induction n generalizing e last j with
  | zero => exact ⟨e, rfl, h, rfl⟩
  | succ n ih =>
    obtain ⟨e₁, a, j₁, he, h₁, hinst, hl₁, -⟩ := h.event (.inr rfl) hj hl none (by simp)
    have hj₁ : e₁.instances["j"]? = some j₁ := by simp [hinst]
    obtain ⟨e', hrun, h', hi⟩ := ih h₁ hj₁ hl₁
    refine ⟨e', ?_, ?_, ?_⟩
    · rw [List.replicate_succ, run_cons]
      exact ⟨e₁, by simp [Engine.step, he], hrun⟩
    · rw [Nat.add_right_comm] at h'
      exact h'
    · rw [hi, hinst]
      exact Table.getElem?_insert_ne (by decide)

/-- One machine and two instances. -/
def twoLoops : List EngineOp :=
  [.putMachine "m" 1 Engine.loopMachine, .createInstance "i" "m" 1 .null none,
    .createInstance "j" "m" 1 .null none]

def emptySegments : Engine := Engine.fresh ⟨0, .everyWrite⟩

/-- The transition of the one-state machine. -/
def MachineDefinition.loops (d : MachineDefinition) : Bool :=
  (d.getTransition "a" "e").any fun p => p.1 == "a" && p.2.isNone

def Instance.loopsAt (offset : Nat) (i : Instance) : Bool :=
  i.machine == "m" && i.version == 1 && i.state == "a" && i.ctx.isNull && i.lastWalOffset == offset

theorem Instance.loops_of_loopsAt {o : Option Instance} {offset : Nat}
    (h : o.any (loopsAt offset) = true) : ∃ i, o = some i ∧ i.Loops ∧ i.lastWalOffset = offset := by
  obtain ⟨i, hi, hloops⟩ := (Option.any_eq_true _ _).mp h
  simp only [loopsAt, Bool.and_eq_true, beq_iff_eq] at hloops
  obtain ⟨⟨⟨⟨hm, hv⟩, hs⟩, hc⟩, ho⟩ := hloops
  refine ⟨i, hi, ⟨hm, hv, hs, ?_⟩, ho⟩
  cases hctx : i.ctx <;> simp [hctx, Value.isNull] at hc
  rfl

set_option maxRecDepth 4000 in
theorem twoLoops_looping :
    ∃ e, run (Engine.step serdeCore) emptySegments twoLoops = some e ∧ e.Looping 4 ∧
      (∃ i, e.instances["i"]? = some i ∧ i.Loops ∧ i.lastWalOffset = 3 * 2 ^ 40) ∧
      ∃ j, e.instances["j"]? = some j ∧ j.Loops := by
  refine run_exists (p := fun e => e.wal.nextId = 5 ∧
    e.wal.current.map Segment.maxSize = some 0 ∧ e.wal.config.segmentSize = 0 ∧
    e.wal.closed = false ∧ (e.definitions[firstVersion]?).any MachineDefinition.loops = true ∧
    (e.instances["i"]?).any (Instance.loopsAt (3 * 2 ^ 40)) = true ∧
    (e.instances["j"]?).any (Instance.loopsAt (4 * 2 ^ 40)) = true) (by decide +kernel) ?_
  rintro e hrun ⟨hnext, hfull, hconfig, hopen, hd, hi, hj⟩
  obtain ⟨j, hj, hjl, -⟩ := Instance.loops_of_loopsAt hj
  refine ⟨⟨⟨?_, ?_, hconfig, hopen⟩, ?_⟩, Instance.loops_of_loopsAt hi, j, hj, hjl⟩
  · obtain ⟨pre, c, hr⟩ := Engine.restorable_run (Engine.new_empty serdeCore _) hrun
    refine ⟨pre, c, hr.repr, hr.clean, ?_⟩
    have hlast : e.wal.nextId = c.id + 1 := by simp [Wal.nextId, hr.repr.keys]
    rw [hnext] at hlast
    exact Nat.succ.inj hlast.symm
  · intro seg hseg
    rw [hseg] at hfull
    exact Option.some.inj hfull
  · obtain ⟨d, hd, hloops⟩ := (Option.any_eq_true _ _).mp hd
    obtain ⟨⟨target, guard⟩, htarget, hstays⟩ := (Option.any_eq_true _ _).mp hloops
    simp only [Bool.and_eq_true, beq_iff_eq, Option.isNone_iff_eq_none] at hstays
    obtain ⟨rfl, rfl⟩ := hstays
    exact ⟨d, hd, htarget⟩

/-- The first call gets a segment whose id is 2^24 above that of the creation, and so the
same offset; the second passes too. -/
theorem offset_comes_back :
    ∃ e i, run (Engine.step serdeCore) emptySegments
        (twoLoops ++ List.replicate (2 ^ 24 - 2) (.applyEvent (loopOn "j" none))) = some e ∧
      e.instances["i"]? = some i ∧
      ∃ n m q, run (engineSched serdeCore (steppedAppend serdeCore.toExternals)) (⟨e, [], []⟩, [])
          (.spawn expectCreated :: List.replicate n (.step 0) ++
            .spawn expectCreated :: List.replicate m (.step 1)) = some q ∧
        q.2.countP (EngineThread.hasWon "i" i.lastWalOffset) = 2 := by
  obtain ⟨e₀, hsetup, hloop, ⟨i, hi, hil, hio⟩, j, hj, hjl⟩ := twoLoops_looping
  obtain ⟨e, hevents, he, hsame⟩ := hloop.events hj hjl (2 ^ 24 - 2)
  rw [hi] at hsame
  have hexpected : ∀ o ∈ some (3 * 2 ^ 40), i.lastWalOffset = o := by
    rintro _ ⟨⟩
    exact hio
  obtain ⟨e₁, a, i₁, ha, he₁, hinst, hil₁, hio₁⟩ := he.event (.inl rfl) hsame hil _ hexpected
  have hi₁ : e₁.instances["i"]? = some i₁ := by simp [hinst]
  have hexpected₁ : ∀ o ∈ some (3 * 2 ^ 40), i₁.lastWalOffset = o := by
    rintro _ ⟨⟩
    rw [hio₁, WalOffset.pack_asU64 _ (Nat.zero_le _)]
    norm_num
  obtain ⟨e₂, b, i₂, hb, -⟩ := he₁.event (.inl rfl) hi₁ hil₁ _ hexpected₁
  refine ⟨e, i, run_append.mpr ⟨e₀, hsetup, hevents⟩, hsame, ?_⟩
  have hwhole := steppedAppend_whole serdeCore.toExternals
  obtain ⟨n, s₁, hrun₁, rfl, hlocks₁⟩ := EngineCall.alone_applyEvent [] hwhole ha
  obtain ⟨m, s₂, hrun₂, -, -⟩ := EngineCall.alone_applyEvent s₁.appended hwhole hb
  have hs₁ : (⟨s₁.engine, [], s₁.appended⟩ : ThreadedEngine) = s₁ := by rw [← hlocks₁]
  rw [hs₁] at hrun₂
  let won : EngineThread (steppedAppend serdeCore.toExternals) :=
    ⟨expectCreated, .done (.ok (.applied a))⟩
  refine ⟨n, m, (s₂, [won, ⟨expectCreated, .done (.ok (.applied b))⟩]), ?_, ?_⟩
  · refine run_append.mpr ⟨(s₁, [won]), run_cons.mpr ⟨_, rfl, hrun₁⟩, ?_⟩
    exact run_cons.mpr ⟨_, rfl, run_behind [won] hrun₂⟩
  · have hexpects : (loopOn "i" (some (3 * 2 ^ 40))).expects "i" i.lastWalOffset = true := by
      rw [hio]
      exact EventRequest.expects_iff.mpr ⟨rfl, rfl, rfl⟩
    have hwon (x : ApplyResult) : EngineThread.hasWon "i" i.lastWalOffset
        (⟨expectCreated, .done (.ok (.applied x))⟩ :
          EngineThread (steppedAppend serdeCore.toExternals)) = true := hexpects
    rw [List.countP_cons_of_pos (hwon a), List.countP_cons_of_pos (hwon b)]
    rfl

end Rstmdb
