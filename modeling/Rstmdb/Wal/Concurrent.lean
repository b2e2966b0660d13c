import Rstmdb.Lib.Interleave
import Rstmdb.Wal.Contents
import Rstmdb.Wal.Payload
import Rstmdb.Wal.Refine

/-! Appends from many threads. The sequence number is drawn before the segment
lock is taken, and a rotation is four steps of its own, outside that lock. So
neither the order of sequence numbers nor the current segment follows the order
in which calls return, except on the schedules described here. -/
namespace Rstmdb

/-- Where a call of `append` stands between two atomic steps. -/
inductive AppendPc
  | started
  /-- The sequence number is drawn; next is the segment lock. -/
  | sequenced (record : WalRecord)
  /-- The record did not fit and the lock is released; next is the new segment's id. -/
  | rotating (record : WalRecord)
  | creating (record : WalRecord) (id : SegmentId)
  | created (record : WalRecord) (segment : Segment)
  | inserted (record : WalRecord) (segment : Segment)
  /-- The rotation is over; next is the segment lock again. -/
  | assigned (record : WalRecord)
  | done (result : Except WalError (UInt64 × WalOffset))

/-- A call, with the offsets that had been returned when it began. -/
structure AppendCall where
  entry : WalEntry
  pc : AppendPc
  before : List WalOffset

/-- The log, with the appends that have returned an offset, in that order. -/
structure SharedLog where
  wal : Wal
  acked : List ReadEntry

namespace AppendCall

def start (s : SharedLog) (e : WalEntry) : AppendCall where
  entry := e
  pc := if s.wal.closed then .done (.error .closed) else .started
  before := s.acked.map fun p => p.2.1

/-- The last section under the segment lock, and the return. -/
def finish (s : SharedLog) (call : AppendCall) (record : WalRecord) :
    Option (SharedLog × AppendCall) :=
  match s.wal.appendLocked record with
  | none => none
  | some (wal, .error e) => some ({ s with wal }, { call with pc := .done (.error e) })
  | some (wal, .ok (seq, off)) =>
    some (⟨wal, s.acked ++ [(seq, off, call.entry)]⟩, { call with pc := .done (.ok (seq, off)) })

/-- The next atomic step of a call. -/
def next (X : Externals) (s : SharedLog) (call : AppendCall) : Option (SharedLog × AppendCall) :=
  match call.pc with
  | .started =>
    let (sequence, wal) := s.wal.drawSequence
    let record := WalRecord.new X call.entry.entryType sequence (X.toVec call.entry)
    some ({ s with wal }, { call with pc := .sequenced record })
  | .sequenced record =>
    if s.wal.needsRotation record.diskSize then some (s, { call with pc := .rotating record })
    else finish s call record
  | .rotating record => some (s, { call with pc := .creating record s.wal.nextId })
  | .creating record id =>
    match Segment.create s.wal.dir id s.wal.config.segmentSize with
    | .error e => some (s, { call with pc := .done (.error e) })
    | .ok (segment, dir) =>
      some ({ s with wal := { s.wal with dir } }, { call with pc := .created record segment })
  | .created record segment =>
    match s.wal.insertSegment segment.id with
    | .error e => some (s, { call with pc := .done (.error e) })
    | .ok wal => some ({ s with wal }, { call with pc := .inserted record segment })
  | .inserted record segment =>
    some ({ s with wal := { s.wal with current := some segment } },
      { call with pc := .assigned record })
  | .assigned record => finish s call record
  | .done _ => none

/-- The offset that the call has returned. -/
def offset? (call : AppendCall) : Option WalOffset :=
  match call.pc with
  | .done (.ok (_, off)) => some off
  | _ => none

end AppendCall

/-- The atomic steps of concurrent appends, in any order. -/
def appendSched (X : Externals) :
    SharedLog × List AppendCall → Sched WalEntry → Option (SharedLog × List AppendCall) :=
  interleave AppendCall.start (AppendCall.next X)

/-! ## A call alone -/

/-- The call runs to its end with no step of another call in between. -/
def Alone (X : Externals) (s : SharedLog) (call : AppendCall) (w' : Wal)
    (res : Except WalError (UInt64 × WalOffset)) : Prop :=
  ∃ n s' call', run (appendSched X) (s, [call]) (List.replicate n (.step 0)) = some (s', [call']) ∧
    s'.wal = w' ∧ call'.pc = .done res

section
variable {X : Externals} {s s₁ : SharedLog} {call call₁ : AppendCall} {e : WalEntry}
  {r : WalRecord} {w w' : Wal} {res : Except WalError (UInt64 × WalOffset)}
  {acked : List ReadEntry} {before : List WalOffset}

theorem Alone.step (hn : AppendCall.next X s call = some (s₁, call₁))
    (h : Alone X s₁ call₁ w' res) : Alone X s call w' res := by
  obtain ⟨n, s', call', hrun, hend⟩ := h
  refine ⟨n + 1, s', call', ?_, hend⟩
  rw [List.replicate_succ, run_cons]
  simpa [appendSched, interleave, hn] using hrun

theorem alone_done : Alone X ⟨w, acked⟩ ⟨e, .done res, before⟩ w res :=
  ⟨0, _, _, rfl, rfl, rfl⟩

theorem alone_finish (hn : AppendCall.next X s call = AppendCall.finish s call r)
    (h : s.wal.appendLocked r = some (w', res)) : Alone X s call w' res := by
  cases res with
  | error | ok => exact .step (hn.trans (by simp only [AppendCall.finish, h]; rfl)) alone_done

theorem alone_rotating (hid : w.dir.contains w.nextId = false)
    (h : w.rotated.appendLocked r = some (w', res)) :
    Alone X ⟨w, acked⟩ ⟨e, .rotating r, before⟩ w' res := by
  let created : Wal := { w with dir := w.dir.insert w.nextId ⟨[], 0⟩ }
  have hcreate : AppendCall.next X ⟨w, acked⟩ ⟨e, .creating r w.nextId, before⟩ =
      some (⟨created, acked⟩,
        ⟨e, .created r ⟨w.nextId, 0, w.config.segmentSize, false⟩, before⟩) := by
    simp [AppendCall.next, Segment.create, hid, created]
  have hinsert : AppendCall.next X ⟨created, acked⟩
      ⟨e, .created r ⟨w.nextId, 0, w.config.segmentSize, false⟩, before⟩ =
      some (⟨{ w.rotated with current := w.current }, acked⟩,
        ⟨e, .inserted r ⟨w.nextId, 0, w.config.segmentSize, false⟩, before⟩) := by
    simp [AppendCall.next, Wal.insertSegment, Segment.openFile, Wal.rotated, created]
  have hassign : AppendCall.next X ⟨{ w.rotated with current := w.current }, acked⟩
      ⟨e, .inserted r ⟨w.nextId, 0, w.config.segmentSize, false⟩, before⟩ =
      some (⟨w.rotated, acked⟩, ⟨e, .assigned r, before⟩) := rfl
  exact .step rfl (.step hcreate (.step hinsert (.step hassign (alone_finish rfl h))))

theorem alone_rotating_of_taken (hid : w.dir.contains w.nextId = true) :
    Alone X ⟨w, acked⟩ ⟨e, .rotating r, before⟩ w (.error .io) := by
  have hcreate : Segment.create w.dir w.nextId w.config.segmentSize = .error .io := by
    simp [Segment.create, hid]
  exact .step rfl (.step (by simp only [AppendCall.next, hcreate]; rfl) alone_done)

/-- A call that nothing comes between does what the sequential `append` does. -/
theorem alone_of_append (ha : s.wal.append X e = some (w', res)) :
    Alone X s (AppendCall.start s e) w' res := by
  have hdraw : AppendCall.next X s ⟨e, .started, s.acked.map fun p => p.2.1⟩ =
      some (⟨s.wal.drawSequence.2, s.acked⟩, ⟨e, .sequenced (s.wal.nextRecord X e),
        s.acked.map fun p => p.2.1⟩) := rfl
  rcases Wal.append_cases ha with ⟨hc, rfl, rfl⟩ | ⟨hc, hrot, hid, rfl, rfl⟩ |
    ⟨hc, hrot, hid, hl⟩ | ⟨hc, hfit, hl⟩
  all_goals simp only [AppendCall.start, hc]
  · exact alone_done
  · exact .step hdraw (.step (if_pos hrot) (alone_rotating_of_taken hid))
  · exact .step hdraw (.step (if_pos hrot) (alone_rotating hid hl))
  · exact .step hdraw (alone_finish (if_neg (Bool.eq_false_iff.mp hfit)) hl)

end

/-! ## Offsets in the order of returns -/

/-- The id of a segment that the call has created and not yet made current. -/
def AppendCall.pendingId (call : AppendCall) : Option SegmentId :=
  match call.pc with
  | .created _ segment => some segment.id
  | .inserted _ segment => some segment.id
  | _ => none

/-- The segment that the call's next step makes current. -/
def AppendCall.assigning (call : AppendCall) : Option Segment :=
  match call.pc with
  | .inserted _ segment => some segment
  | _ => none

/-- What a step of a call can do to the segments: nothing, a new file, a new current
segment, or a record at the end of the current one. -/
inductive AppendCall.Moved (w : Wal) (call : AppendCall) (w' : Wal) (call' : AppendCall) : Prop
  | quiet (current : w'.current = w.current) (dir : w'.dir = w.dir)
      (pending : call'.pendingId = call.pendingId ∨ call'.pendingId = none)
      (returned : call'.offset? = none) : Moved w call w' call'
  | created {id : SegmentId} (free : id ∉ w.dir) (pending : call'.pendingId = some id)
      (current : w'.current = w.current) (dir : w'.dir = w.dir.insert id ⟨[], 0⟩)
      (returned : call'.offset? = none) : Moved w call w' call'
  | assigned {segment : Segment} (pending : call.pendingId = some segment.id)
      (done : call'.pendingId = none) (current : w'.current = some segment)
      (dir : w'.dir = w.dir) (returned : call'.offset? = none) : Moved w call w' call'
  | written {cur cur' : Segment} (before : w.current = some cur) (current : w'.current = some cur')
      (id : cur'.id = cur.id) (size : cur.size < cur'.size) (low : cur.size ≤ WalOffset.offsetMask)
      (dir : ∀ k ∈ w.dir, k ∈ w'.dir) (done : call'.pendingId = none)
      (returned : call'.offset? = some (WalOffset.pack cur.id cur.size)) : Moved w call w' call'

theorem AppendCall.moved_of_finish {s s' : SharedLog} {call call' : AppendCall} {r : WalRecord}
    (h : AppendCall.finish s call r = some (s', call')) : Moved s.wal call s'.wal call' := by
  unfold AppendCall.finish at h
  cases hcur : s.wal.current with
  | none => simp [Wal.appendLocked, hcur] at h
  | some cur =>
    split at h
    · cases h
    · rename_i wal e ha
      cases h
      obtain ⟨-, rfl, -⟩ | ⟨-, -, -, hres⟩ := Wal.appendLocked_cases hcur ha
      · exact .quiet rfl rfl (.inr rfl) rfl
      · cases hres
    · rename_i wal seq off ha
      cases h
      obtain ⟨-, -, hres⟩ | ⟨-, hsmall, rfl, hres⟩ := Wal.appendLocked_cases hcur ha
      · cases hres
      cases hres
      have hgrown : (s.wal.written cur r).current = some (Wal.grownSegment cur r) := rfl
      obtain ⟨cur', hcur', hid, hsize⟩ := Wal.applyPolicy_current hgrown
      have hsize' : cur'.size = cur.size + r.diskSize := hsize
      refine .written hcur hcur' hid ?_ hsmall ?_ rfl rfl
      · simp only [WalRecord.diskSize, recordHeaderSize] at hsize'
        omega
      · intro k hk
        exact Wal.mem_dir_applyPolicy (Segment.mem_writeEnd hk)

theorem AppendCall.moved_of_next {X : Externals} {s s' : SharedLog} {call call' : AppendCall}
    (h : call.next X s = some (s', call')) : Moved s.wal call s'.wal call' := by
  unfold AppendCall.next at h
  split at h
  · cases h
    exact .quiet rfl rfl (.inr rfl) rfl
  · split at h
    · cases h
      exact .quiet rfl rfl (.inr rfl) rfl
    · exact moved_of_finish h
  · cases h
    exact .quiet rfl rfl (.inr rfl) rfl
  · rename_i r id hpc
    split at h
    · cases h
      exact .quiet rfl rfl (.inr rfl) rfl
    rename_i segment dir hc
    cases h
    unfold Segment.create at hc
    split at hc
    · cases hc
    rename_i hfree
    cases hc
    refine .created ?_ rfl rfl rfl rfl
    rw [← Std.ExtTreeMap.contains_iff_mem]
    exact hfree
  · rename_i r segment hpc
    split at h
    · cases h
      exact .quiet rfl rfl (.inr rfl) rfl
    rename_i wal hins
    cases h
    unfold Wal.insertSegment at hins
    split at hins
    · cases hins
    · cases hins
      exact .quiet rfl rfl (.inl (by simp [AppendCall.pendingId, hpc])) rfl
  · rename_i r segment hpc
    cases h
    exact .assigned (by simp [AppendCall.pendingId, hpc]) rfl rfl rfl rfl
  · exact moved_of_finish h
  · cases h

/-- A new current segment replaces one with a smaller id, and its id fits in a
packed offset. -/
def AssignsForward (s : SharedLog × List AppendCall) : Sched WalEntry → Prop
  | .spawn _ => True
  | .step k => ∀ call ∈ s.2[k]?, ∀ segment ∈ call.assigning,
      segment.id < 2 ^ 24 ∧ ∀ current ∈ s.1.wal.current, current.id ≤ segment.id

instance decidableAssignsForward (s : SharedLog × List AppendCall) :
    ∀ op, Decidable (AssignsForward s op)
  | .spawn _ => inferInstanceAs (Decidable True)
  | .step k => inferInstanceAs (Decidable (∀ call ∈ s.2[k]?, ∀ segment ∈ call.assigning,
      segment.id < 2 ^ 24 ∧ ∀ current ∈ s.1.wal.current, current.id ≤ segment.id))

/-- Every offset returned so far is below the end of the current segment, and
every call is above those that it found returned. -/
structure Ordered (s : SharedLog) (calls : List AppendCall) (cur : Segment) : Prop where
  current : s.wal.current = some cur
  present : cur.id ∈ s.wal.dir
  low : cur.id < 2 ^ 24
  acked : ∀ p ∈ s.acked, p.2.1.asU64 < cur.id * 2 ^ 40 + cur.size ∧
    p.2.1.asU64 < (cur.id + 1) * 2 ^ 40
  distinct : (calls.filterMap AppendCall.pendingId).Nodup
  pending : ∀ id ∈ calls.filterMap AppendCall.pendingId, id ∈ s.wal.dir ∧ id ≠ cur.id
  before : ∀ call ∈ calls, ∀ o ∈ call.before, ∃ p ∈ s.acked, p.2.1 = o
  order : ∀ call ∈ calls, ∀ off ∈ call.offset?, ∀ o ∈ call.before, o.asU64 < off.asU64

section
variable {X : Externals} {s s' : SharedLog} {calls xs ys : List AppendCall}
  {call call' : AppendCall} {cur : Segment}

section
variable (h : Ordered s (xs ++ call :: ys) cur)
include h

/-- A step that returns nothing, creates nothing and leaves the current segment. -/
theorem Ordered.quiet (hcur : s'.wal.current = s.wal.current) (hdir : s'.wal.dir = s.wal.dir)
    (hacked : s'.acked = s.acked) (hb : call'.before = call.before)
    (hp : call'.pendingId = call.pendingId ∨ call'.pendingId = none)
    (ho : call'.offset? = none) : Ordered s' (xs ++ call' :: ys) cur := by
  have hsub := filterMap_replace_sublist xs ys hp
  refine ⟨hcur.trans h.current, hdir ▸ h.present, h.low, hacked ▸ h.acked,
    h.distinct.sublist hsub, ?_, ?_, forall_replace h.order (by simp [ho])⟩
  · intro id hid
    rw [hdir]
    exact h.pending id (hsub.subset hid)
  · rw [hacked]
    refine forall_replace h.before ?_
    rw [hb]
    exact h.before call (by simp)

theorem Ordered.create {id : SegmentId} {r : WalRecord}
    {segment : Segment} {dir : Dir} (hpc : call.pc = .creating r id)
    (hc : Segment.create s.wal.dir id s.wal.config.segmentSize = .ok (segment, dir)) :
    Ordered { s with wal := { s.wal with dir } }
      (xs ++ { call with pc := .created r segment } :: ys) cur := by
  unfold Segment.create at hc
  split at hc
  · cases hc
  rename_i hfree
  cases hc
  have hnew : id ∉ s.wal.dir := by
    rw [← Std.ExtTreeMap.contains_iff_mem]
    exact hfree
  have hnone : call.pendingId = none := by simp [AppendCall.pendingId, hpc]
  have hothers : ∀ k ∈ (xs ++ ys).filterMap AppendCall.pendingId,
      k ∈ s.wal.dir ∧ k ≠ cur.id := by
    intro k hk
    refine h.pending k ?_
    simp only [List.filterMap_append, List.filterMap_cons, hnone] at hk ⊢
    exact hk
  have hfresh : id ∉ (xs ++ ys).filterMap AppendCall.pendingId :=
    fun hk => hnew (hothers id hk).1
  have hperm : ((xs ++ { call with pc := AppendPc.created r ⟨id, 0, s.wal.config.segmentSize,
      false⟩ } :: ys).filterMap AppendCall.pendingId).Perm
      (id :: (xs ++ ys).filterMap AppendCall.pendingId) := by
    simp only [List.filterMap_append, List.filterMap_cons, AppendCall.pendingId]
    exact List.perm_middle
  have hkept {k : SegmentId} (hk : k ∈ s.wal.dir) : k ∈ s.wal.dir.insert id ⟨[], 0⟩ :=
    Std.ExtTreeMap.mem_insert.mpr (.inr hk)
  refine ⟨h.current, hkept h.present, h.low, h.acked, ?_, ?_,
    forall_replace h.before (h.before call (by simp)),
    forall_replace h.order (by simp [AppendCall.offset?])⟩
  · have hd := h.distinct
    simp only [List.filterMap_append, List.filterMap_cons, hnone] at hd
    rw [hperm.nodup_iff, List.nodup_cons, List.filterMap_append]
    rw [List.filterMap_append] at hfresh
    exact ⟨hfresh, hd⟩
  · intro k hk
    rcases List.mem_cons.mp (hperm.subset hk) with rfl | hk
    · exact ⟨by simp, fun he => hnew (he ▸ h.present)⟩
    · exact ⟨hkept (hothers k hk).1, (hothers k hk).2⟩

theorem Ordered.assign {r : WalRecord} {segment : Segment}
    (hpc : call.pc = .inserted r segment) (hlow : segment.id < 2 ^ 24)
    (hfwd : cur.id ≤ segment.id) :
    Ordered { s with wal := { s.wal with current := some segment } }
      (xs ++ { call with pc := .assigned r } :: ys) segment := by
  have hsome : call.pendingId = some segment.id := by simp [AppendCall.pendingId, hpc]
  have hmine := h.pending segment.id (by simp [List.filterMap_append, hsome])
  have hlt : cur.id < segment.id := lt_of_le_of_ne hfwd fun he => hmine.2 he.symm
  have hcalls : (xs ++ call :: ys).filterMap AppendCall.pendingId =
      xs.filterMap AppendCall.pendingId ++ segment.id :: ys.filterMap AppendCall.pendingId := by
    simp [List.filterMap_append, hsome]
  have hcalls' : (xs ++ { call with pc := AppendPc.assigned r } :: ys).filterMap
      AppendCall.pendingId =
      xs.filterMap AppendCall.pendingId ++ ys.filterMap AppendCall.pendingId := by
    rw [List.filterMap_append, List.filterMap_cons_none rfl]
  have hdistinct := h.distinct
  rw [hcalls, List.perm_middle.nodup_iff, List.nodup_cons] at hdistinct
  refine ⟨rfl, hmine.1, hlow, ?_, ?_, ?_, forall_replace h.before (h.before call (by simp)),
    forall_replace h.order (by simp [AppendCall.offset?])⟩
  · intro p hp
    have hbound := (h.acked p hp).2
    have hstep : (cur.id + 1) * 2 ^ 40 ≤ segment.id * 2 ^ 40 := Nat.mul_le_mul_right _ hlt
    exact ⟨hbound.trans_le (hstep.trans (Nat.le_add_right _ _)),
      hbound.trans_le (hstep.trans (Nat.mul_le_mul_right _ (Nat.le_succ _)))⟩
  · rw [hcalls']
    exact hdistinct.2
  · intro id hid
    rw [hcalls'] at hid
    refine ⟨(h.pending id ?_).1, ?_⟩
    · rw [hcalls]
      simp only [List.mem_append, List.mem_cons] at hid ⊢
      tauto
    · rintro rfl
      exact hdistinct.1 hid

/-- A call that returns gets the end of the current segment, above all that were returned. -/
theorem Ordered.finish {r : WalRecord} (hf : AppendCall.finish s call r = some (s', call')) :
    ∃ cur', Ordered s' (xs ++ call' :: ys) cur' := by
  unfold AppendCall.finish at hf
  split at hf
  · cases hf
  · rename_i wal e ha
    cases hf
    rcases Wal.appendLocked_cases h.current ha with ⟨-, rfl, -⟩ | ⟨-, -, -, hres⟩
    · exact ⟨cur, h.quiet rfl rfl rfl rfl (.inr rfl) rfl⟩
    · cases hres
  · rename_i wal seq off ha
    cases hf
    rcases Wal.appendLocked_cases h.current ha with ⟨-, -, hres⟩ | ⟨-, hsmall, rfl, hres⟩
    · cases hres
    cases hres
    have hgrown : (s.wal.written cur r).current = some (Wal.grownSegment cur r) := rfl
    obtain ⟨cur', hcur', hid, hsize⟩ := Wal.applyPolicy_current hgrown
    have hid' : cur'.id = cur.id := hid
    have hsize' : cur'.size = cur.size + r.diskSize := hsize
    have hoff : (WalOffset.pack cur.id cur.size).asU64 = cur.id * 2 ^ 40 + cur.size := by
      rw [WalOffset.pack_asU64 cur.id hsmall, Nat.mod_eq_of_lt h.low]
    have hkept {k : SegmentId} (hk : k ∈ s.wal.dir) :
        k ∈ ((s.wal.written cur r).applyPolicy (Wal.grownSegment cur r)).dir :=
      Wal.mem_dir_applyPolicy (Segment.mem_writeEnd hk)
    have hsub : ((xs ++ { call with pc := .done (.ok (r.header.sequence,
        WalOffset.pack cur.id cur.size)) } :: ys).filterMap AppendCall.pendingId).Sublist
        ((xs ++ call :: ys).filterMap AppendCall.pendingId) :=
      filterMap_replace_sublist xs ys (.inr rfl)
    have hbefore : ∀ c ∈ xs ++ call :: ys, ∀ o ∈ c.before,
        ∃ p ∈ s.acked ++ [(r.header.sequence, WalOffset.pack cur.id cur.size, call.entry)],
          p.2.1 = o := by
      intro c hc o ho
      obtain ⟨p, hp, he⟩ := h.before c hc o ho
      exact ⟨p, List.mem_append_left _ hp, he⟩
    refine ⟨cur', hcur', by rw [hid']; exact hkept h.present, by rw [hid']; exact h.low, ?_,
      h.distinct.sublist hsub, ?_, forall_replace hbefore (hbefore call (by simp)),
      forall_replace h.order ?_⟩
    · intro p hp
      rw [hid', hsize']
      rcases List.mem_append.mp hp with hp | hp
      · obtain ⟨hend, htop⟩ := h.acked p hp
        exact ⟨by omega, htop⟩
      · rw [List.mem_singleton.mp hp, hoff]
        simp only [WalRecord.diskSize, recordHeaderSize, WalOffset.offsetMask] at hsmall ⊢
        omega
    · intro id hmem
      rw [hid']
      exact ⟨hkept (h.pending id (hsub.subset hmem)).1, (h.pending id (hsub.subset hmem)).2⟩
    · intro off hres o ho
      cases hres
      obtain ⟨p, hp, rfl⟩ := h.before call (by simp) o ho
      rw [hoff]
      exact (h.acked p hp).1

end

/-- Every step of a schedule that only moves the current segment forward keeps the order. -/
theorem ordered_step {s t : SharedLog × List AppendCall} {op : Sched WalEntry}
    (h : ∃ cur, Ordered s.1 s.2 cur) (hfwd : AssignsForward s op)
    (hs : appendSched X s op = some t) : ∃ cur, Ordered t.1 t.2 cur := by
  obtain ⟨s, calls⟩ := s
  obtain ⟨s', calls'⟩ := t
  obtain ⟨cur, h⟩ := h
  simp only at h ⊢
  rcases interleave_cases hs with ⟨e, rfl, rfl, rfl⟩ |
    ⟨k, xs, call, call', ys, rfl, hk, rfl, hnext, rfl⟩
  · have hpc : (AppendCall.start s' e).offset? = none ∧
        (AppendCall.start s' e).pendingId = none := by
      unfold AppendCall.start AppendCall.offset? AppendCall.pendingId
      cases s'.wal.closed <;> exact ⟨rfl, rfl⟩
    refine ⟨cur, h.current, h.present, h.low, h.acked, ?_, ?_, ?_, ?_⟩
    · simpa [List.filterMap_append, hpc.2] using h.distinct
    · simpa [List.filterMap_append, hpc.2] using h.pending
    · exact forall_spawned h.before fun o ho => by simpa [AppendCall.start] using ho
    · exact forall_spawned h.order (by simp [hpc.1])
  · unfold AppendCall.next at hnext
    split at hnext
    · cases hnext
      exact ⟨cur, h.quiet rfl rfl rfl rfl (.inr rfl) rfl⟩
    · split at hnext
      · cases hnext
        exact ⟨cur, h.quiet rfl rfl rfl rfl (.inr rfl) rfl⟩
      · exact h.finish hnext
    · cases hnext
      exact ⟨cur, h.quiet rfl rfl rfl rfl (.inr rfl) rfl⟩
    · rename_i r id hpc
      split at hnext
      · cases hnext
        exact ⟨cur, h.quiet rfl rfl rfl rfl (.inr rfl) rfl⟩
      · rename_i segment dir hc
        cases hnext
        exact ⟨cur, h.create hpc hc⟩
    · rename_i r segment hpc
      split at hnext
      · cases hnext
        exact ⟨cur, h.quiet rfl rfl rfl rfl (.inr rfl) rfl⟩
      rename_i wal hins
      cases hnext
      unfold Wal.insertSegment at hins
      split at hins
      · cases hins
      · cases hins
        exact ⟨cur, h.quiet rfl rfl rfl rfl (.inl (by simp [AppendCall.pendingId, hpc])) rfl⟩
    · rename_i r segment hpc
      cases hnext
      obtain ⟨hlow, hle⟩ := hfwd call hk segment (by simp [AppendCall.assigning, hpc])
      exact ⟨segment, h.assign hpc hlow (hle cur h.current)⟩
    · exact h.finish hnext
    · cases hnext

end

/-- On every schedule that only moves the current segment forward, an append that
begins after another has returned gets a larger offset; and entries are read
back, and so replayed, in the order of their offsets. -/
theorem offset_lt_of_returned_before (X : Externals) {config : WalConfig} {dir : Dir} {w₀ : Wal}
    (hopen : Wal.openDir X config dir = .ok w₀) (hlow : ∀ seg ∈ w₀.current, seg.id < 2 ^ 24)
    {ops : List (Sched WalEntry)} {s : SharedLog × List AppendCall}
    (forward : Meets (appendSched X) AssignsForward (⟨w₀, []⟩, []) ops)
    (hrun : run (appendSched X) (⟨w₀, []⟩, []) ops = some s) :
    (∀ call ∈ s.2, ∀ off ∈ call.offset?, ∀ o ∈ call.before, o.asU64 < off.asU64) ∧
      ((∀ id ∈ s.1.wal.segments.keys, id < 2 ^ 24) →
        ∀ w' es, s.1.wal.readFrom X ⟨0⟩ none = some (w', .ok es) →
          es.Pairwise fun p q => p.2.1.asU64 < q.2.1.asU64) := by
  obtain ⟨seg, f, hcur, hf, -⟩ := Wal.openDir_current hopen
  have present : seg.id ∈ w₀.dir := by
    rw [Std.ExtTreeMap.mem_iff_isSome_getElem?, hf]
    rfl
  have start : ∃ cur, Ordered ⟨w₀, []⟩ [] cur :=
    ⟨seg, hcur, present, hlow seg hcur, by simp, by simp, by simp, by simp, by simp⟩
  obtain ⟨cur, h⟩ := run_keeps_of_meets (P := fun s => ∃ cur, Ordered s.1 s.2 cur)
    (fun s op t => ordered_step) start forward hrun
  exact ⟨h.order, fun low w' es hread => Wal.readFrom_increasing low hread⟩

/-- Two calls race, one of them rotates, and a third begins when both have returned. -/
theorem offset_lt_of_returned_before_rotated :
    ∃ s, run (appendSched serde) (⟨Wal.fresh ⟨60, .everyWrite⟩, []⟩, [])
        [.spawn (.checkpoint 1), .spawn (.checkpoint 2), .step 0, .step 1, .step 1, .step 0,
          .step 0, .step 0, .step 0, .step 0, .step 0, .spawn (.checkpoint 3), .step 2, .step 2,
          .step 2, .step 2, .step 2, .step 2, .step 2] = some s ∧
      s.1.acked.length = 3 ∧
      ∀ call ∈ s.2, ∀ off ∈ call.offset?, ∀ o ∈ call.before, o.asU64 < off.asU64 := by
  refine run_exists (p := fun s => s.1.acked.length = 3) (by decide +kernel) ?_
  intro s hrun hlen
  exact ⟨hlen, (offset_lt_of_returned_before serde
    (Wal.openDir_empty serde ⟨60, .everyWrite⟩) (by decide) (by decide +kernel) hrun).1⟩

/-- The first of two rotations makes its segment current last. The append that
begins then, after one into the newer segment has returned, goes to the older. -/
theorem racing_rotations_step_back :
    ∃ s, run (appendSched serde) (⟨Wal.fresh ⟨60, .everyWrite⟩, []⟩, [])
        [.spawn (.checkpoint 1), .step 0, .step 0, .spawn (.checkpoint 2),
          .spawn (.checkpoint 3), .step 1, .step 2, .step 1, .step 2, .step 1, .step 1, .step 1,
          .step 2, .step 2, .step 2, .step 2, .step 2, .step 1, .spawn (.checkpoint 4), .step 3,
          .step 3] = some s ∧
      ∃ call ∈ s.2, ∃ off ∈ call.offset?, ∃ o ∈ call.before, off.asU64 < o.asU64 := by
  refine run_exists (p := fun s => ∃ call ∈ s.2, ∃ off ∈ call.offset?, ∃ o ∈ call.before,
    off.asU64 < o.asU64) (by decide +kernel) ?_
  exact fun _ _ h => h

/-! ## Sequence numbers in the order of offsets -/

/-- The record of a call that has drawn its number and waits for the segment lock. -/
def AppendCall.waiting (call : AppendCall) : Option WalRecord :=
  match call.pc with
  | .sequenced record => some record
  | _ => none

/-- The numbers drawn and not yet written. -/
def drawn (calls : List AppendCall) : List UInt64 :=
  calls.filterMap fun call => call.waiting.map fun r => r.header.sequence

/-- No call has to rotate. -/
def FitsCurrent (s : SharedLog × List AppendCall) : Sched WalEntry → Prop
  | .spawn _ => True
  | .step k => ∀ call ∈ s.2[k]?, ∀ r ∈ call.waiting,
      s.1.wal.needsRotation r.diskSize = false

/-- The segment lock goes to the call that drew the smallest waiting number. -/
def DrawOrder (s : SharedLog × List AppendCall) : Sched WalEntry → Prop
  | .spawn _ => True
  | .step k => ∀ call ∈ s.2[k]?, ∀ r ∈ call.waiting, ∀ q ∈ drawn s.2,
      r.header.sequence ≤ q

instance decidableFitsCurrent (s : SharedLog × List AppendCall) :
    ∀ op, Decidable (FitsCurrent s op)
  | .spawn _ => inferInstanceAs (Decidable True)
  | .step k => inferInstanceAs (Decidable (∀ call ∈ s.2[k]?, ∀ r ∈ call.waiting,
      s.1.wal.needsRotation r.diskSize = false))

instance decidableDrawOrder (s : SharedLog × List AppendCall) :
    ∀ op, Decidable (DrawOrder s op)
  | .spawn _ => inferInstanceAs (Decidable True)
  | .step k =>
    -- Over the list, not over all 64-bit numbers.
    have (r : WalRecord) : Decidable (∀ q ∈ drawn s.2, r.header.sequence ≤ q) :=
      List.decidableBAll _ _
    inferInstanceAs (Decidable (∀ call ∈ s.2[k]?, ∀ r ∈ call.waiting,
      ∀ q ∈ drawn s.2, r.header.sequence ≤ q))

/-- A call that has not begun to rotate, with the record of its own entry. -/
def AppendCall.Plain (X : Externals) (call : AppendCall) : Prop :=
  match call.pc with
  | .started => True
  | .sequenced r => r = recordOf X (r.header.sequence, call.entry)
  | .done _ => True
  | _ => False

/-- Without rotation the log stays one list of chunks, and holds what was
returned behind the entries it had. -/
structure Unrotated {X : Externals} (base : List ReadEntry) (s : SharedLog)
    (calls : List AppendCall) (pre : List (Chunk X)) (c : Chunk X) : Prop where
  repr : s.wal.Repr pre c
  clean : c.tail = []
  entries : entries (pre ++ [c]) = base ++ s.acked
  plain : ∀ call ∈ calls, call.Plain X

section
variable {X : Externals} {base : List ReadEntry} {s s' : SharedLog} {xs ys : List AppendCall}
  {call call' : AppendCall} {pre : List (Chunk X)} {c : Chunk X}

/-- What a call can do that does not rotate. -/
theorem next_cases_of_fits (hp : call.Plain X)
    (fits : ∀ r ∈ call.waiting, s.wal.needsRotation r.diskSize = false)
    (hn : AppendCall.next X s call = some (s', call')) :
    (call.pc = .started ∧ s' = { s with wal := s.wal.drawSequence.2 } ∧
        call' = { call with pc := .sequenced (recordOf X (s.wal.nextSequence, call.entry)) }) ∨
      ∃ seq, call.pc = .sequenced (recordOf X (seq, call.entry)) ∧
        AppendCall.finish s call (recordOf X (seq, call.entry)) = some (s', call') := by
  unfold AppendCall.next at hn
  split at hn
  · rename_i hpc
    cases hn
    exact .inl ⟨hpc, rfl, rfl⟩
  · rename_i r hpc
    have hfit := fits r (by simp [AppendCall.waiting, hpc])
    rw [hfit, if_neg Bool.false_ne_true] at hn
    have hr : r = recordOf X (r.header.sequence, call.entry) := by
      simpa [AppendCall.Plain, hpc] using hp
    exact .inr ⟨r.header.sequence, by rw [← hr]; exact hpc, by rw [← hr]; exact hn⟩
  case h_8 => cases hn
  all_goals
    rename_i hpc
    simp [AppendCall.Plain, hpc] at hp

theorem Unrotated.finish {seq : UInt64} (h : Unrotated base s (xs ++ call :: ys) pre c)
    (hf : AppendCall.finish s call (recordOf X (seq, call.entry)) = some (s', call')) :
    ∃ c', Unrotated base s' (xs ++ call' :: ys) pre c' ∧ call'.waiting = none ∧
      s'.wal.nextSequence = s.wal.nextSequence ∧
      (s'.acked = s.acked ∨ ∃ off, s'.acked = s.acked ++ [(seq, off, call.entry)]) := by
  unfold AppendCall.finish at hf
  split at hf
  · cases hf
  · rename_i wal e ha
    cases hf
    rcases h.repr.appendLocked h.clean ha with ⟨err, -, rfl⟩ | ⟨_, _, hres, -⟩
    · exact ⟨c, ⟨h.repr, h.clean, h.entries, forall_replace h.plain trivial⟩, rfl, rfl, .inl rfl⟩
    · cases hres
  · rename_i wal seq' off ha
    cases hf
    rcases h.repr.appendLocked h.clean ha with ⟨err, hres, -⟩ | ⟨fit, low, hres, hr, hn, -⟩
    · cases hres
    · cases hres
      refine ⟨_, ⟨hr, rfl, ?_, forall_replace h.plain trivial⟩, rfl, hn, .inr ⟨_, rfl⟩⟩
      rw [← List.append_assoc, ← h.entries, entries_append, entries_append, entries_singleton,
        entries_singleton, Chunk.push_entries, List.append_assoc]

/-- The entries are in the order of their numbers, and every number that waits is
above them all. -/
structure InSequence (es : List ReadEntry) (next : UInt64) (calls : List AppendCall) : Prop where
  sequenced : Wal.Sequenced next es
  below : ∀ q ∈ drawn calls, q.toNat < next.toNat
  distinct : (drawn calls).Nodup
  ahead : ∀ q ∈ drawn calls, ∀ p ∈ es, p.1 < q

theorem drawn_append (ts us : List AppendCall) : drawn (ts ++ us) = drawn ts ++ drawn us :=
  List.filterMap_append

variable {t : AppendCall} {ts : List AppendCall} {r : WalRecord} {op : Sched WalEntry}

theorem drawn_cons_none (h : t.waiting = none) :
    drawn (t :: ts) = drawn ts :=
  List.filterMap_cons_none (by simp [h])

theorem drawn_cons_some (h : t.waiting = some r) :
    drawn (t :: ts) = r.header.sequence :: drawn ts :=
  List.filterMap_cons_some (by simp [h])

variable {es : List ReadEntry} {nxt : UInt64}

section
variable (h : InSequence es nxt (xs ++ call :: ys))
include h

/-- A new number is above every entry and every number drawn before. -/
theorem InSequence.draw (room : nxt.toNat + 1 < 2 ^ 64)
    (hc : call.waiting = none) (hc' : call'.waiting = some r) (hr : r.header.sequence = nxt) :
    InSequence es (nxt + 1) (xs ++ call' :: ys) := by
  have hperm : (drawn (xs ++ call' :: ys)).Perm (nxt :: drawn (xs ++ call :: ys)) := by
    rw [drawn_append, drawn_append, drawn_cons_some hc', drawn_cons_none hc, hr]
    exact List.perm_middle
  refine ⟨h.sequenced.draw room, ?_, ?_, ?_⟩
  · intro q hq
    rw [Wal.toNat_succ room]
    rcases List.mem_cons.mp (hperm.subset hq) with rfl | hq
    · exact Nat.lt_succ_self _
    · exact (h.below q hq).trans (Nat.lt_succ_self _)
  · rw [hperm.nodup_iff, List.nodup_cons]
    exact ⟨fun hq => lt_irrefl _ (h.below nxt hq), h.distinct⟩
  · intro q hq p hp
    rcases List.mem_cons.mp (hperm.subset hq) with rfl | hq
    · exact UInt64.lt_iff_toNat_lt.mpr (h.sequenced.below p hp)
    · exact h.ahead q hq p hp

theorem InSequence.leave (hc' : call'.waiting = none) : InSequence es nxt (xs ++ call' :: ys) := by
  have hsub : (drawn (xs ++ call' :: ys)).Sublist (drawn (xs ++ call :: ys)) :=
    filterMap_replace_sublist xs ys (.inr (by simp [hc']))
  exact ⟨h.sequenced, fun q hq => h.below q (hsub.subset hq), h.distinct.sublist hsub,
    fun q hq => h.ahead q (hsub.subset hq)⟩

/-- The smallest waiting number is written behind the entries. -/
theorem InSequence.write (hc : call.waiting = some r)
    (hc' : call'.waiting = none) (least : ∀ q ∈ drawn (xs ++ call :: ys), r.header.sequence ≤ q)
    (off : WalOffset) (e : WalEntry) :
    InSequence (es ++ [(r.header.sequence, off, e)]) nxt (xs ++ call' :: ys) := by
  have hperm : (drawn (xs ++ call :: ys)).Perm
      (r.header.sequence :: drawn (xs ++ call' :: ys)) := by
    rw [drawn_append, drawn_append, drawn_cons_some hc, drawn_cons_none hc']
    exact List.perm_middle
  have hmine : r.header.sequence ∈ drawn (xs ++ call :: ys) := hperm.symm.subset (by simp)
  have hrest : ∀ q ∈ drawn (xs ++ call' :: ys), q ∈ drawn (xs ++ call :: ys) :=
    fun q hq => hperm.symm.subset (List.mem_cons_of_mem _ hq)
  have hd := h.distinct
  rw [hperm.nodup_iff, List.nodup_cons] at hd
  refine ⟨⟨?_, ?_, h.sequenced.positive⟩, fun q hq => h.below q (hrest q hq), hd.2, ?_⟩
  · refine List.pairwise_append.mpr ⟨h.sequenced.increasing, by simp, ?_⟩
    intro p hp q hq
    rw [List.mem_singleton.mp hq]
    exact h.ahead _ hmine p hp
  · intro p hp
    rcases List.mem_append.mp hp with hp | hp
    · exact h.sequenced.below p hp
    · rw [List.mem_singleton.mp hp]
      exact h.below _ hmine
  · intro q hq p hp
    rcases List.mem_append.mp hp with hp | hp
    · exact h.ahead q (hrest q hq) p hp
    · rw [List.mem_singleton.mp hp]
      have hle := UInt64.le_iff_toNat_le.mp (least q (hrest q hq))
      have hne : r.header.sequence.toNat ≠ q.toNat :=
        fun he => hd.1 (UInt64.toNat_inj.mp he ▸ hq)
      exact UInt64.lt_iff_toNat_lt.mpr (lt_of_le_of_ne hle hne)

end

theorem unrotated_cases {calls calls' : List AppendCall} (h : Unrotated base s calls pre c)
    (fits : FitsCurrent (s, calls) op) (hs : appendSched X (s, calls) op = some (s', calls')) :
    ∃ c', Unrotated base s' calls' pre c' ∧
      ((s' = s ∧ drawn calls' = drawn calls) ∨
        ∃ xs call call' ys, calls = xs ++ call :: ys ∧ calls' = xs ++ call' :: ys ∧
          ((∃ r, call.waiting = none ∧ call'.waiting = some r ∧
              r.header.sequence = s.wal.nextSequence ∧
              s' = { s with wal := s.wal.drawSequence.2 }) ∨
            ∃ k r, op = .step k ∧ calls[k]? = some call ∧ call.waiting = some r ∧
              call'.waiting = none ∧ s'.wal.nextSequence = s.wal.nextSequence ∧
              (s'.acked = s.acked ∨
                ∃ off, s'.acked = s.acked ++ [(r.header.sequence, off, call.entry)]))) := by
  rcases interleave_cases hs with ⟨e, rfl, rfl, rfl⟩ |
    ⟨k, xs, call, call', ys, rfl, hk, rfl, hnext, rfl⟩
  · have hplain : (AppendCall.start s' e).Plain X ∧ (AppendCall.start s' e).waiting = none := by
      unfold AppendCall.start AppendCall.Plain AppendCall.waiting
      cases s'.wal.closed <;> exact ⟨trivial, rfl⟩
    refine ⟨c, ⟨h.repr, h.clean, h.entries, ?_⟩, .inl ⟨rfl, ?_⟩⟩
    · intro t ht
      rcases List.mem_append.mp ht with ht | ht
      · exact h.plain t ht
      · rw [List.mem_singleton.mp ht]
        exact hplain.1
    · rw [drawn_append, drawn_cons_none hplain.2]
      exact List.append_nil _
  · rcases next_cases_of_fits (h.plain call (by simp)) (fits call hk) hnext with
      ⟨hpc, rfl, rfl⟩ | ⟨seq, hpc, hfin⟩
    · refine ⟨c, ⟨⟨h.repr.holds, h.repr.keys, h.repr.current⟩, h.clean, h.entries,
        forall_replace h.plain rfl⟩, .inr ⟨xs, call, _, ys, rfl, rfl, .inl ⟨_, ?_, rfl, rfl, rfl⟩⟩⟩
      simp [AppendCall.waiting, hpc]
    · obtain ⟨c', h', hw', hn, hacked⟩ := h.finish hfin
      refine ⟨c', h', .inr ⟨xs, call, call', ys, rfl, rfl,
        .inr ⟨k, recordOf X (seq, call.entry), rfl, hk, ?_, hw', hn, hacked⟩⟩⟩
      simp [AppendCall.waiting, hpc]

theorem unrotated_step {s t : SharedLog × List AppendCall}
    (h : ∃ (pre : List (Chunk X)) (c : Chunk X), Unrotated base s.1 s.2 pre c)
    (fits : FitsCurrent s op) (hs : appendSched X s op = some t) :
    ∃ (pre : List (Chunk X)) (c : Chunk X), Unrotated base t.1 t.2 pre c := by
  obtain ⟨pre, c, h⟩ := h
  obtain ⟨c', h', -⟩ := unrotated_cases h fits hs
  exact ⟨pre, c', h'⟩

/-- The log after `n` steps of a schedule that keeps to the order of draws. -/
def DrawnInOrder (X : Externals) (base : List ReadEntry) (n : Nat)
    (s : SharedLog × List AppendCall) : Prop :=
  (∃ (pre : List (Chunk X)) (c : Chunk X), Unrotated base s.1 s.2 pre c) ∧
    (n + 1 < 2 ^ 64 → InSequence (base ++ s.1.acked) s.1.wal.nextSequence s.2 ∧
      s.1.wal.nextSequence.toNat ≤ n + 1)

theorem drawnInOrder_step {n : Nat} {s t : SharedLog × List AppendCall}
    (h : DrawnInOrder X base n s) (good : FitsCurrent s op ∧ DrawOrder s op)
    (hs : appendSched X s op = some t) : DrawnInOrder X base (n + 1) t := by
  obtain ⟨s, calls⟩ := s
  obtain ⟨s', calls'⟩ := t
  obtain ⟨⟨pre, c, hu⟩, hseq⟩ := h
  obtain ⟨c', hu', hcases⟩ := unrotated_cases hu good.1 hs
  refine ⟨⟨pre, c', hu'⟩, fun hn => ?_⟩
  obtain ⟨hseq, hle⟩ := hseq (by omega)
  simp only at hseq hle ⊢
  rcases hcases with ⟨rfl, hdrawn⟩ | ⟨xs, call, call', ys, rfl, rfl,
    ⟨r, hw, hw', hr, rfl⟩ | ⟨k, r, rfl, hk, hw, hw', hnext, hacked⟩⟩
  · exact ⟨⟨hseq.sequenced, hdrawn ▸ hseq.below, hdrawn ▸ hseq.distinct, hdrawn ▸ hseq.ahead⟩,
      by omega⟩
  · have room : s.wal.nextSequence.toNat + 1 < 2 ^ 64 := by omega
    refine ⟨hseq.draw room hw hw' hr, ?_⟩
    change (s.wal.nextSequence + 1).toNat ≤ _
    rw [Wal.toNat_succ room]
    omega
  · rw [hnext]
    refine ⟨?_, by omega⟩
    rcases hacked with hacked | ⟨off, hacked⟩
    · rw [hacked]
      exact hseq.leave hw'
    · rw [hacked, ← List.append_assoc]
      exact hseq.write hw hw' (good.2 call hk r hw) off call.entry

end

/-- From any log that sequential calls have left, on every schedule without
rotation in which the segment lock is taken in the order of the numbers drawn,
the records are read back with strictly increasing sequence numbers. -/
theorem sequence_increases_along_offsets (X : Externals) {config : WalConfig} {w₀ w : Wal}
    {a : AppendLog} {ops₀ : List WalOp} (hopen : Wal.openDir X config ∅ = .ok w₀)
    (within : Meets (Wal.step X) Wal.Within (w₀, ⟨[], 0⟩) ops₀)
    (hrun₀ : run (Wal.step X) (w₀, ⟨[], 0⟩) ops₀ = some (w, a))
    {ops : List (Sched WalEntry)} {s : SharedLog × List AppendCall}
    (fits : Meets (appendSched X) FitsCurrent (⟨w, []⟩, []) ops)
    (inOrder : Meets (appendSched X) DrawOrder (⟨w, []⟩, []) ops)
    (hrun : run (appendSched X) (⟨w, []⟩, []) ops = some s)
    (calls : ops₀.length + ops.length + 1 < 2 ^ 64) :
    ∃ w' es, s.1.wal.readFrom X ⟨0⟩ none = some (w', .ok es) ∧
      es.Pairwise fun p q => p.1 < q.1 := by
  obtain ⟨old, pre, c, hagree, hseq⟩ := Wal.refines_run hopen within hrun₀
  have start : DrawnInOrder X (entries (pre ++ [c])) ops₀.length (⟨w, []⟩, []) := by
    refine ⟨⟨pre, c, hagree.repr, hagree.clean c (by simp), by simp, by simp⟩, fun hn => ?_⟩
    obtain ⟨hq, hle⟩ := hseq hn
    exact ⟨⟨by simpa using hq, by simp [drawn], by simp [drawn], by simp [drawn]⟩, hle⟩
  obtain ⟨⟨pre', c', hu⟩, hseq'⟩ := run_counts_of_meets
    (P := DrawnInOrder X (entries (pre ++ [c]))) (fun n s op t => drawnInOrder_step) start
    (fits.and inOrder) hrun
  obtain ⟨stats, hread⟩ := hu.repr.readFrom
  refine ⟨_, _, hread, ?_⟩
  rw [hu.entries]
  exact (hseq' (by omega)).1.sequenced.increasing

/-- Two calls draw their numbers one after the other and write in that order. -/
theorem sequence_increases_along_offsets_of_two :
    ∃ s, run (appendSched serde) (⟨Wal.fresh ⟨1000, .everyWrite⟩, []⟩, [])
        [.spawn (.checkpoint 1), .spawn (.checkpoint 2), .step 1, .step 0, .step 1, .step 0] =
        some s ∧ s.1.acked.length = 2 ∧
      ∃ w' es, s.1.wal.readFrom serde ⟨0⟩ none = some (w', .ok es) ∧
        es.Pairwise fun p q => p.1 < q.1 := by
  refine run_exists (p := fun s => s.1.acked.length = 2) (by decide +kernel) ?_
  intro s hrun hlen
  have within : Meets (Wal.step serde) Wal.Within (Wal.fresh ⟨1000, .everyWrite⟩, ⟨[], 0⟩) [] :=
    trivial
  exact ⟨hlen, sequence_increases_along_offsets serde
    (Wal.openDir_empty serde ⟨1000, .everyWrite⟩) within rfl (by decide +kernel)
    (by decide +kernel) hrun (by simp)⟩

/-- The call that drew its number second takes the segment lock first. -/
theorem lock_overtakes_draw :
    ∃ s, run (appendSched serde) (⟨Wal.fresh ⟨1000, .everyWrite⟩, []⟩, [])
        [.spawn (.checkpoint 1), .spawn (.checkpoint 2), .step 0, .step 1, .step 1, .step 0] =
        some s ∧
      ∃ w' es, s.1.wal.readFrom serde ⟨0⟩ none = some (w', .ok es) ∧ es.map (·.1) = [2, 1] := by
  refine run_exists (p := fun s => s.1.acked.map (·.1) = [2, 1]) (by decide +kernel) ?_
  intro s hrun hnumbers
  have start : ∃ (pre : List (Chunk serde)) (c : Chunk serde),
      Unrotated [] ⟨Wal.fresh ⟨1000, .everyWrite⟩, []⟩ [] pre c :=
    ⟨[], Chunk.empty serde 1, Wal.repr_fresh serde ⟨1000, .everyWrite⟩, rfl, rfl, by simp⟩
  obtain ⟨pre, c, h⟩ := run_keeps_of_meets
    (P := fun s => ∃ (pre : List (Chunk serde)) (c : Chunk serde), Unrotated [] s.1 s.2 pre c)
    (fun s op t => unrotated_step) start (by decide +kernel) hrun
  obtain ⟨stats, hread⟩ := h.repr.readFrom
  exact ⟨_, _, hread, by rw [h.entries]; exact hnumbers⟩

end Rstmdb
