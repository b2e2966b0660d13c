import Rstmdb.Server.Watchers

/-! A client that watches one instance. The reply has the offset that the instance had
when the request read it, and the subscription begins later: an event that is applied
and notified in between is in neither. -/
namespace Rstmdb
open Json (Value)

/-- The entries of events on the instance behind an offset. -/
def ServerThreads.later (s : ServerThreads) (id : String) (offset : Nat) : List ReadEntry :=
  s.appended.filter fun q => (appliedIn q).any fun ev => ev.instanceId = id && offset < ev.walOffset

section
variable {L : LogSteps}

/-- The request has read the instance, before an event with this offset, and has not
subscribed yet. -/
def RequestTask.misses (id : String) (offset : Nat) : RequestTask L → Bool
  | .sighted p i => p.instanceId = id && i.lastWalOffset < offset
  | _ => false

/-- An event is stored with an offset behind that of its instance, and is not notified
between the read and the subscription of a request that has not read it. -/
def gapless (s : ServerThreads × List (RequestTask L)) : WatchOp → Bool
  | .sched (.step k) =>
    match s.2[k]? with
    | some (.applying _ _ (.logged (.applyEvent _ i _) _ off)) => i.lastWalOffset < off.asU64
    | some (.applying p _ (.done (.ok (.applied a)))) =>
      s.2.all fun u => !u.misses p.instanceId a.walOffset
    | _ => true
  | _ => true

/-- The entry that the request has logged and is about to store. -/
def RequestTask.storing : RequestTask L → Option ReadEntry
  | .applying _ _ (.logged p seq off) => some (seq, off, p.entry)
  | _ => none

/-- A request is going to notify the watchers of the event in the entry. -/
def Owed (machine : String → Option (String × UInt32)) (ts : List (RequestTask L))
    (q : ReadEntry) : Prop :=
  ∃ t ∈ ts, ∃ e, t.owed = some e ∧ e.Tells machine q

/-- All that a client that watches the instance has to get is on its way. -/
def RequestTask.Sees (machine : String → Option (String × UInt32)) (id : String)
    (s : ServerThreads) (ts : List (RequestTask L)) : RequestTask L → Prop
  | .sighted p i => p.instanceId = id → ∀ q ∈ s.later id i.lastWalOffset, Owed machine ts q
  | .subscribed feed => feed.sub.receiver.channel = .global
  | .watching offset feed =>
    feed.sub.receiver.channel = .instance id → feed.sub.filter = none ∧
      (feed.sub.lagged = false → ∃ es, feed.Follows s.shared.broadcaster es ∧
        ∀ q ∈ s.later id offset, Owed machine ts q ∨ ∃ e ∈ es, e.Tells machine q)
  | _ => True

structure NoGap (machine : String → Option (String × UInt32)) (id : String) (s : ServerThreads)
    (ts : List (RequestTask L)) : Prop where
  serving : Serving machine s ts
  stored : ∀ q ∈ s.appended, ∀ ev, appliedIn q = some ev → ev.instanceId = id →
    (∃ t ∈ ts, t.storing = some q) ∨
      ∃ i, s.shared.engine.instances[id]? = some i ∧ ev.walOffset ≤ i.lastWalOffset
  seen : ∀ t ∈ ts, t.Sees machine id s ts

end

section
variable {X : ServerExternals} {L : LogSteps} {s s' : ServerThreads} {t t' : RequestTask L}
  {ts xs ys : List (RequestTask L)} {machine : String → Option (String × UInt32)} {id : String}

variable {offset : Nat} {q : ReadEntry} {ev : AppliedEvent}

theorem ServerThreads.mem_later :
    q ∈ s.later id offset ↔
      q ∈ s.appended ∧ ∃ ev, appliedIn q = some ev ∧ ev.instanceId = id ∧
        offset < ev.walOffset := by
  simp [later, Option.any_eq_true_iff_get, Option.eq_some_iff_get_eq]

/-- A request that stores an event holds the lock of its instance. -/
theorem Serving.holds_of_storing (h : Serving machine s ts) (ht : t ∈ ts) (hq : t.storing = some q)
    (hev : appliedIn q = some ev) : ∃ u, t.thread = some u ∧ u.holds = some ev.instanceId := by
  unfold RequestTask.storing at hq
  split at hq
  · rename_i p i pd seq off
    cases hq
    refine ⟨_, rfl, ?_⟩
    obtain ⟨hcall, -⟩ := h.own ht rfl pd rfl
    cases pd with
    | putMachine | createInstance | deleteInstance => cases hcall
    | applyEvent r j toState =>
      cases hcall
      cases hev
      rfl
  · cases hq

/-- While the lock of the instance is free, no request is about to store an event on it. -/
theorem NoGap.idle (h : NoGap machine id s ts) (free : id ∉ s.locks) :
    ∀ q ∈ s.appended, ∀ ev, appliedIn q = some ev → ev.instanceId = id →
      ∃ i, s.shared.engine.instances[id]? = some i ∧ ev.walOffset ≤ i.lastWalOffset := by
  intro q hq ev hev hid
  obtain ⟨t, ht, hstoring⟩ | hle := h.stored q hq ev hev hid
  · obtain ⟨u, hu, hholds⟩ := h.serving.holds_of_storing ht hstoring hev
    rw [hid] at hholds
    have hlocked := h.serving.locked.held u (List.mem_filterMap.mpr ⟨t, ht, hu⟩) id hholds
    exact absurd hlocked.1 free
  · exact hle

theorem Owed.replace (h : Owed machine (xs ++ t :: ys) q)
    (hmine : ∀ e, t.owed = some e → e.Tells machine q → Owed machine (xs ++ t' :: ys) q) :
    Owed machine (xs ++ t' :: ys) q := by
  obtain ⟨u, hu, e, howed, htells⟩ := h
  obtain rfl | hu := mem_replace hu
  · exact hmine e howed htells
  · exact ⟨u, mem_of_others t' hu, e, howed, htells⟩

theorem InstanceEvent.Tells.on {e : InstanceEvent} (h : e.Tells machine q)
    (hev : appliedIn q = some ev) : e.instanceId = ev.instanceId ∧ e.walOffset = ev.walOffset := by
  obtain rfl : e.applied = ev := Option.some.inj (h.1.symm.trans hev)
  exact ⟨rfl, rfl⟩

theorem NoGap.stored_of_same (h : NoGap machine id s (xs ++ t :: ys)) (s' : ServerThreads)
    (appended : s'.appended = s.appended)
    (instances : s'.shared.engine.instances = s.shared.engine.instances) (ht : t.storing = none) :
    ∀ q ∈ s'.appended, ∀ ev, appliedIn q = some ev → ev.instanceId = id →
      (∃ u ∈ xs ++ t' :: ys, u.storing = some q) ∨
        ∃ i, s'.shared.engine.instances[id]? = some i ∧ ev.walOffset ≤ i.lastWalOffset := by
  intro q hq ev hev hid
  rw [appended] at hq
  rw [instances]
  obtain ⟨u, hu, hstoring⟩ | hle := h.stored q hq ev hev hid
  · obtain rfl | hu := mem_replace hu
    · simp [ht] at hstoring
    · exact .inl ⟨u, mem_of_others t' hu, hstoring⟩
  · exact .inr hle

theorem NoGap.stored_stepped {p : ApplyEventParams} {i : Instance} {pc pc' : CallPc L.State}
    {e : ThreadedEngine} (h : NoGap machine id s (xs ++ .applying p i pc :: ys))
    (hn : (EngineCall.applyEvent p.request).next X.toCoreExternals L s.engine pc = some (e, pc'))
    (grows : ∀ r j toState seq off, pc = .logged (.applyEvent r j toState) seq off →
      j.lastWalOffset < off.asU64) :
    ∀ q ∈ (s.setEngine e).appended, ∀ ev, appliedIn q = some ev → ev.instanceId = id →
      (∃ u ∈ xs ++ .applying p i pc' :: ys, u.storing = some q) ∨
        ∃ j, e.engine.instances[id]? = some j ∧ ev.walOffset ≤ j.lastWalOffset := by
  have hidle (hpc : ∀ pd seq off, pc ≠ .logged pd seq off) :
      (RequestTask.applying p i pc).storing = none := by
    unfold RequestTask.storing
    split
    · rename_i heq
      cases heq
      exact absurd rfl (hpc _ _ _)
    · rfl
  cases eventEffect_of_next hn (h.serving.own (t := .applying p i pc) (by simp) rfl) with
  | quiet appended instances _ before =>
    exact h.stored_of_same (s.setEngine e) appended instances (hidle before)
  | replayed before same =>
    subst before same
    exact h.stored_of_same (s.setEngine s.engine) rfl rfl rfl
  | logged before present appended instances after =>
    subst before after
    intro q hq ev hev hid
    rw [ServerThreads.setEngine, appended] at hq
    obtain hq | hq := List.mem_append.mp hq
    · rw [instances]
      exact h.stored_of_same s rfl rfl rfl q hq ev hev hid
    · rw [List.mem_singleton.mp hq]
      exact .inl ⟨_, List.mem_append_right _ List.mem_cons_self, rfl⟩
  | @stored j toState seq off before present appended instances =>
    subst before
    intro q hq ev hev hid
    rw [ServerThreads.setEngine, appended] at hq
    by_cases hmine : id = p.instanceId
    · -- The lock is ours: all other events on the instance have been stored before.
      subst hmine
      right
      refine ⟨_, by rw [instances]; exact Std.ExtTreeMap.getElem?_insert_self, ?_⟩
      obtain ⟨u, hu, hstoring⟩ | ⟨j', hj', hle⟩ := h.stored q hq ev hev hid
      · obtain rfl | hu := mem_replace hu
        · cases hstoring
          cases hev
          exact le_refl _
        · obtain ⟨v, hv, hholds⟩ := h.serving.holds_of_storing (mem_of_others _ hu) hstoring hev
          have hlocked := h.serving.locked
          rw [thread_middle xs ys rfl] at hlocked
          rw [hid] at hholds
          refine absurd hholds (hlocked.others rfl v ?_)
          rw [← List.filterMap_append]
          exact List.mem_filterMap.mpr ⟨u, hu, hv⟩
      · obtain rfl : j = j' := Option.some.inj (present.symm.trans hj')
        exact hle.trans (grows _ _ _ _ _ rfl).le
    · rw [instances]
      have hne : id ≠ p.request.instanceId := hmine
      rw [Table.getElem?_insert_ne hne]
      obtain ⟨u, hu, hstoring⟩ | hle := h.stored q hq ev hev hid
      · obtain rfl | hu := mem_replace hu
        · cases hstoring
          cases hev
          exact absurd hid.symm hne
        · exact .inl ⟨u, mem_of_others _ hu, hstoring⟩
      · exact .inr hle

theorem Owed.moved (h : Owed machine (xs ++ t :: ys) q)
    (heff : RequestTask.Effect machine s s' t t') :
    Owed machine (xs ++ t' :: ys) q ∨
      ∃ p i a, t = .applying p i (.done (.ok (.applied a))) ∧ s' = s.notify (notification i p a) ∧
        (notification i p a).Tells machine q := by
  cases heff with
  | quiet _ owed =>
    left
    refine h.replace fun e he htells => ⟨t', ?_, e, owed.trans he, htells⟩
    exact List.mem_append_right _ List.mem_cons_self
  | replayed before =>
    subst before
    exact .inl (h.replace fun e he => by cases he)
  | logged before => exact .inl (h.replace fun e he => by simp [before] at he)
  | @told p i a flag before _ same =>
    subst before
    by_cases htells : (notification i p a).Tells machine q
    · exact .inr ⟨p, i, a, rfl, same, htells⟩
    · refine .inl (h.replace fun e he htells' => ?_)
      rw [owed_done flag] at he
      cases he
      exact absurd htells' htells

/-- An entry that is new is the one of an event that is owed. -/
theorem later_moved (heff : RequestTask.Effect machine s s' t t') (xs ys : List (RequestTask L))
    (hq : q ∈ s'.later id offset) : q ∈ s.later id offset ∨ Owed machine (xs ++ t' :: ys) q := by
  have hold (appended : s'.appended = s.appended) : q ∈ s.later id offset := by
    rwa [ServerThreads.later, ← appended]
  cases heff with
  | quiet appended => exact .inl (hold appended)
  | replayed _ same => exact .inl (same ▸ hq)
  | told _ _ _ same => exact .inl (hold (by rw [same]; rfl))
  | @logged e q' _ after appended tells =>
    obtain ⟨hmem, hev⟩ := ServerThreads.mem_later.mp hq
    rw [appended] at hmem
    obtain hmem | hmem := List.mem_append.mp hmem
    · exact .inl (ServerThreads.mem_later.mpr ⟨hmem, hev⟩)
    · rw [List.mem_singleton.mp hmem]
      exact .inr ⟨t', List.mem_append_right _ List.mem_cons_self, e, after, tells⟩

/-- What the other requests see, when an event that is notified is one that they have
read or will be sent. -/
theorem RequestTask.Sees.moved {u : RequestTask L} (h : u.Sees machine id s (xs ++ t :: ys))
    (heff : RequestTask.Effect machine s s' t t')
    (unmissed : ∀ p i a, t = .applying p i (.done (.ok (.applied a))) →
      u.misses p.instanceId a.walOffset = false) :
    u.Sees machine id s' (xs ++ t' :: ys) := by
  cases u with
  | applyEvent | applying | notified | watchInstance | watchAll | failed => trivial
  | subscribed => exact h
  | sighted w j =>
    intro hid q hq
    obtain hq | howed := later_moved heff xs ys hq
    · obtain howed | ⟨p, i, a, ht, -, htells⟩ := (h hid q hq).moved heff
      · exact howed
      · obtain ⟨-, ev, hev, hon, hlt⟩ := ServerThreads.mem_later.mp hq
        obtain ⟨hsame, hoff⟩ := htells.on hev
        have hmine : w.instanceId = p.instanceId := hid.trans (hon.symm.trans hsame.symm)
        have hbehind : j.lastWalOffset < a.walOffset := lt_of_lt_of_eq hlt hoff.symm
        have hmiss := unmissed p i a ht
        simp [misses, hmine, hbehind] at hmiss
    · exact howed
  | watching offset feed =>
    intro hch
    obtain ⟨hfilter, hfollows⟩ := h hch
    refine ⟨hfilter, fun hlag => ?_⟩
    obtain ⟨es, hes, hall⟩ := hfollows hlag
    by_cases htold : ∃ p i a, t = .applying p i (.done (.ok (.applied a))) ∧
        s' = s.notify (notification i p a)
    · obtain ⟨p, i, a, rfl, rfl⟩ := htold
      refine ⟨_, hes.notify (notification i p a), fun q hq => ?_⟩
      obtain howed | ⟨f, hf, htells⟩ := hall q hq
      · obtain howed | ⟨p', i', a', ht, -, htells⟩ := howed.moved heff
        · exact .inl howed
        · cases ht
          obtain ⟨-, ev, hev, hon, -⟩ := ServerThreads.mem_later.mp hq
          refine .inr ⟨notification i p a, ?_, htells⟩
          simp [hch, ChannelId.carried, eventsOn, (htells.on hev).1, hon]
      · exact .inr ⟨f, List.mem_append_left _ hf, htells⟩
    · have hkept : feed.Follows s'.shared.broadcaster es := by
        cases heff with
        | quiet _ _ kept => exact kept feed es hes
        | replayed _ same | logged _ _ _ _ same => exact same ▸ hes
        | told _ before _ same => exact absurd ⟨_, _, _, before, same⟩ htold
      refine ⟨es, hkept, fun q hq => ?_⟩
      obtain hq | howed := later_moved heff xs ys hq
      · refine (hall q hq).imp_left fun howed => ?_
        obtain howed | ⟨p, i, a, ht, same, -⟩ := howed.moved heff
        · exact howed
        · exact absurd ⟨p, i, a, ht, same⟩ htold
      · exact .inl howed

theorem NoGap.sees_mover (h : NoGap machine id s (xs ++ t :: ys)) (hm : t.Moved X L s s' t') :
    t'.Sees machine id s' (xs ++ t' :: ys) := by
  have hseen : t.Sees machine id s (xs ++ t :: ys) := h.seen t (by simp)
  have hquiet {q : ReadEntry} (hq : Owed machine (xs ++ t :: ys) q) (hnone : t.owed = none) :
      Owed machine (xs ++ t' :: ys) q := hq.replace fun e he => by simp [hnone] at he
  cases hm with
  | refused | found | stepped | told => trivial
  | @sighted params p i present free =>
    -- Nobody stores: all entries on the instance are in what is read.
    rintro rfl q hq
    obtain ⟨hmem, ev, hev, hid, hlt⟩ := ServerThreads.mem_later.mp hq
    obtain ⟨j, hj, hle⟩ := h.idle free q hmem ev hev hid
    obtain rfl : i = j := Option.some.inj (present.symm.trans hj)
    omega
  | @joined p i b sid kind hb hkind =>
    subst hkind
    intro hch
    obtain rfl : p.instanceId = id := ChannelId.instance.inj hch
    refine ⟨rfl, fun _ => ⟨[], Feed.follows_start b sid _, fun q hq => .inl ?_⟩⟩
    exact hquiet (hseen rfl q hq) rfl
  | joinedAll _ hkind =>
    subst hkind
    rfl
  | @headRead feed latest hl =>
    intro hch
    have hglobal : feed.sub.receiver.channel = .global := hseen
    rw [hglobal] at hch
    cases hch
  | @fed offset feed feed' b hb hn =>
    intro hch
    have hadv := Feed.advanced_of_next hn
    obtain ⟨hfilter, hfollows⟩ := hseen (hadv.channel ▸ hch)
    refine ⟨hadv.filter.trans hfilter, fun hlag => ?_⟩
    obtain ⟨es, hes, hall⟩ := hfollows (hadv.lagged hlag)
    exact ⟨es, hes.fed hb hn hlag, fun q hq => (hall q hq).imp_left fun howed => hquiet howed rfl⟩
  | @wrote offset feed feed' hw =>
    intro hch
    have hsub := Feed.sub_write hw
    have hadv := Feed.advanced_of_sub hsub
    obtain ⟨hfilter, hfollows⟩ := hseen (hadv.channel ▸ hch)
    refine ⟨hadv.filter.trans hfilter, fun hlag => ?_⟩
    obtain ⟨es, hes, hall⟩ := hfollows (hadv.lagged hlag)
    exact ⟨es, hes.of_sub hsub, fun q hq => (hall q hq).imp_left fun howed => hquiet howed rfl⟩

theorem NoGap.spawned (h : NoGap machine id s ts) (start : RequestStart) :
    NoGap machine id s (ts ++ [start.task L]) := by
  have howed {q : ReadEntry} (hq : Owed machine ts q) : Owed machine (ts ++ [start.task L]) q := by
    obtain ⟨t, ht, hrest⟩ := hq
    exact ⟨t, List.mem_append_left _ ht, hrest⟩
  refine ⟨h.serving.spawned start, fun q hq ev hev hid => ?_, fun t ht => ?_⟩
  · refine (h.stored q hq ev hev hid).imp_left ?_
    rintro ⟨t, ht, hstoring⟩
    exact ⟨t, List.mem_append_left _ ht, hstoring⟩
  · obtain ht | ht := List.mem_append.mp ht
    · have hseen := h.seen t ht
      cases t with
      | applyEvent | applying | notified | watchInstance | watchAll | failed => trivial
      | subscribed => exact hseen
      | sighted => exact fun hid q hq => howed (hseen hid q hq)
      | watching =>
        intro hch
        refine ⟨(hseen hch).1, fun hlag => ?_⟩
        obtain ⟨es, hes, hall⟩ := (hseen hch).2 hlag
        exact ⟨es, hes, fun q hq => (hall q hq).imp_left howed⟩
    · rw [List.mem_singleton.mp ht]
      cases start <;> trivial

theorem NoGap.moved (h : NoGap machine id s (xs ++ t :: ys)) (hm : t.Moved X L s s' t')
    (grows : ∀ p i r j toState seq off,
      t = .applying p i (.logged (.applyEvent r j toState) seq off) → j.lastWalOffset < off.asU64)
    (unmissed : ∀ p i a, t = .applying p i (.done (.ok (.applied a))) →
      ∀ u ∈ xs ++ t :: ys, u.misses p.instanceId a.walOffset = false) :
    NoGap machine id s' (xs ++ t' :: ys) := by
  have heff := h.serving.effect (t := t) (by simp) hm
  refine ⟨h.serving.moved hm, ?_, ?_⟩
  · cases hm with
    | refused early =>
      refine h.stored_of_same _ rfl rfl ?_
      cases t with
      | applying => cases early
      | _ => rfl
    | stepped hn =>
      exact h.stored_stepped hn fun r j toState seq off hpc =>
        grows _ _ r j toState seq off (by rw [hpc])
    | found | told | sighted | joined | joinedAll | headRead | fed | wrote =>
      exact h.stored_of_same _ rfl rfl rfl
  · intro u hu
    obtain rfl | hu := mem_replace hu
    · exact h.sees_mover hm
    · exact (h.seen u (mem_of_others t hu)).moved heff fun p i a ht =>
        unmissed p i a ht u (mem_of_others t hu)

theorem NoGap.step {op : WatchOp} {ts' : List (RequestTask L)} (h : NoGap machine id s ts)
    (hop : gapless (s, ts) op = true) (hs : watchStep X L (s, ts) op = some (s', ts')) :
    NoGap machine id s' ts' := by
  obtain ⟨start, -, rfl, rfl⟩ | ⟨xs, t, t', ys, rfl, hm, rfl, hk⟩ := watchStep_cases hs
  · exact h.spawned start
  · refine h.moved hm ?_ ?_
    · rintro p i r j toState seq off rfl
      obtain ⟨k, rfl, hk⟩ | ⟨offset, feed, ht⟩ := hk
      · simpa [gapless, hk] using hop
      · cases ht
    · rintro p i a rfl
      obtain ⟨k, rfl, hk⟩ | ⟨offset, feed, ht⟩ := hk
      · simp only [gapless, hk, List.all_eq_true, Bool.not_eq_true'] at hop
        exact hop
      · cases ht

/-- On every schedule of requests, from any state of the server, in which events are
stored with growing offsets and none is notified between the read and the subscription
of a request to watch its instance that has not read it: each event on the instance
with an offset greater than the one in the reply to such a request is still to be
notified, or it has been or will be taken by the subscription as long as that does not
lag, and has been written to the client when nothing is on the way any more. -/
theorem watch_instance_no_gap {s₀ : Shared} {ops : List WatchOp}
    {t : ServerThreads × List (RequestTask L)}
    (hops : Meets (watchStep X L) (fun s op => gapless s op = true) (⟨s₀, [], []⟩, []) ops)
    (hrun : run (watchStep X L) (⟨s₀, [], []⟩, []) ops = some t) {offset : Nat} {feed : Feed}
    (hfeed : .watching offset feed ∈ t.2) (hch : feed.sub.receiver.channel = .instance id)
    (hlag : feed.sub.lagged = false) {q : ReadEntry} (hq : q ∈ t.1.appended) {ev : AppliedEvent}
    (hev : appliedIn q = some ev) (hid : ev.instanceId = id) (hlater : offset < ev.walOffset) :
    (∃ u ∈ t.2, ∃ e, u.owed = some e ∧ e.applied = ev) ∨
      ∃ b e, t.1.shared.broadcaster = some b ∧ e ∈ feed.sub.due b ∧ e.applied = ev ∧
        (feed.rests b = true → e ∈ feed.written) := by
  have start : NoGap (L := L) s₀.engine.machineOf id ⟨s₀, [], []⟩ [] :=
    ⟨.start s₀ L, by simp, by simp⟩
  have h : NoGap s₀.engine.machineOf id t.1 t.2 := run_keeps_of_meets
    (P := fun t => NoGap s₀.engine.machineOf id t.1 t.2)
    (fun _ _ _ h hop hs => h.step hop hs) start hops hrun
  obtain ⟨hfilter, hfollows⟩ := h.seen _ hfeed hch
  obtain ⟨es, hes, hall⟩ := hfollows hlag
  obtain ⟨u, hu, e, howed, htells⟩ | ⟨e, he, htells⟩ :=
    hall q (ServerThreads.mem_later.mpr ⟨hq, ev, hev, hid, hlater⟩)
  · exact .inl ⟨u, hu, e, howed, Option.some.inj (htells.1.symm.trans hev)⟩
  · have happlied : e.applied = ev := Option.some.inj (htells.1.symm.trans hev)
    have hplace := hes
    obtain ⟨b, hb, -, -, hdue⟩ := hplace
    refine .inr ⟨b, e, hb, hdue ▸ he, happlied, fun hrest => ?_⟩
    rw [hb] at hes
    rw [hes.written hrest, hfilter]
    simpa using he

end

/-- A request to watch `i` reads it, and an event on `i` arrives; then these steps. -/
def watchedLoop (steps : List WatchOp) : List WatchOp :=
  [.sched (.spawn (.watchInstance (.object [("instance_id", .string "i")]))), .sched (.step 0),
    .sched (.spawn (.applyEvent (applyLoop "i" .null).params))] ++ steps

/-- The event is applied and notified. -/
def applySteps : List WatchOp := List.replicate 10 (.sched (.step 1))

/-- The request subscribes, the event is notified, taken, sent and written. -/
def watchedInTurn : List WatchOp :=
  watchedLoop (.sched (.step 0) :: applySteps ++ [.sched (.step 0), .sched (.step 0), .write 0])

/-- The subscription of the first request, and the only entry. -/
def watchedView {L : LogSteps} (t : ServerThreads × List (RequestTask L)) :
    Option (Nat × Feed × ReadEntry) :=
  match t.2, t.1.appended with
  | .watching offset feed :: _, [q] => some (offset, feed, q)
  | _, _ => none

/-- The entry is of an event on `i` behind the offset in the reply, and everything has
been notified and written. -/
def settledWatch {L : LogSteps} (t : ServerThreads × List (RequestTask L))
    (a : Nat × Feed × ReadEntry) : Bool :=
  a.2.1.sub.receiver.channel = .instance "i" && !a.2.1.sub.lagged &&
    (appliedIn a.2.2).any (fun ev => ev.instanceId = "i" && a.1 < ev.walOffset) &&
    t.2.all (fun u => u.owed.isNone) && t.1.shared.broadcaster.all a.2.1.rests

theorem settled_watch {L : LogSteps} {t : ServerThreads × List (RequestTask L)} {offset : Nat}
    {feed : Feed} {q : ReadEntry} (hview : watchedView t = some (offset, feed, q))
    (h : settledWatch t (offset, feed, q) = true) :
    .watching offset feed ∈ t.2 ∧ feed.sub.receiver.channel = .instance "i" ∧
      feed.sub.lagged = false ∧ q ∈ t.1.appended ∧
      (∃ ev, appliedIn q = some ev ∧ ev.instanceId = "i" ∧ offset < ev.walOffset) ∧
      (∀ u ∈ t.2, u.owed = none) ∧ ∀ b, t.1.shared.broadcaster = some b → feed.rests b = true := by
  unfold watchedView at hview
  split at hview
  · rename_i o f rest q' hts happ
    cases hview
    simp only [settledWatch, Bool.and_eq_true, decide_eq_true_eq, Bool.not_eq_true',
      List.all_eq_true, Option.isNone_iff_eq_none, Option.all_eq_true, Option.any_eq_true] at h
    obtain ⟨⟨⟨⟨hch, hlag⟩, ev, hev, hid, hlt⟩, howed⟩, hrest⟩ := h
    exact ⟨by simp [hts], hch, hlag, by simp [happ], ⟨ev, hev, hid, hlt⟩, howed, hrest⟩
  · cases hview

set_option maxRecDepth 4000 in
/-- The event comes after the subscription. -/
theorem watch_instance_no_gap_in_turn :
    ∃ server, run (Server.step serdeServer) (.fresh (openConfig 1000)) loopServer = some server ∧
      ∃ t, run (watchStep serdeServer (steppedAppend serdeServer.toExternals))
          (⟨server.shared, [], []⟩, []) watchedInTurn = some t ∧
        ∃ offset feed, .watching offset feed ∈ t.2 ∧ ∃ q ∈ t.1.appended, ∃ ev,
          appliedIn q = some ev ∧ offset < ev.walOffset ∧ ∃ e ∈ feed.written, e.applied = ev := by
  refine run_exists (p := fun server =>
    Meets (watchStep serdeServer (steppedAppend serdeServer.toExternals))
      (fun s op => gapless s op = true) (⟨server.shared, [], []⟩, []) watchedInTurn ∧
    (run (watchStep serdeServer (steppedAppend serdeServer.toExternals))
      (⟨server.shared, [], []⟩, []) watchedInTurn).any (fun t =>
          (watchedView t).any fun a => decide (settledWatch t a = true)) = true)
    (by decide +kernel) ?_
  rintro server - ⟨hops, hend⟩
  obtain ⟨t, hrun, ⟨offset, feed, q⟩, hview, hsettled⟩ := run_finds hend
  obtain ⟨hfeed, hch, hlag, hq, ⟨ev, hev, hid, hlt⟩, howed, hrest⟩ :=
    settled_watch hview hsettled
  refine ⟨t, hrun, offset, feed, hfeed, q, hq, ev, hev, hlt, ?_⟩
  obtain ⟨u, hu, e, he, -⟩ | ⟨b, e, hb, -, happlied, hwritten⟩ :=
    watch_instance_no_gap hops hrun hfeed hch hlag hq hev hid hlt
  · simp [howed u hu] at he
  · exact ⟨e, hwritten (hrest b hb), happlied⟩

set_option maxRecDepth 4000 in
/-- The event is applied and notified when the request has read the instance and has
not subscribed yet: it is behind the offset in the reply and is never sent. -/
theorem watch_instance_gap :
    ∃ server, run (Server.step serdeServer) (.fresh (openConfig 1000)) loopServer = some server ∧
      ∃ t, run (watchStep serdeServer (steppedAppend serdeServer.toExternals))
          (⟨server.shared, [], []⟩, []) (watchedLoop (applySteps ++ [.sched (.step 0)])) = some t ∧
        ∃ offset feed, .watching offset feed ∈ t.2 ∧
          feed.sub.receiver.channel = .instance "i" ∧ feed.sub.lagged = false ∧
          (∃ q ∈ t.1.appended, ∃ ev, appliedIn q = some ev ∧ ev.instanceId = "i" ∧
            offset < ev.walOffset) ∧
          (∀ u ∈ t.2, u.owed = none) ∧
          ∀ b, t.1.shared.broadcaster = some b → feed.rests b = true ∧ feed.sub.due b = [] := by
  refine run_exists (p := fun server =>
    (run (watchStep serdeServer (steppedAppend serdeServer.toExternals))
      (⟨server.shared, [], []⟩, []) (watchedLoop (applySteps ++ [.sched (.step 0)]))).any (fun t =>
          (watchedView t).any fun a => decide (settledWatch t a = true ∧
            a.2.1.sub.received.length = 0)) = true)
    (by decide +kernel) ?_
  rintro server - hend
  obtain ⟨t, hrun, ⟨offset, feed, q⟩, hview, hsettled, hnone⟩ := run_finds hend
  obtain ⟨hfeed, hch, hlag, hq, ⟨ev, hev, hid, hlt⟩, howed, hrest⟩ :=
    settled_watch hview hsettled
  refine ⟨t, hrun, offset, feed, hfeed, hch, hlag, ⟨q, hq, ev, hev, hid, hlt⟩, howed,
    fun b hb => ?_⟩
  refine ⟨hrest b hb, ?_⟩
  have hend := hrest b hb
  simp only [Feed.rests, Bool.and_eq_true, decide_eq_true_eq] at hend
  rw [Subscriber.due, List.eq_nil_of_length_eq_zero hnone, List.nil_append,
    List.drop_eq_nil_of_le hend.2]

end Rstmdb
