import Rstmdb.Server.Watchers

/-! A client that watches everything. The subscription is made before the head of the
log is read, so an event behind that head is notified to a subscription that is there. -/
namespace Rstmdb
open Json (Value)

/-! ## The log of the requests -/

section
variable {X : ServerExternals} {s s' : ServerThreads} {old : List ReadEntry}
  {t t' : RequestTask (wholeAppend X.toExternals)}
  {ts xs ys : List (RequestTask (wholeAppend X.toExternals))}

theorem LogHolds.moved
    (h : LogHolds (X := X.toCoreExternals) old s.engine
      ((xs ++ t :: ys).filterMap RequestTask.thread))
    (hm : t.Moved X (wholeAppend X.toExternals) s s' t') :
    LogHolds (X := X.toCoreExternals) old s'.engine
      ((xs ++ t' :: ys).filterMap RequestTask.thread) := by
  have idle (hthread : t'.thread = t.thread) (hengine : s'.engine = s.engine) :
      LogHolds (X := X.toCoreExternals) old s'.engine
        ((xs ++ t' :: ys).filterMap RequestTask.thread) := by
    rw [thread_same xs ys hthread, hengine]
    exact h
  cases hm with
  | refused early => exact idle early.symm rfl
  | @found params p i present free =>
    refine ⟨h.log, fun u hu pd l hl => ?_⟩
    rw [← (thread_begun xs ys (t := .applyEvent params) rfl rfl).mem_iff] at hu
    obtain hu | hu := List.mem_append.mp hu
    · exact h.plans u hu pd l hl
    · rw [List.mem_singleton.mp hu] at hl
      cases hl
  | @stepped p i pc pc' e hn =>
    rw [thread_middle xs ys rfl] at h ⊢
    refine @LogHolds.step _ _ _ _ _ _ (.step (xs.filterMap RequestTask.thread).length) h ?_
    simp only [engineSched, interleave, EngineThread.next, List.getElem?_append_right (le_refl _),
      Nat.sub_self, List.getElem?_cons_zero, hn, Option.map_some,
      List.set_append_right _ _ (le_refl _)]
    rfl
  | told | sighted | joined | joinedAll | headRead | fed | wrote => exact idle rfl rfl

/-- The offsets of the entries grow, as long as the ids of the segments fit in them. -/
theorem increasing_moved
    (h : LogHolds (X := X.toCoreExternals) old s.engine
      ((xs ++ t :: ys).filterMap RequestTask.thread))
    (low : s.shared.engine.wal.nextId < 2 ^ 24)
    (hinc : s.appended.Pairwise fun p q => p.2.1.asU64 < q.2.1.asU64)
    (hm : t.Moved X (wholeAppend X.toExternals) s s' t') :
    s'.appended.Pairwise fun p q => p.2.1.asU64 < q.2.1.asU64 := by
  cases hm with
  | refused | found | told | sighted | joined | joinedAll | headRead | fed | wrote => exact hinc
  | @stepped p i pc pc' e hn =>
    have same (happ : e.appended = s.appended) :
        e.appended.Pairwise fun p q => p.2.1.asU64 < q.2.1.asU64 := happ ▸ hinc
    obtain ⟨-, happ⟩ | ⟨pd, l, l', -, -, happ⟩ | ⟨pd, l, r, rfl, hnext, happ⟩ :=
      (stepped_of_next hn).wal
    · exact same happ
    · exact same happ
    · obtain ⟨r', ha, hout⟩ := wholeAppend_next hnext
      cases hout
      obtain ⟨pre, c, hr, hc, he⟩ := h.log
      obtain ⟨pre', c', hr', -, hgrown⟩ := hr.append_clean hc ha
      have hall := entries_increasing hr'.holds.ascending (hr.append_low low ha hr')
      obtain rfl : l = pd.entry :=
        h.plans ⟨.applyEvent p.request, .logging pd l⟩
          (by rw [thread_middle xs ys rfl]; simp) pd l rfl
      have hentries : entries (pre' ++ [c']) = old ++ e.appended := by
        rw [he] at hgrown
        cases r with
        | error => rw [hgrown, happ]
        | ok q => rw [hgrown, happ, List.append_assoc]
      rw [hentries] at hall
      exact hall.sublist (List.sublist_append_right old e.appended)

end

/-! ## What the subscriptions get -/

/-- A subscription to everything gets the end of what has been told, and what it does
not get lies before the head that its reply has. -/
def RequestTask.Streams {L : LogSteps} (old : List ReadEntry) (told : List InstanceEvent)
    (o : Option EventBroadcaster) : RequestTask L → Prop
  | .subscribed feed =>
    feed.sub.receiver.channel = .global ∧ ∃ es, feed.Follows o es ∧ es <:+ told
  | .watching head feed => feed.sub.receiver.channel = .global →
    (∀ q ∈ old, q.2.1.asU64 < head) ∧ (feed.sub.lagged = false →
      ∃ es, feed.Follows o es ∧ es <:+ told ∧ ∀ e ∈ told, e ∈ es ∨ e.walOffset < head)
  | _ => True

/-- The entries are those of these events, each once. -/
def Accounted (machine : String → Option (String × UInt32)) (entries : List ReadEntry)
    (events : List InstanceEvent) : Prop :=
  ∃ es : List InstanceEvent, entries.map appliedIn = es.map (fun e => some e.applied) ∧
    (∀ e ∈ es, machine e.instanceId = some (e.machine, e.version)) ∧ events.Perm es

/-- What holds along every run in which no call is answered from the cache. The entries
are those of the events that have been told and of those that are owed. -/
structure Streaming {X : ServerExternals} (machine : String → Option (String × UInt32))
    (old : List ReadEntry) (s : ServerThreads)
    (ts : List (RequestTask (wholeAppend X.toExternals))) (told : List InstanceEvent) : Prop where
  serving : Serving machine s ts
  log : LogHolds (X := X.toCoreExternals) old s.engine (ts.filterMap RequestTask.thread)
  increasing : s.appended.Pairwise fun p q => p.2.1.asU64 < q.2.1.asU64
  accounted : Accounted machine s.appended (told ++ ts.filterMap RequestTask.owed)
  streams : ∀ t ∈ ts, t.Streams old told s.shared.broadcaster

/-- The next segment id fits in an offset, and no call is answered from the cache with
an event that was applied. -/
def unrepeated {L : LogSteps} (s : ServerThreads × List (RequestTask L)) (op : WatchOp) : Bool :=
  s.1.shared.engine.wal.nextId < 2 ^ 24 &&
    match op with
    | .sched (.step k) =>
      match s.2[k]? with
      | some (.applying p _ .started) =>
        (s.1.shared.engine.cachedResult p.instanceId p.idempotencyKey).all fun a => !a.applied
      | _ => true
    | _ => true

section
variable {X : ServerExternals} {s s' : ServerThreads} {old : List ReadEntry}
  {told told' : List InstanceEvent} {machine : String → Option (String × UInt32)}
  {t t' : RequestTask (wholeAppend X.toExternals)}
  {ts xs ys : List (RequestTask (wholeAppend X.toExternals))}

section
variable {entries : List ReadEntry} {events events' : List InstanceEvent}

theorem Accounted.perm (h : Accounted machine entries events) (hp : events'.Perm events) :
    Accounted machine entries events' := by
  obtain ⟨es, hes, hmachine, hperm⟩ := h
  exact ⟨es, hes, hmachine, hp.trans hperm⟩

variable {e : InstanceEvent} {q : ReadEntry} {ev : AppliedEvent}

theorem Accounted.snoc (h : Accounted machine entries events) (htells : e.Tells machine q) :
    Accounted machine (entries ++ [q]) (events ++ [e]) := by
  obtain ⟨es, hes, hmachine, hperm⟩ := h
  refine ⟨es ++ [e], ?_, ?_, hperm.append_right [e]⟩
  · rw [List.map_append, List.map_append, hes, List.map_singleton, List.map_singleton, htells.1]
  · simp only [List.mem_append, List.mem_singleton]
    rintro f (hf | rfl)
    · exact hmachine f hf
    · exact htells.2

/-- Every event is in the log. -/
theorem Accounted.logged (h : Accounted machine entries events) (he : e ∈ events) :
    ∃ q ∈ entries, e.Tells machine q := by
  obtain ⟨es, hes, hmachine, hperm⟩ := h
  have hmem : some e.applied ∈ entries.map appliedIn := by
    rw [hes]
    exact List.mem_map_of_mem (hperm.mem_iff.mp he)
  obtain ⟨q, hq, hev⟩ := List.mem_map.mp hmem
  exact ⟨q, hq, hev, hmachine e (hperm.mem_iff.mp he)⟩

theorem Accounted.event (h : Accounted machine entries events) (hq : q ∈ entries)
    (hev : appliedIn q = some ev) :
    ∃ e ∈ events, e.applied = ev ∧ machine e.instanceId = some (e.machine, e.version) := by
  obtain ⟨es, hes, hmachine, hperm⟩ := h
  have hmem : some ev ∈ es.map (fun e => some e.applied) := by
    rw [← hes, ← hev]
    exact List.mem_map_of_mem hq
  obtain ⟨e, he, happlied⟩ := List.mem_map.mp hmem
  exact ⟨e, hperm.mem_iff.mpr he, Option.some.inj happlied, hmachine e he⟩

theorem appliedIn_walOffset (h : appliedIn q = some ev) : q.2.1.asU64 = ev.walOffset := by
  obtain ⟨seq, off, entry⟩ := q
  cases entry with
  | applyEvent =>
    cases h
    rfl
  | _ => cases h

theorem Accounted.nodup (h : Accounted machine entries events)
    (hinc : entries.Pairwise fun p q => p.2.1.asU64 < q.2.1.asU64) :
    (events.map InstanceEvent.walOffset).Nodup := by
  obtain ⟨es, hes, -, hperm⟩ := h
  have hall : (entries.map appliedIn).Pairwise fun a b =>
      ∀ x ∈ a, ∀ y ∈ b, x.walOffset < y.walOffset := by
    refine List.pairwise_map.mpr (hinc.imp fun {p q} hlt x hx y hy => ?_)
    rw [← appliedIn_walOffset hx, ← appliedIn_walOffset hy]
    exact hlt
  rw [hes, List.pairwise_map] at hall
  refine (hperm.map _).nodup_iff.mpr (List.Pairwise.map _ ?_ hall)
  exact fun e f hlt => (hlt _ rfl _ rfl).ne

end

theorem Streaming.told_lt_head (h : Streaming machine old s ts told)
    (low : s.shared.engine.wal.nextId < 2 ^ 24) {latest : Option WalOffset}
    (hl : s.shared.engine.wal.latestOffset = some latest) :
    (∀ q ∈ old, q.2.1.asU64 < (latest.map WalOffset.asU64).getD 0) ∧
      ∀ e ∈ told, e.walOffset < (latest.map WalOffset.asU64).getD 0 := by
  obtain ⟨pre, c, hr, -, he⟩ := h.log.log
  have hall : ∀ q ∈ old ++ s.appended, q.2.1.asU64 < (latest.map WalOffset.asU64).getD 0 :=
    fun q hq => hr.entries_lt_head low hl (he ▸ hq)
  refine ⟨fun q hq => hall q (List.mem_append_left _ hq), fun e hmem => ?_⟩
  obtain ⟨q, hq, htells⟩ := h.accounted.logged (List.mem_append_left _ hmem)
  have hoff : q.2.1.asU64 = e.walOffset := appliedIn_walOffset htells.1
  rw [← hoff]
  exact hall q (List.mem_append_right _ hq)

variable {o : Option EventBroadcaster} {u : RequestTask (wholeAppend X.toExternals)}

theorem RequestTask.Streams.notify (h : u.Streams old told o) (e : InstanceEvent) :
    u.Streams old (told ++ [e]) (o.map (·.notify e)) := by
  have grown {es : List InstanceEvent} (hes : es <:+ told) : es ++ [e] <:+ told ++ [e] := by
    obtain ⟨front, rfl⟩ := hes
    exact ⟨front, by simp⟩
  cases u with
  | applyEvent | applying | notified | watchInstance | sighted | watchAll | failed => trivial
  | subscribed feed =>
    obtain ⟨hch, es, hes, hsuffix⟩ := h
    have hnew := hes.notify e
    rw [hch] at hnew
    exact ⟨hch, es ++ [e], hnew, grown hsuffix⟩
  | watching head feed =>
    intro hch
    obtain ⟨hold, hfollows⟩ := h hch
    refine ⟨hold, fun hlag => ?_⟩
    obtain ⟨es, hes, hsuffix, hall⟩ := hfollows hlag
    have hnew := hes.notify e
    rw [hch] at hnew
    refine ⟨es ++ [e], hnew, grown hsuffix, fun f hf => ?_⟩
    obtain hf | hf := List.mem_append.mp hf
    · exact (hall f hf).imp_left fun hmem => List.mem_append_left _ hmem
    · exact .inl (List.mem_append_right _ hf)

theorem RequestTask.Streams.kept {o' : Option EventBroadcaster} (h : u.Streams old told o)
    (kept : ∀ feed es, Feed.Follows feed o es → feed.Follows o' es) : u.Streams old told o' := by
  cases u with
  | applyEvent | applying | notified | watchInstance | sighted | watchAll | failed => trivial
  | subscribed feed =>
    obtain ⟨hch, es, hes, hsuffix⟩ := h
    exact ⟨hch, es, kept feed es hes, hsuffix⟩
  | watching head feed =>
    intro hch
    obtain ⟨hold, hfollows⟩ := h hch
    refine ⟨hold, fun hlag => ?_⟩
    obtain ⟨es, hes, hrest⟩ := hfollows hlag
    exact ⟨es, kept feed es hes, hrest⟩

theorem Streaming.streams_mover (h : Streaming machine old s (xs ++ t :: ys) told)
    (low : s.shared.engine.wal.nextId < 2 ^ 24)
    (hm : t.Moved X (wholeAppend X.toExternals) s s' t') :
    t'.Streams old told s'.shared.broadcaster := by
  have hmine : t.Streams old told s.shared.broadcaster := h.streams t (by simp)
  cases hm with
  | refused | found | stepped | told | sighted => trivial
  | joined _ hkind =>
    subst hkind
    intro hch
    cases hch
  | joinedAll _ hkind =>
    subst hkind
    exact ⟨rfl, [], Feed.follows_start _ _ _, List.nil_suffix⟩
  | @headRead feed latest hl =>
    obtain ⟨-, es, hes, hsuffix⟩ := hmine
    obtain ⟨hold, htold⟩ := h.told_lt_head low hl
    exact fun _ => ⟨hold, fun _ => ⟨es, hes, hsuffix, fun e he => .inr (htold e he)⟩⟩
  | @fed head feed feed' b hb hn =>
    intro hch
    have hadv := Feed.advanced_of_next hn
    obtain ⟨hold, hfollows⟩ := hmine (hadv.channel ▸ hch)
    refine ⟨hold, fun hlag => ?_⟩
    obtain ⟨es, hes, hrest⟩ := hfollows (hadv.lagged hlag)
    exact ⟨es, hes.fed hb hn hlag, hrest⟩
  | @wrote head feed feed' hw =>
    intro hch
    have hsub := Feed.sub_write hw
    have hadv := Feed.advanced_of_sub hsub
    obtain ⟨hold, hfollows⟩ := hmine (hadv.channel ▸ hch)
    refine ⟨hold, fun hlag => ?_⟩
    obtain ⟨es, hes, hrest⟩ := hfollows (hadv.lagged hlag)
    exact ⟨es, hes.of_sub hsub, hrest⟩

theorem Streaming.spawned (h : Streaming machine old s ts told) (start : RequestStart) :
    Streaming machine old s (ts ++ [start.task (wholeAppend X.toExternals)]) told := by
  have hthread : (start.task (wholeAppend X.toExternals)).thread = none := by cases start <;> rfl
  have howed : (start.task (wholeAppend X.toExternals)).owed = none := by cases start <;> rfl
  refine ⟨h.serving.spawned start, ?_, h.increasing, ?_, ?_⟩
  · rw [filterMap_spawned hthread]
    exact h.log
  · rw [filterMap_spawned howed]
    exact h.accounted
  · exact forall_spawned h.streams (by cases start <;> trivial)

/-- The events of a run stay accounted for: nothing is told, or one more event is. -/
theorem Streaming.accounted_moved (h : Streaming machine old s (xs ++ t :: ys) told)
    (heff : RequestTask.Effect machine s s' t t')
    (fresh : ∀ p i, t = .applying p i .started →
      ∀ a, s.shared.engine.cachedResult p.instanceId p.idempotencyKey = some a →
        a.applied = false) :
    (Accounted machine s'.appended (told ++ (xs ++ t' :: ys).filterMap RequestTask.owed) ∧
      ∀ feed es, Feed.Follows feed s.shared.broadcaster es →
        feed.Follows s'.shared.broadcaster es) ∨
      ∃ e, Accounted machine s'.appended
          (told ++ [e] ++ (xs ++ t' :: ys).filterMap RequestTask.owed) ∧
        s'.shared.broadcaster = s.shared.broadcaster.map (·.notify e) ∧
        ∃ p a, t' = .notified p a := by
  have haccounted := h.accounted
  have same (howed : t'.owed = t.owed) : (xs ++ t' :: ys).filterMap RequestTask.owed =
      (xs ++ t :: ys).filterMap RequestTask.owed := by
    rw [filterMap_middle, filterMap_middle, howed]
  cases heff with
  | quiet appended owed kept =>
    refine .inl ⟨?_, kept⟩
    rwa [appended, same owed]
  | @replayed p i a before hsame after cached =>
    subst before hsame after
    have hflag := fresh p i rfl a cached
    refine .inl ⟨?_, fun _ _ hf => hf⟩
    rwa [same (by simp [RequestTask.owed, CallPc.applied, hflag])]
  | @logged e q before after appended tells hsame =>
    refine .inl ⟨?_, fun _ _ hf => hsame ▸ hf⟩
    rw [filterMap_middle, before] at haccounted
    rw [appended, filterMap_middle, after]
    refine (haccounted.snoc tells).perm ?_
    simp only [Option.toList_some, Option.toList_none, List.nil_append, List.singleton_append,
      ← List.append_assoc]
    exact List.perm_middle.trans (List.perm_append_singleton e _).symm
  | @told p i a flag before after hsame =>
    subst before after hsame
    refine .inr ⟨notification i p a, ?_, rfl, p, a, rfl⟩
    have hdone : (RequestTask.notified p a : RequestTask (wholeAppend X.toExternals)).owed = none :=
      rfl
    rw [filterMap_middle, owed_done flag] at haccounted
    rw [filterMap_middle, hdone]
    refine haccounted.perm ?_
    simp only [Option.toList_some, Option.toList_none, List.nil_append, List.singleton_append,
      List.append_assoc]
    exact List.Perm.append_left told List.perm_middle.symm

theorem Streaming.moved (h : Streaming machine old s (xs ++ t :: ys) told)
    (low : s.shared.engine.wal.nextId < 2 ^ 24)
    (fresh : ∀ p i, t = .applying p i .started →
      ∀ a, s.shared.engine.cachedResult p.instanceId p.idempotencyKey = some a → a.applied = false)
    (hm : t.Moved X (wholeAppend X.toExternals) s s' t') :
    ∃ told', Streaming machine old s' (xs ++ t' :: ys) told' := by
  have hserving := h.serving.moved hm
  have hlog := h.log.moved hm
  have hinc := increasing_moved h.log low h.increasing hm
  have hmine := h.streams_mover low hm
  obtain ⟨haccounted, kept⟩ | ⟨e, haccounted, hb, p, a, hdone⟩ :=
    h.accounted_moved (h.serving.effect (by simp) hm) fresh
  · refine ⟨told, hserving, hlog, hinc, haccounted, fun u hu => ?_⟩
    obtain rfl | hu := mem_replace hu
    · exact hmine
    · exact (h.streams u (mem_of_others t hu)).kept kept
  · refine ⟨told ++ [e], hserving, hlog, hinc, haccounted, fun u hu => ?_⟩
    obtain rfl | hu := mem_replace hu
    · rw [hdone]
      trivial
    · rw [hb]
      exact (h.streams u (mem_of_others t hu)).notify e

theorem Streaming.step {op : WatchOp} {ts' : List (RequestTask (wholeAppend X.toExternals))}
    (h : Streaming machine old s ts told) (hop : unrepeated (s, ts) op = true)
    (hs : watchStep X (wholeAppend X.toExternals) (s, ts) op = some (s', ts')) :
    ∃ told', Streaming machine old s' ts' told' := by
  simp only [unrepeated, Bool.and_eq_true, decide_eq_true_eq] at hop
  obtain ⟨low, hop⟩ := hop
  obtain ⟨start, -, rfl, rfl⟩ | ⟨xs, t, t', ys, rfl, hm, rfl, hk⟩ := watchStep_cases hs
  · exact ⟨told, h.spawned start⟩
  · refine h.moved low ?_ hm
    rintro p i rfl a ha
    obtain ⟨k, rfl, hk⟩ | ⟨offset, feed, ht⟩ := hk
    · simpa [hk, ha] using hop
    · cases ht

theorem filter_walOffset {es : List InstanceEvent} (hes : (es.map InstanceEvent.walOffset).Nodup)
    {e : InstanceEvent} (he : e ∈ es) : es.filter (·.walOffset = e.walOffset) = [e] := by
  induction es with
  | nil => cases he
  | cons f es ih =>
    obtain ⟨hnew, hes⟩ := List.nodup_cons.mp hes
    have hne {g : InstanceEvent} (hg : g ∈ es) : g.walOffset ≠ f.walOffset := by
      rintro heq
      exact hnew (heq ▸ List.mem_map_of_mem hg)
    obtain rfl | he := List.mem_cons.mp he
    · rw [List.filter_cons_of_pos (by simp), List.filter_eq_nil_iff.mpr]
      intro g hg
      simpa using hne hg
    · rw [List.filter_cons_of_neg, ih hes he]
      simpa using (hne he).symm

/-- The events stay accounted for on every schedule from a reachable server. -/
theorem streaming_of_run {config : ServerConfig} {server₀ server : Server} {ops : List ServerOp}
    (hstart : Server.start X config ∅ .empty 0 = some (.ok server₀))
    (hops : run (Server.step X) server₀ ops = some server) {sched : List WatchOp}
    {t : ServerThreads × List (RequestTask (wholeAppend X.toExternals))}
    (hsched : Meets (watchStep X (wholeAppend X.toExternals)) (fun s op => unrepeated s op = true)
      (⟨server.shared, [], []⟩, []) sched)
    (hrun : run (watchStep X (wholeAppend X.toExternals)) (⟨server.shared, [], []⟩, []) sched =
      some t) :
    ∃ old told, Streaming (X := X) server.shared.engine.machineOf old t.1 t.2 told := by
  obtain ⟨pre, c, hsound⟩ := Server.sound_of_start hstart hops
  have start : Streaming (X := X) server.shared.engine.machineOf (entries (pre ++ [c]))
      ⟨server.shared, [], []⟩ [] [] :=
    ⟨.start _ _, LogHolds.initial hsound.engine.repr hsound.engine.clean, .nil,
      ⟨[], rfl, by simp, .nil⟩, by simp⟩
  obtain ⟨told, h⟩ := run_keeps_of_meets
    (P := fun t => ∃ told, Streaming (X := X) server.shared.engine.machineOf (entries (pre ++ [c]))
      t.1 t.2 told)
    (fun _ _ _ ⟨_, h⟩ hop hs => h.step hop hs) ⟨[], start⟩ hsched hrun
  exact ⟨_, told, h⟩

/-- From every server that requests, compactions and restarts can lead to, on every
schedule of requests in which an append is one step, segment ids fit in an offset and
no call is answered from the cache: what is written for a subscription to everything
matches its filter; and, while it does not lag, each event in the log that does not lie
before the head in its reply is still to be notified, or has been or will be taken once
by the subscription, and when nothing is on the way any more it has been written once
if the filter lets it through. -/
theorem watch_all_no_gap {config : ServerConfig} {server₀ server : Server} {ops : List ServerOp}
    (hstart : Server.start X config ∅ .empty 0 = some (.ok server₀))
    (hops : run (Server.step X) server₀ ops = some server) {sched : List WatchOp}
    {t : ServerThreads × List (RequestTask (wholeAppend X.toExternals))}
    (hsched : Meets (watchStep X (wholeAppend X.toExternals)) (fun s op => unrepeated s op = true)
      (⟨server.shared, [], []⟩, []) sched)
    (hrun : run (watchStep X (wholeAppend X.toExternals)) (⟨server.shared, [], []⟩, []) sched =
      some t) {head : Nat} {feed : Feed} (hfeed : .watching head feed ∈ t.2)
    (hch : feed.sub.receiver.channel = .global) :
    (∀ e ∈ feed.written, feed.sub.filter.all (·.accepts e) = true) ∧
      (feed.sub.lagged = false → ∀ q ∈ t.1.shared.engine.wal.readable X.toExternals,
        ∀ ev, appliedIn q = some ev → head ≤ ev.walOffset →
          (∃ u ∈ t.2, ∃ e, u.owed = some e ∧ e.applied = ev) ∨
            ∃ b e, t.1.shared.broadcaster = some b ∧ e.applied = ev ∧
              t.1.shared.engine.machineOf e.instanceId = some (e.machine, e.version) ∧
              (feed.sub.due b).filter (·.walOffset = ev.walOffset) = [e] ∧
              (feed.rests b = true → feed.written.filter (·.walOffset = ev.walOffset) =
                if feed.sub.filter.all (·.accepts e) then [e] else [])) := by
  constructor
  · intro e he
    have hmem : e ∈ feed.sub.forwarded := by
      rw [feed.passes]
      exact List.mem_append_left _ he
    exact (List.mem_filter.mp hmem).2
  intro hlag q hq ev hev hhead
  obtain ⟨old, told, h⟩ := streaming_of_run hstart hops hsched hrun
  obtain ⟨hold, hfollows⟩ := h.streams _ hfeed hch
  obtain ⟨es, hes, hsuffix, hall⟩ := hfollows hlag
  -- The entry is not an old one, so it is that of an event told or owed.
  have hq : q ∈ t.1.appended := by
    have hreadable := h.log.readable
    have hq : q ∈ old ++ t.1.appended := hreadable ▸ hq
    obtain hq | hq := List.mem_append.mp hq
    · have hlt := hold q hq
      rw [appliedIn_walOffset hev] at hlt
      omega
    · exact hq
  obtain ⟨e, he, rfl, hmachine⟩ := h.accounted.event hq hev
  obtain he | he := List.mem_append.mp he
  · have hmem : e ∈ es := (hall e he).resolve_right (Nat.not_lt.mpr hhead)
    have hnodup : (es.map InstanceEvent.walOffset).Nodup := by
      have hlog := h.accounted.nodup h.increasing
      rw [List.map_append] at hlog
      exact hlog.of_append_left.sublist (hsuffix.sublist.map _)
    have hone := filter_walOffset hnodup hmem
    have hplace := hes
    obtain ⟨b, hb, -, -, hdue⟩ := hplace
    refine .inr ⟨b, e, hb, rfl, (h.serving.machines _).trans hmachine, hdue ▸ hone, fun hrest => ?_⟩
    rw [hb] at hes
    have hwritten : feed.written.filter (·.walOffset = e.walOffset) =
        [e].filter fun e => feed.sub.filter.all (·.accepts e) := by
      rw [hes.written hrest, List.filter_comm, hone]
    rw [List.filter_singleton, cond_eq_ite] at hwritten
    exact hwritten
  · obtain ⟨u, hu, howed⟩ := List.mem_filterMap.mp he
    exact .inl ⟨u, hu, e, howed, rfl⟩

end

/-- A client watches the events `e`, and an event on `i` is applied, notified, taken,
sent and written. -/
def watchedAll : List WatchOp :=
  [.sched (.spawn (.watchAll (.object [("events", .array [.string "e"])]))), .sched (.step 0),
    .sched (.spawn (.applyEvent (applyLoop "i" .null).params)), .sched (.step 0)] ++
    List.replicate 8 (.sched (.step 1)) ++ [.sched (.step 0), .sched (.step 0), .write 0]

/-- The subscription of the first request, and the last entry of the run. -/
def watchedAllView {L : LogSteps} (t : ServerThreads × List (RequestTask L)) :
    Option (Nat × Feed × ReadEntry) :=
  match t.2, t.1.appended.getLast? with
  | .watching head feed :: _, some q => some (head, feed, q)
  | _, _ => none

set_option maxRecDepth 4000 in
/-- The event is behind the head in the reply, and its name is let through. -/
theorem watch_all_no_gap_for_event :
    ∃ server, run (Server.step serdeServer) (.fresh (openConfig 1000)) loopServer = some server ∧
      ∃ t, run (watchStep serdeServer (wholeAppend serdeServer.toExternals))
          (⟨server.shared, [], []⟩, []) watchedAll = some t ∧
        ∃ head feed, .watching head feed ∈ t.2 ∧
          ∃ q ∈ t.1.shared.engine.wal.readable serdeServer.toExternals, ∃ ev,
            appliedIn q = some ev ∧ head ≤ ev.walOffset ∧
              ∃ e, e.applied = ev ∧ feed.written.filter (·.walOffset = ev.walOffset) = [e] := by
  refine run_exists (p := fun server =>
    Meets (watchStep serdeServer (wholeAppend serdeServer.toExternals))
      (fun s op => unrepeated s op = true) (⟨server.shared, [], []⟩, []) watchedAll ∧
    (run (watchStep serdeServer (wholeAppend serdeServer.toExternals))
      (⟨server.shared, [], []⟩, []) watchedAll).any (fun t =>
        (watchedAllView t).any fun a => decide (
          a.2.1.sub.receiver.channel = .global ∧ a.2.1.sub.lagged = false ∧
          (appliedIn a.2.2).any (fun ev => a.1 ≤ ev.walOffset) = true ∧
          t.2.all (fun u => u.owed.isNone) = true ∧
          t.1.shared.broadcaster.all a.2.1.rests = true ∧
          a.2.1.written.any (fun e => (appliedIn a.2.2).all (e.walOffset = ·.walOffset)) = true)) =
            true)
    (by decide +kernel) ?_
  rintro server hserver ⟨hsched, hend⟩
  obtain ⟨t, hrun, ⟨head, feed, q⟩, hview, hch, hlag, hafter, howed, hrest, hwritten⟩ :=
    run_finds hend
  obtain ⟨ev, hev, hhead⟩ := (Option.any_eq_true _ _).mp hafter
  have hhead : head ≤ ev.walOffset := of_decide_eq_true hhead
  obtain ⟨hfeed, hq⟩ : .watching head feed ∈ t.2 ∧ q ∈ t.1.appended := by
    unfold watchedAllView at hview
    split at hview <;> cases hview
    rename_i hts hlast
    exact ⟨by simp [hts], List.mem_of_getLast? hlast⟩
  have hlog : q ∈ t.1.shared.engine.wal.readable serdeServer.toExternals := by
    obtain ⟨old, told, h⟩ := streaming_of_run (Server.start_empty rfl) hserver hsched hrun
    have hreadable : t.1.shared.engine.wal.readable serdeServer.toExternals = old ++ t.1.appended :=
      h.log.readable
    rw [hreadable]
    exact List.mem_append_right _ hq
  refine ⟨t, hrun, head, feed, hfeed, q, hlog, ev, hev, hhead, ?_⟩
  obtain ⟨-, hall⟩ := watch_all_no_gap (Server.start_empty rfl) hserver hsched hrun hfeed hch
  obtain ⟨u, hu, e, he, -⟩ | ⟨b, e, hb, happlied, -, -, hout⟩ := hall hlag q hlog ev hev hhead
  · simp [Option.isNone_iff_eq_none.mp (List.all_eq_true.mp howed u hu)] at he
  · have hout := hout ((Option.all_eq_true _ _).mp hrest b hb)
    obtain ⟨f, hf, hsame⟩ := List.any_eq_true.mp hwritten
    have hmem : f ∈ feed.written.filter (·.walOffset = ev.walOffset) :=
      List.mem_filter.mpr ⟨hf, (Option.all_eq_true _ _).mp hsame ev hev⟩
    split at hout
    · exact ⟨e, happlied, hout⟩
    · simp [hout] at hmem

end Rstmdb
