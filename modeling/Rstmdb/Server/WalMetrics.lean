import Rstmdb.Lib.Interleave
import Rstmdb.Lib.Meter
import Rstmdb.Wal.Refine

/-! The exported counters of the log. `update_gauge_metrics` reads the counters of the log
and then reports them; between the two, other calls do the same and the log is used. A
report that comes late moves the last value back, and what lies between is exported
again. -/
namespace Rstmdb

/-- The counters of a log that are exported. -/
inductive WalCounter
  | bytesWritten
  | bytesRead
  | writes
  | reads
  | fsyncs
  deriving DecidableEq

instance : Fintype WalCounter :=
  ⟨{.bytesWritten, .bytesRead, .writes, .reads, .fsyncs}, fun c => by cases c <;> decide⟩

def WalStats.total (stats : WalStats) : WalCounter → Nat
  | .bytesWritten => stats.bytesWritten
  | .bytesRead => stats.bytesRead
  | .writes => stats.writes
  | .reads => stats.reads
  | .fsyncs => stats.fsyncs

/-- The value of the atomic counter. -/
def WalStats.get (stats : WalStats) (c : WalCounter) : Nat := stats.total c % 2 ^ 64

/-- No total is smaller. -/
def WalStats.Le (a b : WalStats) : Prop := ∀ c, a.total c ≤ b.total c

theorem WalStats.Le.refl (a : WalStats) : a.Le a := fun _ => Nat.le_refl _

theorem WalStats.Le.trans {a b c : WalStats} (h : a.Le b) (h' : b.Le c) : a.Le c :=
  fun k => (h k).trans (h' k)

/-- The part of `Metrics` that `update_wal_stats` works on: the exported counters, as exact
numbers, and the values last reported. -/
structure WalMetrics where
  exported : WalCounter → Nat
  last : WalStats

namespace WalMetrics

def new : WalMetrics := ⟨fun _ => 0, {}⟩

/-- One counter of the registry, increased by a positive difference. -/
def increased (counter stats last : Nat) : Nat :=
  if 0 < stats - last then counter + (stats - last) else counter

def updateWalStats (m : WalMetrics) (stats : WalStats) : WalMetrics where
  exported c := increased (m.exported c) (stats.get c) (m.last.get c)
  last := stats

/-- One counter by itself. -/
def meter (m : WalMetrics) (c : WalCounter) : Meter := ⟨m.exported c, m.last.get c⟩

theorem increased_eq (counter stats last : Nat) :
    increased counter stats last = counter + (stats - last) := by
  unfold increased
  split <;> omega

theorem meter_updateWalStats (m : WalMetrics) (stats : WalStats) (c : WalCounter) :
    (m.updateWalStats stats).meter c = (m.meter c).report (stats.get c) := by
  simp [meter, updateWalStats, Meter.report, increased_eq]

end WalMetrics

/-! ## The log in use -/

namespace Wal

/-- What a running server does with its log. It does not open it again. -/
def perform (X : Externals) (w : Wal) : WalOp → Option Wal
  | .append e => (w.append X e).map Prod.fst
  | .sync => some w.sync
  | .readFrom start limit => (w.readFrom X start limit).map Prod.fst
  | .close => some w.close
  | .compactBefore before => some (w.compactBefore before).1
  | .reopen _ => none

section
variable {X : Externals} {w w' : Wal}

theorem syncSegment_stats_le (w : Wal) (seg : Segment) : w.stats.Le (w.syncSegment seg).stats := by
  intro c
  cases c <;> simp [syncSegment, WalStats.total]

theorem applyPolicy_stats_le (w : Wal) (seg : Segment) : w.stats.Le (w.applyPolicy seg).stats := by
  obtain h | h := applyPolicy_cases w seg
  · rw [h]
    exact .refl _
  · rw [h]
    exact syncSegment_stats_le w seg

theorem sync_stats_le (w : Wal) : w.stats.Le w.sync.stats := by
  unfold sync
  split
  · exact syncSegment_stats_le w _
  · exact .refl _

theorem written_stats_le (w : Wal) (seg : Segment) (r : WalRecord) :
    w.stats.Le (w.written seg r).stats := by
  intro c
  cases c <;> simp [written, noteWrite, WalStats.total]

theorem appendLocked_stats_le {r : WalRecord} {res : Except WalError (UInt64 × WalOffset)}
    (h : w.appendLocked r = some (w', res)) : w.stats.Le w'.stats := by
  cases hcur : w.current with
  | none => simp [appendLocked, hcur] at h
  | some seg =>
    obtain ⟨-, rfl, -⟩ | ⟨-, -, rfl, -⟩ := appendLocked_cases hcur h
    · exact .refl _
    · exact (written_stats_le w seg r).trans (applyPolicy_stats_le _ _)

theorem append_stats_le {e : WalEntry} {res : Except WalError (UInt64 × WalOffset)}
    (h : w.append X e = some (w', res)) : w.stats.Le w'.stats := by
  obtain ⟨-, rfl, -⟩ | ⟨-, -, -, rfl, -⟩ | ⟨-, -, -, h⟩ | ⟨-, -, h⟩ := append_cases h
  · exact .refl _
  · exact .refl _
  · exact appendLocked_stats_le (w := w.drawSequence.2.rotated) h
  · exact appendLocked_stats_le (w := w.drawSequence.2) h

theorem readFrom_stats_le {start : WalOffset} {limit : Option Nat}
    {res : Except WalError (List ReadEntry)} (h : w.readFrom X start limit = some (w', res)) :
    w.stats.Le w'.stats := by
  unfold readFrom at h
  split at h
  · cases h
  · cases h
    exact .refl _
  · cases h
    intro c
    cases c <;> simp [WalStats.total]

/-- The totals of a log never go down while it is in use. -/
theorem perform_stats_le {op : WalOp} (h : w.perform X op = some w') : w.stats.Le w'.stats := by
  cases op with
  | append e =>
    obtain ⟨⟨_, res⟩, ha, rfl⟩ := Option.map_eq_some_iff.mp h
    exact append_stats_le ha
  | sync =>
    cases h
    exact sync_stats_le w
  | readFrom start limit =>
    obtain ⟨⟨_, res⟩, hr, rfl⟩ := Option.map_eq_some_iff.mp h
    exact readFrom_stats_le hr
  | close =>
    cases h
    exact sync_stats_le { w with closed := true }
  | compactBefore before =>
    cases h
    obtain ⟨deleted, he⟩ := compactBefore_eq w before
    rw [he]
    exact .refl _
  | reopen config => cases h

end

end Wal

/-! ## Calls of `update_gauge_metrics` -/

/-- The log, the counters that are exported, and the reports so far. -/
structure Gauged where
  wal : Wal
  metrics : WalMetrics
  reported : List WalStats

/-- A use of the log, or a call of `update_gauge_metrics` before it reads the counters,
with what it has read, or at its end. -/
inductive GaugeCall
  | log (op : WalOp)
  | gather
  | report (stats : WalStats)
  | done

namespace Gauged

def start (wal : Wal) : Gauged := ⟨wal, .new, []⟩

def next (X : Externals) (g : Gauged) : GaugeCall → Option (Gauged × GaugeCall)
  | .log op => (g.wal.perform X op).map fun wal => ({ g with wal }, .done)
  | .gather => some (g, .report g.wal.stats)
  | .report stats =>
    some ({ g with
      metrics := g.metrics.updateWalStats stats, reported := g.reported ++ [stats] }, .done)
  | .done => none

/-- A use of the log, or else a call of `update_gauge_metrics`, at its beginning. -/
def begin (_ : Gauged) : Option WalOp → GaugeCall
  | some op => .log op
  | none => .gather

/-- Calls begin and take their steps in any order. -/
def step (X : Externals) : Gauged × List GaugeCall → Sched (Option WalOp) →
    Option (Gauged × List GaugeCall) :=
  interleave begin (next X)

/-- No report had a counter below that of a report before it. -/
def Steady (g : Gauged) : Prop :=
  ∀ c, (g.reported.map (·.get c)).Pairwise (· ≤ ·)

instance (g : Gauged) : Decidable g.Steady :=
  inferInstanceAs (Decidable (∀ _, _))

/-- What is exported comes from the reports, and what was read of the log's totals lies
below them. -/
structure Tracked (s : Gauged × List GaugeCall) : Prop where
  meters : ∀ c, s.1.metrics.meter c = Meter.reports (s.1.reported.map (·.get c))
  reported : ∀ stats ∈ s.1.reported, stats.Le s.1.wal.stats
  pending : ∀ stats, GaugeCall.report stats ∈ s.2 → stats.Le s.1.wal.stats

section
variable {X : Externals} {g g' : Gauged} {t t' : GaugeCall}

/-- One step of a call: the log's totals do not go down, and what the call holds
or reports lies below them. -/
theorem next_tracked (h : next X g t = some (g', t'))
    (hm : ∀ c, g.metrics.meter c = Meter.reports (g.reported.map (·.get c)))
    (hr : ∀ stats ∈ g.reported, stats.Le g.wal.stats)
    (ht : ∀ stats, t = .report stats → stats.Le g.wal.stats) :
    g.wal.stats.Le g'.wal.stats ∧
      (∀ c, g'.metrics.meter c = Meter.reports (g'.reported.map (·.get c))) ∧
      (∀ stats ∈ g'.reported, stats.Le g'.wal.stats) ∧
      ∀ stats, t' = .report stats → stats.Le g'.wal.stats := by
  cases t with
  | log op =>
    obtain ⟨wal, hp, hout⟩ := Option.map_eq_some_iff.mp h
    cases hout
    have hle := Wal.perform_stats_le hp
    exact ⟨hle, hm, fun stats hs => (hr stats hs).trans hle, by rintro _ ⟨⟩⟩
  | gather =>
    cases h
    refine ⟨.refl _, hm, hr, ?_⟩
    rintro _ ⟨⟩
    exact .refl _
  | report stats =>
    cases h
    refine ⟨.refl _, fun c => ?_, fun stats' hs => ?_, by rintro _ ⟨⟩⟩
    · rw [WalMetrics.meter_updateWalStats, hm c, List.map_append, List.map_singleton,
        Meter.reports_append]
    · obtain hs | hs := List.mem_append.mp hs
      · exact hr stats' hs
      · rw [List.mem_singleton.mp hs]
        exact ht stats rfl
  | done => cases h

theorem tracked_step {s s' : Gauged × List GaugeCall} {op : Sched (Option WalOp)} (h : Tracked s)
    (hs : step X s op = some s') : Tracked s' := by
  obtain ⟨g, ts⟩ := s
  obtain ⟨g', ts'⟩ := s'
  obtain ⟨use, -, rfl, rfl⟩ | ⟨k, xs, t, t', ys, -, -, rfl, hn, rfl⟩ := interleave_cases hs
  · refine ⟨h.meters, h.reported, fun stats hmem => ?_⟩
    obtain hmem | hmem := List.mem_append.mp hmem
    · exact h.pending stats hmem
    · cases use <;> cases List.mem_singleton.mp hmem
  · obtain ⟨hle, hm, hr, ht⟩ := next_tracked hn h.meters h.reported fun stats he =>
      h.pending stats (by rw [← he]; simp)
    refine ⟨hm, hr, fun stats hmem => ?_⟩
    obtain he | hother := mem_replace hmem
    · exact ht stats he.symm
    · exact (h.pending stats (mem_of_others t hother)).trans hle

theorem tracked_run {wal : Wal} {ops : List (Sched (Option WalOp))} {s : Gauged × List GaugeCall}
    (h : run (step X) (start wal, []) ops = some s) : Tracked s := by
  refine run_keeps (P := Tracked) (fun _ _ _ => tracked_step) ⟨fun c => ?_, ?_, ?_⟩ h
  · cases c <;> rfl
  · intro stats hs
    cases hs
  · intro stats hs
    cases hs

theorem run_lone (g : Gauged) (ts : List GaugeCall) :
    run (step X) (g, ts) [.spawn none, .step ts.length, .step ts.length] =
      some ({ g with
        metrics := g.metrics.updateWalStats g.wal.stats
        reported := g.reported ++ [g.wal.stats] }, ts ++ [.done]) := by
  simp [run, step, interleave, begin, next]

end

end Gauged

/-- The exported counters of the log. For every interleaving of any number of calls of
`update_gauge_metrics` with uses of the log that keep its counters below `2 ^ 64`: as long
as no report has brought a counter down, no exported counter is above that of the log; and
a call that nothing comes between leaves every exported counter equal to that of the log
if and only if no report has brought a counter down before. Otherwise one stays above it. -/
theorem exported_counters_iff (X : Externals) (wal : Wal) {ops : List (Sched (Option WalOp))}
    {g : Gauged} {ts : List GaugeCall}
    (hrun : run (Gauged.step X) (Gauged.start wal, []) ops = some (g, ts))
    (fits : ∀ c, g.wal.stats.total c < 2 ^ 64) :
    (g.Steady → ∀ c, g.metrics.exported c ≤ g.wal.stats.get c) ∧
      ∃ g' ts', run (Gauged.step X) (g, ts) [.spawn none, .step ts.length, .step ts.length] =
          some (g', ts') ∧
        ((∀ c, g'.metrics.exported c = g'.wal.stats.get c) ↔ g.Steady) ∧
        (¬ g.Steady → ∃ c, g'.wal.stats.get c < g'.metrics.exported c) := by
  have h := Gauged.tracked_run hrun
  have hbelow (c : WalCounter) : ∀ v ∈ g.reported.map (·.get c), v ≤ g.wal.stats.get c := by
    intro v hv
    obtain ⟨stats, hs, rfl⟩ := List.mem_map.mp hv
    calc stats.get c ≤ stats.total c := Nat.mod_le _ _
      _ ≤ g.wal.stats.total c := h.reported stats hs c
      _ = g.wal.stats.get c := (Nat.mod_eq_of_lt (fits c)).symm
  have hlone (c : WalCounter) : (g.metrics.updateWalStats g.wal.stats).meter c =
      Meter.reports (g.reported.map (·.get c) ++ [g.wal.stats.get c]) := by
    rw [WalMetrics.meter_updateWalStats, h.meters c, Meter.reports_append]
  have hequal (c : WalCounter) :
      (g.metrics.updateWalStats g.wal.stats).exported c = g.wal.stats.get c ↔
        (g.reported.map (·.get c)).Pairwise (· ≤ ·) := by
    have hiff := Meter.exported_eq_last_iff (g.reported.map (·.get c) ++ [g.wal.stats.get c])
    rw [← hlone c, List.pairwise_append] at hiff
    refine hiff.trans ⟨fun hp => hp.1, fun hp => ⟨hp, List.pairwise_singleton _ _, ?_⟩⟩
    intro v hv v' hv'
    rw [List.mem_singleton.mp hv']
    exact hbelow c v hv
  have habove (c : WalCounter) :
      g.wal.stats.get c ≤ (g.metrics.updateWalStats g.wal.stats).exported c := by
    have hle := Meter.last_le_exported (g.reported.map (·.get c) ++ [g.wal.stats.get c])
    rw [← hlone c] at hle
    exact hle
  refine ⟨fun steady c => ?_, _, _, Gauged.run_lone g ts, forall_congr' hequal, fun unsteady => ?_⟩
  · have hexported := (Meter.exported_eq_last_iff _).mpr (steady c)
    rw [← h.meters c] at hexported
    calc g.metrics.exported c = (Meter.reports (g.reported.map (·.get c))).last :=
          hexported.trans (congrArg Meter.last (h.meters c))
      _ ≤ g.wal.stats.get c := Meter.last_le_of_forall (hbelow c)
  · obtain ⟨c, hc⟩ := not_forall.mp unsteady
    exact ⟨c, lt_of_le_of_ne (habove c) fun he => hc ((hequal c).mp he.symm)⟩

/-- Two records and a sync. Two calls of `update_gauge_metrics` overlap, each with
its own values, and report in order; a third one comes after them. -/
theorem exported_counters_after_reports :
    ∃ s, run (Gauged.step serde) (Gauged.start (Wal.fresh ⟨1000, .everyWrite⟩), [])
        [.spawn (some (.append (.checkpoint 1))), .step 0, .spawn none, .step 1,
          .spawn (some (.append (.checkpoint 2))), .step 2, .spawn none, .step 3, .step 1,
          .spawn (some .sync), .step 4, .step 3] = some s ∧
      s.1.reported.map (·.get .writes) = [1, 2] ∧ s.1.metrics.exported .fsyncs = 2 ∧
      ∃ g' ts', run (Gauged.step serde) s [.spawn none, .step s.2.length, .step s.2.length] =
          some (g', ts') ∧
        ∀ c, g'.metrics.exported c = g'.wal.stats.get c := by
  refine run_exists (p := fun s => (s.1.reported.map (·.get .writes) = [1, 2] ∧
    s.1.metrics.exported .fsyncs = 2) ∧ s.1.Steady ∧ ∀ c, s.1.wal.stats.total c < 2 ^ 64)
    (by decide +kernel) ?_
  rintro ⟨g, ts⟩ hrun ⟨⟨hwrites, hfsyncs⟩, steady, fits⟩
  obtain ⟨-, g', ts', hlone, hiff, -⟩ :=
    exported_counters_iff serde (Wal.fresh ⟨1000, .everyWrite⟩) hrun fits
  exact ⟨hwrites, hfsyncs, g', ts', hlone, hiff.mpr steady⟩

/-- A call reads the counters after one record and reports them after another call has
reported two. The next call exports the second record again. -/
theorem late_report_counted_twice :
    ∃ s, run (Gauged.step serde) (Gauged.start (Wal.fresh ⟨1000, .everyWrite⟩), [])
        [.spawn (some (.append (.checkpoint 1))), .step 0, .spawn none, .step 1,
          .spawn (some (.append (.checkpoint 2))), .step 2, .spawn none, .step 3, .step 3, .step 1,
          .spawn none, .step 4, .step 4] = some s ∧
      s.1.wal.stats.get .writes = 2 ∧ s.1.metrics.exported .writes = 3 :=
  run_exists (p := fun s => s.1.wal.stats.get .writes = 2 ∧ s.1.metrics.exported .writes = 3)
    (by decide +kernel) fun _ _ h => h

end Rstmdb
