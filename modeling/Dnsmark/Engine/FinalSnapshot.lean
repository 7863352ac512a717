import Dnsmark.Udp.FloodAccounting
import Dnsmark.Xdp.Accounting

/-!
# The final snapshot

The counters of both datapaths are exact once every worker has flushed and if the reset after the
warm-up found nothing unflushed.  On the kernel-UDP path the engine really waits for the workers.
On the AF_XDP path it waits for tasks that have nothing to do, so the snapshot may come before the
last flush of a worker.
-/

namespace Dnsmark.Engine

open Dnsmark.Stats Dnsmark.Inflight

/-- For every number of workers and every interleaving with the engine, at the final snapshot.
Kernel-UDP flood path: every worker has finished, and the snapshot is what the workers counted since
the last reset if and only if every reset found the accumulators empty.  AF_XDP path: the snapshot
is complete if and only if, in addition, every worker took its last step before it. -/
theorem final_snapshot_complete_iff (summary : List ℕ → LatencySummary) (elapsedSecs : ℚ) :
    (∀ (cfg : Udp.Flood.Config) (N : ℕ) (ids : Fin N → QueryId) es s s',
      (Udp.Flood.datapath cfg N).bench.run (Bench.start (Udp.Flood.State.start ids)) es = some s →
      (Udp.Flood.datapath cfg N).bench.step s (.env .snapshot) = some s' →
      (∀ i, (s.state.threads i).isDone = true) ∧
      ((Udp.Flood.datapath cfg N).Complete s (s.state.shared.stats.snapshot summary elapsedSecs) ↔
        (Udp.Flood.datapath cfg N).bench.Meets (Udp.Flood.datapath cfg N).ResetsEmpty
          (Bench.start (Udp.Flood.State.start ids)) es)) ∧
    (∀ (cfg : Xdp.Config) (N : ℕ) es s s',
      (Xdp.datapath cfg N).bench.run (Bench.start (Xdp.State.start N)) es = some s →
      (Xdp.datapath cfg N).bench.step s (.env .snapshot) = some s' →
      ((Xdp.datapath cfg N).Complete s (s.state.shared.stats.snapshot summary elapsedSecs) ↔
        (∀ i, .thread i .flushRcodes ∈ es) ∧
        (Xdp.datapath cfg N).bench.Meets (Xdp.datapath cfg N).ResetsEmpty
          (Bench.start (Xdp.State.start N)) es)) := by
  constructor
  · intro cfg N ids es s s' hrun hsnap
    have hdone : ∀ i, (s.state.threads i).isDone = true := Datapath.handleReady_of_snapshot hsnap
    refine ⟨hdone, ?_⟩
    exact (Datapath.complete_iff (Udp.Flood.fresh_start ids) hrun summary elapsedSecs).trans
      (and_iff_right hdone)
  · intro cfg N es s s' hrun hsnap
    rw [← forall_congr' (Xdp.finished_iff_mem hrun)]
    exact Datapath.complete_iff Xdp.fresh_start hrun summary elapsedSecs

/-- A flood worker sends three queries and is shut down. -/
def udpThreeSent : List (Threads.Event (Fin 1) Udp.Flood.Act EngineStep) :=
  [.env .skipWarmUp, .thread 0 (.tx .checkShutdown), .thread 0 (.tx (.batch 0 3)),
    .thread 0 (.tx (.flush 5)), .env .storeShutdown, .thread 0 (.tx .checkShutdown), .thread 0 (.tx (.exit 9)),
    .thread 0 (.rx .checkShutdown), .thread 0 (.rx .exit)]

/-- A unified worker sends one query and the engine stores `shutdown`. -/
def xdpOneSent : List (Threads.Event (Fin 1) Xdp.Act EngineStep) :=
  [.env .skipWarmUp, .thread 0 .checkShutdown, .thread 0 (.gate 1), .thread 0 (.transmit 1 1),
    .thread 0 .addInFlight, .thread 0 (.countSent 6), .thread 0 .noReplies, .thread 0 .noSweep,
    .env .storeShutdown]

/-- The rest of that worker: it leaves its loop, drains the table and flushes. -/
def xdpLeave : List (Threads.Event (Fin 1) Xdp.Act EngineStep) :=
  .thread 0 .checkShutdown :: (List.replicate 65536 (.thread 0 .drainStep) ++
    [.thread 0 .drainStep, .thread 0 (.flushSent 9), .thread 0 .flushRcodes])

/-- The worker after `xdpOneSent`, at drain position `k`. -/
def xdpDraining (k : ℕ) : Bench (Fin 1) Xdp.UnifiedWorker Xdp.Shared where
  state := ⟨fun _ => { Xdp.UnifiedWorker.new with
      pc := .drain ⟨k, 0⟩, idCtr := 1, localSubmitted := 1, subAcc := 1 },
    { Xdp.Shared.new with shutdown := true }⟩
  pc := .joining
  opened := fun _ => .new

/-- The table is empty, so a drain step only moves on. -/
theorem step_xdpDraining {k : ℕ} (hk : k < 65536) :
    (Xdp.datapath ⟨0, 3000000000, false⟩ 1).bench.step (xdpDraining k) (.thread 0 .drainStep)
      = some (xdpDraining (k + 1)) := by
  have hdrain : Drain.step ⟨k, 0⟩ (xdpDraining k).state.shared.slots = some (⟨k + 1, 0⟩, none) := by
    simp [Drain.step, hk, xdpDraining, Xdp.Shared.new]
  have hstep : (Xdp.workers ⟨0, 3000000000, false⟩ 1).step 0 ((xdpDraining k).state.threads 0)
      (xdpDraining k).state.shared .drainStep
      = some ((xdpDraining (k + 1)).state.threads 0, (xdpDraining k).state.shared) := by
    have hpc : ((xdpDraining k).state.threads 0).pc = .drain ⟨k, 0⟩ := rfl
    exact Xdp.UnifiedWorker.step_drain ⟨0, 3000000000, false⟩ (0 : Fin 1) hpc hdrain
  have hthreads : Function.update (xdpDraining k).state.threads 0 ((xdpDraining (k + 1)).state.threads 0)
      = (xdpDraining (k + 1)).state.threads := by
    funext i
    rw [Subsingleton.elim i 0, Function.update_self]
  have hmachine := Threads.machine_step_thread _ hstep
  rw [hthreads] at hmachine
  exact congrArg (Option.map _) hmachine

/-- Up to the drain. -/
theorem run_xdpOneSent :
    (Xdp.datapath ⟨0, 3000000000, false⟩ 1).bench.run (Bench.start (Xdp.State.start 1))
      (xdpOneSent ++ [.thread 0 .checkShutdown]) = some (xdpDraining 0) := by
  obtain ⟨th, hrun, hth⟩ : ∃ th, (Xdp.datapath ⟨0, 3000000000, false⟩ 1).bench.run
        (Bench.start (Xdp.State.start 1)) (xdpOneSent ++ [.thread 0 .checkShutdown])
        = some ⟨⟨th, (xdpDraining 0).state.shared⟩, .joining, fun _ => .new⟩ ∧
      th 0 = (xdpDraining 0).state.threads 0 := by
    refine ⟨_, rfl, ?_⟩
    rfl
  obtain rfl : th = (xdpDraining 0).state.threads := funext fun i => by rw [Subsingleton.elim i 0, hth]
  exact hrun

/-- The whole run of the worker, and the snapshot after it. -/
theorem run_xdpLeave :
    ∃ s s', (Xdp.datapath ⟨0, 3000000000, false⟩ 1).bench.run (Bench.start (Xdp.State.start 1))
        (xdpOneSent ++ xdpLeave) = some s ∧
      (Xdp.datapath ⟨0, 3000000000, false⟩ 1).bench.step s (.env .snapshot) = some s' := by
  have hdrain := Machine.run_replicate _ fun k hk => step_xdpDraining (k := k) hk
  obtain ⟨s, s', hflush, hsnap⟩ : ∃ s s', (Xdp.datapath ⟨0, 3000000000, false⟩ 1).bench.run
        (xdpDraining 65536) [.thread 0 .drainStep, .thread 0 (.flushSent 9), .thread 0 .flushRcodes]
        = some s ∧
      (Xdp.datapath ⟨0, 3000000000, false⟩ 1).bench.step s (.env .snapshot) = some s' := ⟨_, _, rfl, rfl⟩
  refine ⟨s, s', ?_, hsnap⟩
  have hrun := Machine.run_trans _ run_xdpOneSent (Machine.run_trans _ hdrain hflush)
  rwa [List.append_assoc] at hrun

/-- Both runs end in a complete snapshot: three queries sent, and one. -/
theorem final_snapshot_complete_sent :
    (∃ s, (Udp.Flood.datapath ⟨false, 3000000000⟩ 1).bench.run
        (Bench.start (Udp.Flood.State.start fun _ => 0)) udpThreeSent = some s ∧
      (Udp.Flood.datapath ⟨false, 3000000000⟩ 1).Complete s
        (s.state.shared.stats.snapshot (fun _ => {}) 1)) ∧
    (∃ s, (Xdp.datapath ⟨0, 3000000000, false⟩ 1).bench.run (Bench.start (Xdp.State.start 1))
        (xdpOneSent ++ xdpLeave) = some s ∧
      (Xdp.datapath ⟨0, 3000000000, false⟩ 1).Complete s
        (s.state.shared.stats.snapshot (fun _ => {}) 1)) := by
  constructor
  · obtain ⟨s, s', hrun, hsnap⟩ : ∃ s s', (Udp.Flood.datapath ⟨false, 3000000000⟩ 1).bench.run
          (Bench.start (Udp.Flood.State.start fun _ => 0)) udpThreeSent = some s ∧
        (Udp.Flood.datapath ⟨false, 3000000000⟩ 1).bench.step s (.env .snapshot) = some s' :=
      ⟨_, _, rfl, rfl⟩
    refine ⟨s, hrun, ((final_snapshot_complete_iff (fun _ => {}) 1).1 _ _ _ _ _ _ hrun hsnap).2.mpr ?_⟩
    refine Machine.meets_of_forall_mem _ ?_ _
    simp [udpThreeSent, Datapath.ResetsEmpty]
  · obtain ⟨s, s', hrun, hsnap⟩ := run_xdpLeave
    refine ⟨s, hrun, ((final_snapshot_complete_iff (fun _ => {}) 1).2 _ _ _ _ _ hrun hsnap).mpr ⟨?_, ?_⟩⟩
    · intro i
      rw [Subsingleton.elim i 0]
      simp [xdpLeave, -List.reduceReplicate]
    · refine Machine.meets_of_forall_mem _ ?_ _
      simp [xdpOneSent, xdpLeave, Datapath.ResetsEmpty, or_imp, forall_and, -List.reduceReplicate]

/-- A flood worker has sent three queries and not flushed them when the warm-up ends; after the
reset it sends nothing more and is shut down. -/
def udpResetUnflushed : List (Threads.Event (Fin 1) Udp.Flood.Act EngineStep) :=
  [.thread 0 (.tx .checkShutdown), .thread 0 (.tx (.batch 0 3)), .env (.resetWindow 4),
    .thread 0 (.tx (.flush 5)), .env .storeShutdown, .thread 0 (.tx .checkShutdown),
    .thread 0 (.tx (.exit 9)), .thread 0 (.rx .checkShutdown), .thread 0 (.rx .exit)]

/-- After `xdpOneSent` nothing keeps the engine from its snapshot: the worker is still in its loop,
and the query it counted is not in the snapshot.  After `udpResetUnflushed` the snapshot shows three
queries that were counted before the reset. -/
theorem final_snapshot_incomplete :
    (∃ s s', (Xdp.datapath ⟨0, 3000000000, false⟩ 1).bench.run (Bench.start (Xdp.State.start 1)) xdpOneSent
        = some s ∧
      (Xdp.datapath ⟨0, 3000000000, false⟩ 1).bench.step s (.env .snapshot) = some s' ∧
      (s.state.threads 0).pc = .loopHead ∧
      (s.state.shared.stats.snapshot (fun _ => {}) 1).queriesSent = 0 ∧
      (s.opened 0).localSubmitted = 0 ∧ (s.state.threads 0).localSubmitted = 1) ∧
    (∃ s s', (Udp.Flood.datapath ⟨false, 3000000000⟩ 1).bench.run
        (Bench.start (Udp.Flood.State.start fun _ => 0)) udpResetUnflushed = some s ∧
      (Udp.Flood.datapath ⟨false, 3000000000⟩ 1).bench.step s (.env .snapshot) = some s' ∧
      (s.state.shared.stats.snapshot (fun _ => {}) 1).queriesSent = 3 ∧
      (s.opened 0).tx.submitted = 3 ∧ (s.state.threads 0).tx.submitted = 3) :=
  ⟨⟨_, _, rfl, rfl, rfl, rfl, rfl, rfl⟩, ⟨_, _, rfl, rfl, rfl, rfl, rfl⟩⟩

end Dnsmark.Engine
