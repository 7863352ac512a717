import Dnsmark.Udp.Gate
import Mathlib.Tactic.Linarith

/-!
# Query conservation across the closed-loop workers

Any number of `closed_loop_unified` workers share one `StatsCollector`; the engine may call
`reset_window` on it while they run.  `pool` is that system: the threads are the workers, the memory
is the collector, and an event list is one interleaving of their sends, drains and sweeps.

Every query a worker counts as sent stays in its `outstanding` until it is counted as completed or
timed out, so `sent - completed - timeouts` minus the outstanding queries never changes
(`balance_run`).  It is zero at the start.  A reset zeroes the counters but not the workers, which
leaves the balance at minus the queries in flight at that moment.
-/

namespace Dnsmark.Udp

open Dnsmark.Stats

/-- The workers over the shared collector.  The surroundings are the engine's `reset_window`. -/
def pool (cfg : Config) (N : ℕ) : Threads (Fin N) Worker StatsCollector Event ℕ where
  step _ w st e := Worker.step cfg (w, st) e
  env _ st elapsedNs := some (st.resetWindow elapsedNs)

/-- The workers and their collector. -/
abbrev PoolState (N : ℕ) := Threads.State (Fin N) Worker StatsCollector

/-- The pool as the engine starts it. -/
def PoolState.start {N : ℕ} (nextId : Fin N → QueryId) : PoolState N where
  threads i := Worker.new (nextId i)
  shared := StatsCollector.new

/-- All queries in flight. -/
def PoolState.outstanding {N : ℕ} (s : PoolState N) : ℕ := ∑ i, (s.threads i).outstanding

/-- An interleaving of worker steps, without a reset. -/
def workerSteps {N : ℕ} (es : List (Fin N × Event)) : List (Threads.Event (Fin N) Event ℕ) :=
  es.map fun e => .thread e.1 e.2

/-! ## One step of one worker -/

/-- Queries counted as sent and not yet as completed or timed out. -/
def unsettled (st : StatsCollector) : ℤ := st.sent - st.completed - st.timeouts

/-- Either way of reporting a reply settles one query. -/
theorem unsettled_report (cfg : Config) (st : StatsCollector) (rcode rttNs : ℕ) :
    unsettled (Worker.report cfg st rcode rttNs) = unsettled st - 1 := by
  unfold Worker.report
  split
  · simp only [unsettled, StatsCollector.recordResponse_sent,
      StatsCollector.recordResponse_completed, StatsCollector.recordResponse_timeouts]
    push_cast
    ring
  · simp only [unsettled, StatsCollector.recordRcodes_sent, StatsCollector.recordRcodes_completed,
      StatsCollector.recordRcodes_timeouts, RcodeCounts.total_one]
    push_cast
    ring

/-- A receive batch settles as many queries as it takes off `outstanding`. -/
theorem unsettled_recv {cfg : Config} {p : Worker × StatsCollector}
    (hw : Worker.Accounted cfg p.1) (recvNs : ℕ) (msgs : List Datagram) :
    unsettled (msgs.foldl (Worker.recvOne cfg recvNs) p).2
        - (msgs.foldl (Worker.recvOne cfg recvNs) p).1.outstanding
      = unsettled p.2 - p.1.outstanding := by
  refine (Worker.recv_induction cfg
    (P := fun q => Worker.Accounted cfg q.1 ∧
      unsettled q.2 - q.1.outstanding = unsettled p.2 - p.1.outstanding) recvNs ?_ p msgs
    ⟨hw, rfl⟩).2
  rintro q id rcode ⟨hq, hbal⟩ hs
  have hpos := (SlotTable.occupancy_pos hs).trans_le hq.occupancy_le
  refine ⟨(hq.complete hs).1, ?_⟩
  rw [unsettled_report, Worker.complete_outstanding, ← hbal]
  omega

/-- A sweep settles as many queries as it takes off `outstanding`. -/
theorem unsettled_sweep {cfg : Config} {p : Worker × StatsCollector}
    (hw : Worker.Accounted cfg p.1) (nowNs : ℕ) :
    unsettled (Worker.sweep cfg nowNs p).2 - (Worker.sweep cfg nowNs p).1.outstanding
      = unsettled p.2 - p.1.outstanding := by
  have hout := (hw.sweep nowNs).2.2
  have hst : unsettled (Worker.sweep cfg nowNs p).2
      = unsettled p.2 - p.1.slots.staleCount (Worker.expired cfg nowNs) := by
    obtain ⟨h, hzero⟩ | h := Worker.sweep_eq cfg nowNs p
    · rw [h, hzero]
      simp
    · rw [h]
      simp only [unsettled, StatsCollector.incTimeouts_sent, StatsCollector.incTimeouts_completed,
        StatsCollector.incTimeouts_timeouts]
      push_cast
      ring
  rw [hst]
  omega

/-- A step of a worker changes what is unsettled exactly by what it changes in `outstanding`. -/
theorem unsettled_step {cfg : Config} {w w' : Worker} {st st' : StatsCollector} {e : Event}
    (hw : Worker.Accounted cfg w) (h : Worker.step cfg (w, st) e = some (w', st')) :
    unsettled st' - w'.outstanding = unsettled st - w.outstanding := by
  obtain ⟨t, -, -, hp⟩ | ⟨b, -, -, hp⟩ | ⟨t, msgs, -, hp⟩ | ⟨t, -, hp⟩ := Worker.step_cases h
  · obtain ⟨rfl, rfl⟩ := Prod.mk.inj hp
    simp only [unsettled, StatsCollector.incSent_sent, StatsCollector.incSent_completed,
      StatsCollector.incSent_timeouts, Worker.sent_outstanding]
    push_cast
    ring
  · obtain ⟨rfl, rfl⟩ := Prod.mk.inj hp
    cases b <;> rfl
  · have hrecv := unsettled_recv (p := (w, st)) hw t msgs
    rwa [← hp] at hrecv
  · have hsweep := unsettled_sweep (p := (w, st)) hw t
    rwa [← hp] at hsweep

/-! ## Whole interleavings -/

section Runs

variable {cfg : Config} {N : ℕ}

/-- Every worker's accounts hold. -/
def AllAccounted (cfg : Config) (s : PoolState N) : Prop :=
  ∀ i, Worker.Accounted cfg (s.threads i)

theorem allAccounted_start (cfg : Config) (nextId : Fin N → QueryId) :
    AllAccounted cfg (PoolState.start nextId) := fun i => Worker.accounted_new cfg (nextId i)

/-- The accounts survive every step, resets included. -/
theorem allAccounted_step (s : PoolState N) (e : Threads.Event (Fin N) Event ℕ) (s' : PoolState N)
    (hs : AllAccounted cfg s) (h : (pool cfg N).machine.step s e = some s') :
    AllAccounted cfg s' :=
  (pool cfg N).forall_threads_invariant (J := fun _ w => Worker.Accounted cfg w)
    (fun _ w st a w' st' hw hstep => Worker.accounted_step (w, st) a (w', st') hw hstep) s e s' hs h

/-- What is unsettled in the collector, less what the workers have outstanding. -/
def balance (s : PoolState N) : ℤ :=
  Threads.total unsettled (fun w => -(w.outstanding : ℤ)) s

theorem balance_eq (s : PoolState N) :
    balance s = s.shared.sent - s.shared.completed - s.shared.timeouts - s.outstanding := by
  simp only [balance, Threads.total, unsettled, PoolState.outstanding, Finset.sum_neg_distrib]
  push_cast
  ring

/-- A worker step keeps the balance. -/
theorem balance_thread {s s' : PoolState N} {i : Fin N} {e : Event} (hs : AllAccounted cfg s)
    (h : (pool cfg N).machine.step s (.thread i e) = some s') : balance s' = balance s := by
  obtain ⟨j, a, w', st', he, hstep, rfl⟩ | ⟨k, st', he, -, -⟩ := (pool cfg N).machine_step_cases h
  · have hlocal := unsettled_step (hs j) hstep
    rw [balance, Threads.total_thread, Threads.growth]
    simp only [balance]
    linarith
  · cases he

/-- An interleaving of worker steps keeps the accounts and the balance. -/
theorem balance_run {s s' : PoolState N} {es : List (Fin N × Event)} (hs : AllAccounted cfg s)
    (h : (pool cfg N).machine.run s (workerSteps es) = some s') :
    AllAccounted cfg s' ∧ balance s' = balance s := by
  induction es generalizing s with
  | nil =>
    obtain rfl : s = s' := by simpa [workerSteps] using h
    exact ⟨hs, rfl⟩
  | cons e es ih =>
    obtain ⟨t, ht, hrun⟩ := (pool cfg N).machine.run_cons_eq_some.mp h
    obtain ⟨hacc, hbal⟩ := ih (allAccounted_step s _ t hs ht) hrun
    exact ⟨hacc, hbal.trans (balance_thread hs ht)⟩

end Runs

/-- The accounting law: in every interleaving of any number of workers, every query counted as sent
is completed, timed out or outstanding; every worker's occupied slots, counter and gate are ordered,
no `saturating_sub` has clamped, and the snapshot's loss equation is exact. -/
theorem queries_conserved (cfg : Config) (N : ℕ) (nextId : Fin N → QueryId)
    (es : List (Fin N × Event)) (s : PoolState N)
    (h : (pool cfg N).machine.run (PoolState.start nextId) (workerSteps es) = some s) :
    s.shared.sent = s.shared.completed + s.shared.timeouts + s.outstanding ∧
    (∀ i, (s.threads i).slots.occupancy ≤ (s.threads i).outstanding ∧
      (s.threads i).outstanding ≤ cfg.maxOutstanding ∧
      ∀ q ∈ (s.threads i).satSubs, q.2 ≤ q.1) ∧
    s.shared.completed ≤ s.shared.sent ∧
    ∀ summary elapsedSecs, (s.shared.snapshot summary elapsedSecs).queriesSent =
      (s.shared.snapshot summary elapsedSecs).queriesCompleted +
        (s.shared.snapshot summary elapsedSecs).queriesLost := by
  obtain ⟨hacc, hbal⟩ := balance_run (allAccounted_start cfg nextId) h
  have hzero : balance (PoolState.start nextId) = 0 := by
    rw [balance_eq]
    simp [PoolState.start, PoolState.outstanding, Worker.new]
  have heq : s.shared.sent = s.shared.completed + s.shared.timeouts + s.outstanding := by
    rw [hzero, balance_eq] at hbal
    omega
  have hle : s.shared.completed ≤ s.shared.sent := by omega
  exact ⟨heq, fun i => ⟨(hacc i).occupancy_le, (hacc i).outstanding_le, (hacc i).exact_subs⟩, hle,
    fun summary t => (StatsCollector.snapshot_balanced_iff summary s.shared t).mpr hle⟩

/-- The witness for `queries_conserved`: two workers, one reply, one query left in flight. -/
theorem queries_conserved_two_workers :
    ∃ s : PoolState 2, (pool Worker.lossyConfig 2).machine.run (PoolState.start fun _ => 7)
        (workerSteps [(0, .send 5), (1, .send 9), (0, .recv 900 [replyTo 7])]) = some s ∧
      s.shared.sent = s.shared.completed + s.shared.timeouts + s.outstanding ∧
      s.shared.completed ≤ s.shared.sent :=
  ⟨_, rfl, (queries_conserved Worker.lossyConfig 2 (fun _ => 7)
      [(0, .send 5), (1, .send 9), (0, .recv 900 [replyTo 7])] _ rfl).1,
    (queries_conserved Worker.lossyConfig 2 (fun _ => 7)
      [(0, .send 5), (1, .send 9), (0, .recv 900 [replyTo 7])] _ rfl).2.2.1⟩

/-! ## The warm-up reset -/

/-- With one reset in the run, the snapshot at the end is balanced exactly when no more queries were
in flight at the reset than are timed out after it or still in flight at the end. -/
theorem snapshot_balanced_after_reset_iff (cfg : Config) (N : ℕ) (nextId : Fin N → QueryId)
    (es es' : List (Fin N × Event)) (elapsedNs : ℕ) (s₁ s : PoolState N)
    (h₁ : (pool cfg N).machine.run (PoolState.start nextId) (workerSteps es) = some s₁)
    (h : (pool cfg N).machine.run s₁ (.env elapsedNs :: workerSteps es') = some s)
    (summary : List ℕ → LatencySummary) (elapsedSecs : ℚ) :
    (s.shared.snapshot summary elapsedSecs).queriesSent =
        (s.shared.snapshot summary elapsedSecs).queriesCompleted +
          (s.shared.snapshot summary elapsedSecs).queriesLost ↔
      s₁.outstanding ≤ s.shared.timeouts + s.outstanding := by
  obtain ⟨hacc, -⟩ := balance_run (allAccounted_start cfg nextId) h₁
  obtain ⟨s₂, hreset, hrun⟩ := (pool cfg N).machine.run_cons_eq_some.mp h
  have hs₂ : s₂ = ⟨s₁.threads, s₁.shared.resetWindow elapsedNs⟩ := (Option.some.inj hreset).symm
  -- the reset zeroes the counters and leaves every worker as it is
  have hbal₂ : balance s₂ = -s₁.outstanding := by
    rw [hs₂, balance_eq]
    simp [PoolState.outstanding]
  obtain ⟨-, hbal⟩ := balance_run (allAccounted_step s₁ _ s₂ hacc hreset) hrun
  rw [hbal₂, balance_eq] at hbal
  rw [StatsCollector.snapshot_balanced_iff]
  omega

/-- One query straddles the reset and is answered after it, but another sent after the reset stays in
flight, and the snapshot is balanced. -/
theorem snapshot_balanced_one_straddles :
    ∃ s₁ s : PoolState 1, (pool Worker.lossyConfig 1).machine.run (PoolState.start fun _ => 0)
        (workerSteps [(0, .send 5)]) = some s₁ ∧
      (pool Worker.lossyConfig 1).machine.run s₁
        (.env 50 :: workerSteps [(0, .send 60), (0, .recv 900 [replyTo 0])]) = some s ∧
      s₁.outstanding = 1 ∧
      (s.shared.snapshot (fun _ => {}) 1).queriesSent =
        (s.shared.snapshot (fun _ => {}) 1).queriesCompleted +
          (s.shared.snapshot (fun _ => {}) 1).queriesLost :=
  ⟨_, _, rfl, rfl, rfl, (snapshot_balanced_after_reset_iff Worker.lossyConfig 1 (fun _ => 0)
    [(0, .send 5)] [(0, .send 60), (0, .recv 900 [replyTo 0])] 50 _ _ rfl rfl _ 1).mpr (by decide)⟩

/-- A query sent before the reset and answered after it is completed without having been sent: the
snapshot reports 0 sent, 1 completed, 0 lost. -/
theorem snapshot_unbalanced_after_reset :
    ∃ s, (pool Worker.lossyConfig 1).machine.run (PoolState.start fun _ => 0)
        (workerSteps [(0, .send 5)] ++ .env 50 :: workerSteps [(0, .recv 900 [replyTo 0])])
          = some s ∧
      (s.shared.snapshot (fun _ => {}) 1).queriesSent = 0 ∧
      (s.shared.snapshot (fun _ => {}) 1).queriesCompleted = 1 ∧
      (s.shared.snapshot (fun _ => {}) 1).queriesLost = 0 := ⟨_, rfl, rfl, rfl, rfl⟩

end Dnsmark.Udp
