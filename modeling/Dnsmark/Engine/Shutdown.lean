import Dnsmark.Common.Batching
import Dnsmark.Stats.Collector

/-!
# The end of a run

`run_with_shutdown` of `src/engine/mod.rs`, from the start of the workers on: after an optional
warm-up it resets the counters, later stores `shutdown`, awaits the handles it holds, and takes the
final snapshot.  The terminal UI and the memory guard may store `shutdown` earlier.  `EngineAct` is
what a running worker can see of that.

What the engine needs of a datapath is a `Datapath`: the worker threads, when the awaited handle of
a worker is ready, and the batched counters with the laws that make them accountable.  Whether
awaiting a handle means waiting for the worker is for the datapath to say.

`Bench` is the engine together with the workers.  It remembers the locals of the workers at the
moment the counters were last zero, so that "counted since the last reset" can be said.
-/

namespace Dnsmark.Engine

open Dnsmark.Stats

/-- A store of the engine that a running worker can see. -/
inductive EngineAct where
  | storeShutdown
  | resetWindow (nowNs : ℕ)
deriving DecidableEq, Repr

namespace EngineAct

/-- The collector after the store. -/
def onStats : EngineAct → StatsCollector → StatsCollector
  | storeShutdown, st => st
  | resetWindow nowNs, st => st.resetWindow nowNs

/-- The shutdown flag after the store. -/
def onShutdown : EngineAct → Bool → Bool
  | storeShutdown, _ => true
  | resetWindow _, b => b

end EngineAct

/-- The datapath of a run, as the engine sees it. -/
structure Datapath (ι τ μ ε : Type*) where
  workers : Threads ι τ μ ε EngineAct
  stats : μ → StatsCollector
  /-- `--ramp`: no warm-up, so no reset. -/
  ramp : Bool
  /-- The task whose handle the engine holds for this worker has returned. -/
  handleReady : τ → Bool
  /-- The worker has left its loop and flushed its accumulators for the last time. -/
  finished : τ → Bool
  /-- What the locals of a worker always satisfy. -/
  Valid : τ → Prop
  sent : workers.Batched Valid fun mem => (stats mem).sent
  completed : workers.Batched Valid fun mem => (stats mem).completed
  valid_step : ∀ {i t mem a t' mem'}, Valid t → workers.step i t mem a = some (t', mem') → Valid t'
  flushed : ∀ {t}, Valid t → finished t = true → sent.pending t = 0 ∧ completed.pending t = 0
  env_stats : ∀ {ts mem k mem'}, workers.env ts mem k = some mem' → stats mem' = k.onStats (stats mem)

/-- How far `run_with_shutdown` is. -/
inductive EnginePc where
  | warmUp
  | measuring
  /-- `shutdown` is stored, the handles are awaited. -/
  | joining
  | done
deriving DecidableEq, Repr

/-- A step of the engine, or of the UI or memory guard (`interrupt`). -/
inductive EngineStep where
  | resetWindow (nowNs : ℕ)
  | skipWarmUp
  | interrupt
  | storeShutdown
  | snapshot
deriving DecidableEq, Repr

/-- The engine, the workers, and the workers' locals when the counters were last set to zero. -/
structure Bench (ι τ μ : Type*) where
  state : Threads.State ι τ μ
  pc : EnginePc
  opened : ι → τ

/-- The engine has just started the workers. -/
def Bench.start {ι τ μ : Type*} (st : Threads.State ι τ μ) : Bench ι τ μ := ⟨st, .warmUp, st.threads⟩

namespace Datapath

variable {ι τ μ ε : Type*} [DecidableEq ι] [Fintype ι] (D : Datapath ι τ μ ε)

/-- One step of a worker or of the engine. -/
def step (s : Bench ι τ μ) : Threads.Event ι ε EngineStep → Option (Bench ι τ μ)
  | .thread i a => (D.workers.machine.step s.state (.thread i a)).map fun st => { s with state := st }
  | .env (.resetWindow nowNs) =>
    if s.pc = .warmUp ∧ D.ramp = false then
      (D.workers.machine.step s.state (.env (.resetWindow nowNs))).map fun st =>
        ⟨st, .measuring, s.state.threads⟩
    else none
  | .env .skipWarmUp => if s.pc = .warmUp then some { s with pc := .measuring } else none
  | .env .interrupt =>
    (D.workers.machine.step s.state (.env .storeShutdown)).map fun st => { s with state := st }
  | .env .storeShutdown =>
    if s.pc = .measuring then
      (D.workers.machine.step s.state (.env .storeShutdown)).map fun st =>
        { s with state := st, pc := .joining }
    else none
  | .env .snapshot =>
    -- `for h in handles { h.await }`, then the snapshot
    if s.pc = .joining ∧ ∀ i, D.handleReady (s.state.threads i) = true then some { s with pc := .done }
    else none

def bench : Machine (Bench ι τ μ) (Threads.Event ι ε EngineStep) := ⟨D.step⟩

/-- Nothing is pending in the locals `f`. -/
def Clean (f : ι → τ) : Prop := ∀ i, D.sent.pending (f i) = 0 ∧ D.completed.pending (f i) = 0

/-- A reset finds every accumulator empty. -/
def ResetsEmpty (s : Bench ι τ μ) : Threads.Event ι ε EngineStep → Prop
  | .env (.resetWindow _) => D.Clean s.state.threads
  | _ => True

/-- Every worker has finished, and `snap` shows exactly what the workers counted since the counters
were last zero. -/
def Complete (s : Bench ι τ μ) (snap : StatsSnapshot) : Prop :=
  (∀ i, D.finished (s.state.threads i) = true) ∧
    snap.queriesSent + ∑ i, D.sent.counted (s.opened i) = ∑ i, D.sent.counted (s.state.threads i) ∧
    snap.queriesCompleted + ∑ i, D.completed.counted (s.opened i)
      = ∑ i, D.completed.counted (s.state.threads i)

/-- Workers that have done nothing yet. -/
structure Fresh (st : Threads.State ι τ μ) : Prop where
  sent : (D.stats st.shared).sent = 0
  completed : (D.stats st.shared).completed = 0
  clean : D.Clean st.threads
  valid : ∀ i, D.Valid (st.threads i)

variable {D}

/-- What a step can be: one of a worker, a reset, or a step of the engine that leaves the counters
and the window alone. -/
theorem step_cases {s s' : Bench ι τ μ} {e : Threads.Event ι ε EngineStep}
    (h : D.bench.step s e = some s') :
    (∃ i a t' mem', e = .thread i a ∧
      D.workers.step i (s.state.threads i) s.state.shared a = some (t', mem') ∧
      s' = { s with state := ⟨Function.update s.state.threads i t', mem'⟩ }) ∨
    (∃ nowNs mem', e = .env (.resetWindow nowNs) ∧ s.pc = .warmUp ∧
      D.stats mem' = (D.stats s.state.shared).resetWindow nowNs ∧
      s' = ⟨⟨s.state.threads, mem'⟩, .measuring, s.state.threads⟩) ∨
    (∃ mem' pc', D.ResetsEmpty s e ∧ (∀ i a, e ≠ .thread i a) ∧ D.stats mem' = D.stats s.state.shared ∧
      (pc' = .warmUp → s.pc = .warmUp) ∧ s' = ⟨⟨s.state.threads, mem'⟩, pc', s.opened⟩) := by
  cases e with
  | thread i a =>
    obtain ⟨st, hst, rfl⟩ := Option.map_eq_some_iff.mp h
    rcases D.workers.machine_step_cases hst with ⟨_, _, t', mem', ⟨⟩, hstep, rfl⟩ | ⟨_, _, ⟨⟩, -⟩
    exact .inl ⟨i, a, t', mem', rfl, hstep, rfl⟩
  | env k =>
    -- a step of the engine on the shared memory changes the collector as `onStats` says
    have henv : ∀ {k st}, D.workers.machine.step s.state (.env k) = some st →
        ∃ mem', D.stats mem' = k.onStats (D.stats s.state.shared) ∧ st = ⟨s.state.threads, mem'⟩ := by
      intro k st hst
      rcases D.workers.machine_step_cases hst with ⟨_, _, _, _, ⟨⟩, -⟩ | ⟨_, mem', ⟨⟩, hk, rfl⟩
      exact ⟨mem', D.env_stats hk, rfl⟩
    cases k with
    | resetWindow nowNs =>
      simp only [bench, step] at h
      split at h
      · rename_i hpc
        obtain ⟨st, hst, rfl⟩ := Option.map_eq_some_iff.mp h
        obtain ⟨mem', hstats, rfl⟩ := henv hst
        exact .inr (.inl ⟨nowNs, mem', rfl, hpc.1, hstats, rfl⟩)
      · cases h
    | skipWarmUp =>
      simp only [bench, step] at h
      split at h <;> cases h
      exact .inr (.inr ⟨s.state.shared, .measuring, trivial, nofun, rfl, nofun, rfl⟩)
    | interrupt =>
      obtain ⟨st, hst, rfl⟩ := Option.map_eq_some_iff.mp h
      obtain ⟨mem', hstats, rfl⟩ := henv hst
      exact .inr (.inr ⟨mem', s.pc, trivial, nofun, hstats, id, rfl⟩)
    | storeShutdown =>
      simp only [bench, step] at h
      split at h
      · obtain ⟨st, hst, rfl⟩ := Option.map_eq_some_iff.mp h
        obtain ⟨mem', hstats, rfl⟩ := henv hst
        exact .inr (.inr ⟨mem', .joining, trivial, nofun, hstats, nofun, rfl⟩)
      · cases h
    | snapshot =>
      simp only [bench, step] at h
      split at h <;> cases h
      exact .inr (.inr ⟨s.state.shared, .done, trivial, nofun, rfl, nofun, rfl⟩)

/-- A snapshot is taken only when every handle is ready. -/
theorem handleReady_of_snapshot {s s' : Bench ι τ μ} (h : D.bench.step s (.env .snapshot) = some s')
    (i : ι) :
    D.handleReady (s.state.threads i) = true := by
  simp only [bench, step] at h
  split at h
  · rename_i hready
    exact hready.2 i
  · cases h

/-! ## Accounting over whole runs -/

/-- The locals are valid and both counters account for their window. -/
structure Accounted (D : Datapath ι τ μ ε) (s : Bench ι τ μ) : Prop where
  valid : ∀ i, D.Valid (s.state.threads i)
  sent : D.sent.Window s.state s.opened
  completed : D.completed.Window s.state s.opened

omit [DecidableEq ι] in
theorem accounted_start {st : Threads.State ι τ μ} (h : D.Fresh st) : D.Accounted (Bench.start st) where
  valid := h.valid
  sent := D.sent.window_open h.sent
  completed := D.completed.window_open h.completed

theorem accounted_step {s s' : Bench ι τ μ} {e : Threads.Event ι ε EngineStep} (hs : D.Accounted s)
    (h : D.bench.step s e = some s') : D.Accounted s' := by
  rcases step_cases h with ⟨i, a, t', mem', -, hstep, rfl⟩ | ⟨nowNs, mem', -, -, hstats, rfl⟩ |
    ⟨mem', pc', -, -, hstats, -, rfl⟩
  · refine ⟨?_, D.sent.window_thread hs.sent (hs.valid i) hstep,
      D.completed.window_thread hs.completed (hs.valid i) hstep⟩
    exact (Function.forall_update_iff s.state.threads fun _ => D.Valid).mpr
      ⟨D.valid_step (hs.valid i) hstep, fun j _ => hs.valid j⟩
  · -- the reset opens a new window
    refine ⟨hs.valid, D.sent.window_open ?_, D.completed.window_open ?_⟩
    · rw [hstats]
      rfl
    · rw [hstats]
      rfl
  · refine ⟨hs.valid, D.sent.window_of_read_eq hs.sent ?_, D.completed.window_of_read_eq hs.completed ?_⟩
    · rw [hstats]
    · rw [hstats]

/-- The window was opened with nothing pending exactly when every reset of the run found the
accumulators empty. -/
theorem clean_opened_iff {st : Threads.State ι τ μ} (hfresh : D.Fresh st)
    {es : List (Threads.Event ι ε EngineStep)} {s : Bench ι τ μ}
    (hrun : D.bench.run (Bench.start st) es = some s) :
    D.Clean s.opened ↔ D.bench.Meets D.ResetsEmpty (Bench.start st) es := by
  -- the drift is whether something was pending; before the only reset nothing was
  have hdrift := D.bench.drift_eq_iff_meets (I := fun s => s.pc = .warmUp → D.Clean s.opened)
    (C := D.ResetsEmpty) (d := fun s => ¬ D.Clean s.opened) ?_ ?_ ?_ (fun _ => hfresh.clean) hrun
  · rw [← hdrift]
    have hstart : D.Clean (Bench.start st).opened := hfresh.clean
    simp only [hstart, not_true_eq_false, eq_iff_iff, iff_false, not_not]
  · intro s e s' hs h hpc
    rcases step_cases h with ⟨_, _, _, _, -, -, rfl⟩ | ⟨_, _, -, -, -, rfl⟩ | ⟨_, _, -, -, -, hpc', rfl⟩
    · exact hs hpc
    · cases hpc
    · exact hs (hpc' hpc)
  · intro s e s' hs h hC
    rcases step_cases h with ⟨_, _, _, _, -, -, rfl⟩ | ⟨_, _, rfl, hpc, -, rfl⟩ | ⟨_, _, -, -, -, -, rfl⟩
    · rfl
    · simp only [eq_iff_iff]
      exact not_congr (iff_of_true hC (hs hpc))
    · rfl
  · intro s e s' hs h hC
    rcases step_cases h with ⟨_, _, _, _, rfl, -, rfl⟩ | ⟨_, _, rfl, hpc, -, rfl⟩ | ⟨_, _, hC', -⟩
    · exact absurd trivial hC
    · exact ⟨fun hdirty => absurd (hs hpc) hdirty, fun hle => hle hC (hs hpc)⟩
    · exact absurd hC' hC

/-- After any run from fresh workers: a snapshot is complete if and only if every worker has
finished and every reset found the accumulators empty. -/
theorem complete_iff {st : Threads.State ι τ μ} (hfresh : D.Fresh st)
    {es : List (Threads.Event ι ε EngineStep)} {s : Bench ι τ μ}
    (hrun : D.bench.run (Bench.start st) es = some s) (summary : List ℕ → LatencySummary)
    (elapsedSecs : ℚ) :
    D.Complete s ((D.stats s.state.shared).snapshot summary elapsedSecs) ↔
      (∀ i, D.finished (s.state.threads i) = true) ∧
        D.bench.Meets D.ResetsEmpty (Bench.start st) es := by
  have hacc : D.Accounted s :=
    D.bench.run_invariant (fun _ _ _ hs h => accounted_step hs h) (accounted_start hfresh) hrun
  rw [← clean_opened_iff hfresh hrun]
  refine and_congr_right fun hfin => ?_
  have hsent := D.sent.exact_iff_of_flushed hacc.sent fun i => (D.flushed (hacc.valid i) (hfin i)).1
  have hcompleted :=
    D.completed.exact_iff_of_flushed hacc.completed fun i => (D.flushed (hacc.valid i) (hfin i)).2
  exact (and_congr hsent hcompleted).trans forall_and.symm

end Datapath

end Dnsmark.Engine
