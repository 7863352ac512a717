import Dnsmark.Common.Machine
import Dnsmark.Engine.Bracket
import Dnsmark.Stats.Collector

/-!
# The ramp task

The task that `run_with_shutdown` of `src/engine/mod.rs` spawns for `--ramp`.  It writes the rate of each
step to the cell the workers read, waits, measures a window of four seconds, and hands what was served
and the median latency to the controller, until the controller saturates or the run is shut down.

An event is one of its waits coming to an end, with what the task then reads: the shutdown flag, the
collector, and the receive counters of the return NICs.  `Stepped` is the one description of what an
event does; every ramp run below is a run of `rampTask`.
-/

namespace Dnsmark.Engine

open Dnsmark.Stats

/-- The rate of one worker: `(total / concurrent.max(1)).max(1)`. -/
def perWorker (total concurrent : ℕ) : ℕ := max (total / max concurrent 1) 1

/-- `rx_hw`: the sum of the counters that could be read, if any. -/
def rxHw (counters : List (Option ℕ)) : Option ℕ :=
  if counters.any Option.isSome then some (counters.filterMap id).sum else none

/-- `served_qps`: replies counted by the NICs over the four seconds, or else what was sent. -/
def servedQps (rx0 rx1 : Option ℕ) (sentW : ℕ) : ℕ :=
  match rx0, rx1 with
  | some a, some b => if a ≤ b then (b - a) / 4 else sentW / 4
  | _, _ => sentW / 4

/-- The line printed for a step, with the target it tried and the verdict. -/
structure RampStep where
  targetQps : ℕ
  offeredQps : ℕ
  servedQps : ℕ
  latency : StepLatency
  ok : Bool
deriving DecidableEq, Repr

/-- The verdict of a step. -/
def RampStep.verdict (w : RampStep) : Verdict := ⟨w.targetQps, w.ok⟩

/-- What is printed at saturation, and what `advance` returned. -/
structure RampSummary where
  idleUs : ℕ
  capacityQps : ℕ
  withinSloQps : ℕ
  sloUs : ℕ
  bracket : ℕ × ℕ
  report : Report
deriving DecidableEq, Repr

/-- How far the task is. -/
inductive RampPc where
  /-- Before the pre-ramp prime. -/
  | prime
  | priming
  /-- At the top of the loop. -/
  | top
  | warming
  /-- In the measured window, with the counters read at its start. -/
  | measuring (sentW0 : ℕ) (rx0 : Option ℕ)
  | saturated (summary : RampSummary)
  /-- Left because of `shutdown`. -/
  | stopped
deriving DecidableEq, Repr

/-- What the task waits for, with what it reads afterwards. -/
inductive RampEvent where
  | prime
  | skipPrime
  | primed (shutdown : Bool)
  | storeRate
  | openWindow (shutdown : Bool) (st : StatsCollector) (rx : List (Option ℕ))
  | closeWindow (shutdown : Bool) (st : StatsCollector) (rx : List (Option ℕ))
deriving DecidableEq, Repr

/-- The fixed parameters of the task; `primeSecs` is `DNSMARK_RAMP_PRIME`. -/
structure RampConfig where
  useXdp : Bool
  concurrent : ℕ
  primeSecs : ℕ
deriving DecidableEq, Repr

/-- The task: its locals, the rate cell it shares with the workers, and the lines it has printed,
newest first. -/
structure RampTask where
  ctrl : RampController
  bestOkServed : ℕ := 0
  peakServed : ℕ := 0
  qpsPerWorker : ℕ
  steps : List RampStep := []
  pc : RampPc := .prime
deriving DecidableEq, Repr

namespace RampTask

/-- The task is spawned; the cell holds what the start-up left there. -/
def start (cfg : RampConfig) (qpsPerWorker : ℕ) : RampTask where
  ctrl := .new cfg.useXdp
  qpsPerWorker := qpsPerWorker

/-- The window that ends: its target, what was offered and served, its latency, and the verdict. -/
def window (summary : List ℕ → LatencySummary) (t : RampTask) (sentW0 : ℕ) (rx0 : Option ℕ)
    (st : StatsCollector) (rx1 : Option ℕ) : RampStep :=
  let latency := (st.rampStepLatency summary).1
  let sentW := st.sent - sentW0
  let served := Engine.servedQps rx0 rx1 sentW
  let ok := (t.ctrl.observe latency.p50Us).sustained served latency.p50Us
  ⟨t.ctrl.currentQps, sentW / 4, served, latency, ok⟩

/-- The window that an event ends, if it does. -/
def closed (summary : List ℕ → LatencySummary) (t : RampTask) : RampEvent → Option RampStep
  | .closeWindow false st rx =>
    match t.pc with
    | .measuring sentW0 rx0 => some (t.window summary sentW0 rx0 st (rxHw rx))
    | _ => none
  | _ => none

/-- What the task does with a window. -/
def measure (cfg : RampConfig) (t : RampTask) (w : RampStep) : RampTask :=
  let peakServed := max t.peakServed w.servedQps
  let advanced := t.ctrl.advance w.servedQps w.latency.p50Us
  let ctrl := advanced.1
  let report := advanced.2
  let bestOkServed :=
    if w.latency.p50Us ≤ ctrl.thresholdUs then max t.bestOkServed w.servedQps else t.bestOkServed
  let steps := w :: t.steps
  if report.saturated then
    { t with
      ctrl, bestOkServed, peakServed, steps
      pc := .saturated
        ⟨ctrl.baselineUs, peakServed, bestOkServed, ctrl.thresholdUs, ctrl.bracket, report⟩ }
  else
    { t with
      ctrl, bestOkServed, peakServed, steps
      qpsPerWorker := perWorker report.newTargetQps cfg.concurrent
      pc := .top }

/-- What an event does; `none` when the task is not waiting for it. -/
def step (summary : List ℕ → LatencySummary) (cfg : RampConfig) (t : RampTask) :
    RampEvent → Option RampTask
  | .prime =>
    if t.pc = .prime ∧ 0 < cfg.primeSecs then
      some { t with qpsPerWorker := perWorker t.ctrl.currentQps cfg.concurrent, pc := .priming }
    else none
  | .skipPrime => if t.pc = .prime ∧ cfg.primeSecs = 0 then some { t with pc := .top } else none
  | .primed shutdown =>
    if t.pc = .priming then some { t with pc := if shutdown then .stopped else .top } else none
  | .storeRate =>
    if t.pc = .top then
      some { t with qpsPerWorker := perWorker t.ctrl.currentQps cfg.concurrent, pc := .warming }
    else none
  | .openWindow shutdown st rx =>
    if t.pc = .warming then
      some { t with pc := if shutdown then .stopped else .measuring st.sent (rxHw rx) }
    else none
  | .closeWindow shutdown st rx =>
    match t.pc with
    | .measuring sentW0 rx0 =>
      if shutdown then some { t with pc := .stopped }
      else some (t.measure cfg (t.window summary sentW0 rx0 st (rxHw rx)))
    | _ => none

end RampTask

/-- The ramp task as a machine. -/
def rampTask (summary : List ℕ → LatencySummary) (cfg : RampConfig) : Machine RampTask RampEvent :=
  ⟨RampTask.step summary cfg⟩

namespace RampTask

variable {summary : List ℕ → LatencySummary} {cfg : RampConfig} {t t' : RampTask} {e : RampEvent}

/-! ## What an event does -/

/-- The workers are paced at the rate of the step. -/
def Paced : RampPc → Prop
  | .priming | .warming | .measuring _ _ => True
  | _ => False

/-- Between two windows only the rate and the place in the code change.  The end of a window is
`measure`. -/
inductive Stepped (summary : List ℕ → LatencySummary) (cfg : RampConfig) (t : RampTask)
    (e : RampEvent) : RampTask → Prop
  | waited (qps : ℕ) (pc : RampPc) (hrun : ∀ s, t.pc ≠ .saturated s)
      (hpc : ∀ s, pc ≠ .saturated s) (hopen : t.closed summary e = none)
      (hrate : Paced pc → qps = perWorker t.ctrl.currentQps cfg.concurrent ∨
        Paced t.pc ∧ qps = t.qpsPerWorker) :
      Stepped summary cfg t e { t with qpsPerWorker := qps, pc := pc }
  | measured (w : RampStep) (hrun : ∀ s, t.pc ≠ .saturated s)
      (hw : t.closed summary e = some w) :
      Stepped summary cfg t e (t.measure cfg w)

theorem step_stepped (h : (rampTask summary cfg).step t e = some t') :
    Stepped summary cfg t e t' := by
  have hrunning : ∀ {pc : RampPc}, t.pc = pc → (∀ s, pc ≠ .saturated s) → ∀ s, t.pc ≠ .saturated s :=
    fun hpc hne => hpc ▸ hne
  cases e with
  | prime =>
    obtain ⟨⟨hpc, -⟩, ⟨⟩⟩ := Option.ite_none_right_eq_some.mp h
    exact .waited _ .priming (hrunning hpc nofun) nofun rfl fun _ => .inl rfl
  | skipPrime =>
    obtain ⟨⟨hpc, -⟩, ⟨⟩⟩ := Option.ite_none_right_eq_some.mp h
    exact .waited t.qpsPerWorker .top (hrunning hpc nofun) nofun rfl nofun
  | primed shutdown =>
    obtain ⟨hpc, ⟨⟩⟩ := Option.ite_none_right_eq_some.mp h
    cases shutdown <;> exact .waited t.qpsPerWorker _ (hrunning hpc nofun) nofun rfl nofun
  | storeRate =>
    obtain ⟨hpc, ⟨⟩⟩ := Option.ite_none_right_eq_some.mp h
    exact .waited _ .warming (hrunning hpc nofun) nofun rfl fun _ => .inl rfl
  | openWindow shutdown st rx =>
    obtain ⟨hpc, ⟨⟩⟩ := Option.ite_none_right_eq_some.mp h
    cases shutdown
    · exact .waited t.qpsPerWorker _ (hrunning hpc nofun) nofun rfl
        fun _ => .inr ⟨hpc ▸ trivial, rfl⟩
    · exact .waited t.qpsPerWorker _ (hrunning hpc nofun) nofun rfl nofun
  | closeWindow shutdown st rx =>
    simp only [rampTask, step] at h
    split at h
    · rename_i sentW0 rx0 hpc
      cases shutdown with
      | true =>
        obtain rfl := Option.some.inj h
        exact .waited t.qpsPerWorker .stopped (hrunning hpc nofun) nofun rfl nofun
      | false =>
        obtain rfl := Option.some.inj h
        exact .measured _ (hrunning hpc nofun) (by simp only [closed, hpc])
    · exact nomatch h

/-- The window that ends is the one being measured. -/
theorem exists_window_of_closed {w : RampStep} (h : t.closed summary e = some w) :
    ∃ sentW0 rx0 st rx1, w = t.window summary sentW0 rx0 st rx1 := by
  unfold closed at h
  split at h
  · split at h
    · exact ⟨_, _, _, _, (Option.some.inj h).symm⟩
    · exact nomatch h
  · exact nomatch h

/-- A window that ends was measured at the current target, and judged by it. -/
theorem closed_judged {w : RampStep} (h : t.closed summary e = some w) :
    w.targetQps = t.ctrl.currentQps ∧
      w.ok = (t.ctrl.observe w.latency.p50Us).sustained w.servedQps w.latency.p50Us := by
  obtain ⟨sentW0, rx0, st, rx1, rfl⟩ := exists_window_of_closed h
  exact ⟨rfl, rfl⟩

/-- A window without a latency sample ends with the median 0. -/
theorem closed_silent {w : RampStep} (h : t.closed summary e = some w) (hsilent : w.latency.samples = 0) :
    w.latency.p50Us = 0 := by
  obtain ⟨sentW0, rx0, st, rx1, rfl⟩ := exists_window_of_closed h
  simp only [window, StatsCollector.rampStepLatency] at hsilent ⊢
  split at hsilent
  · rename_i hempty
    rw [if_pos hempty]
  · rename_i hne
    exact absurd (List.length_eq_zero_iff.mp hsilent) hne

section Measure

variable (cfg : RampConfig) (t : RampTask) (w : RampStep)

@[simp] theorem measure_ctrl :
    (t.measure cfg w).ctrl = (t.ctrl.advance w.servedQps w.latency.p50Us).1 := by
  simp only [measure]
  split <;> rfl

@[simp] theorem measure_steps : (t.measure cfg w).steps = w :: t.steps := by
  simp only [measure]
  split <;> rfl

theorem measure_bestOkServed :
    (t.measure cfg w).bestOkServed
      = if w.latency.p50Us ≤ (t.measure cfg w).ctrl.thresholdUs then max t.bestOkServed w.servedQps
        else t.bestOkServed := by
  rw [measure_ctrl]
  by_cases hsat : (t.ctrl.advance w.servedQps w.latency.p50Us).2.saturated = true
  · simp only [measure, if_pos hsat]
  · simp only [measure, if_neg hsat]

/-- A window ends at the top of the loop, or ends the ramp with a summary. -/
theorem measure_cases :
    (t.ctrl.advance w.servedQps w.latency.p50Us).2.saturated = false ∧ (t.measure cfg w).pc = .top ∨
      ∃ s, (t.ctrl.advance w.servedQps w.latency.p50Us).2.saturated = true ∧
        (t.measure cfg w).pc = .saturated s ∧
        s.report = (t.ctrl.advance w.servedQps w.latency.p50Us).2 ∧
        s.withinSloQps = (t.measure cfg w).bestOkServed ∧
        s.sloUs = (t.measure cfg w).ctrl.thresholdUs := by
  cases hsat : (t.ctrl.advance w.servedQps w.latency.p50Us).2.saturated with
  | false =>
    refine .inl ⟨rfl, ?_⟩
    simp only [measure, hsat, Bool.false_eq_true, if_false]
  | true =>
    refine .inr ?_
    simp only [measure, if_pos hsat]
    exact ⟨_, trivial, rfl, rfl, rfl, rfl⟩

/-- A window that does not end the ramp leaves the rate of the next target. -/
theorem measure_qpsPerWorker (h : (t.measure cfg w).pc = .top) :
    (t.measure cfg w).qpsPerWorker
      = perWorker (t.measure cfg w).ctrl.currentQps cfg.concurrent := by
  have hgo : (t.ctrl.advance w.servedQps w.latency.p50Us).2.saturated = false := by
    obtain ⟨hgo, -⟩ | ⟨s, -, hs, -⟩ := measure_cases cfg t w
    · exact hgo
    · exact nomatch hs.symm.trans h
  rw [measure_ctrl]
  simp only [measure, hgo, Bool.false_eq_true, if_false]
  rw [Session.newTarget_of_moved (t.ctrl.advance_moved w.servedQps w.latency.p50Us) hgo]

end Measure

/-! ## The controller and the lines -/

/-- What the controller remembers is the extremes of the printed lines. -/
theorem tracks_measure (w : RampStep) (htarget : w.targetQps = t.ctrl.currentQps)
    (hok : w.ok = (t.ctrl.observe w.latency.p50Us).sustained w.servedQps w.latency.p50Us)
    (h : Session.Tracks (t.steps.map (·.verdict)) t.ctrl) :
    Session.Tracks ((t.measure cfg w).steps.map (·.verdict)) (t.measure cfg w).ctrl := by
  have hmoved := (h.observe w.latency.p50Us).moved
    (t.ctrl.advance_moved w.servedQps w.latency.p50Us)
  rw [measure_ctrl, measure_steps, List.map_cons, RampStep.verdict, htarget, hok,
    ← t.ctrl.observe_currentQps w.latency.p50Us]
  exact hmoved

end RampTask

end Dnsmark.Engine
