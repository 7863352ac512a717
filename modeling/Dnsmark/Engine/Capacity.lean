import Dnsmark.Engine.Knee
import Dnsmark.Engine.WithinSlo

/-!
# The printed capacity

The ramp against a server that answers at most `capacity` queries a second.  The task sees it only through
the receive counters of the NICs and the median latency, and loads it only through the rate cell of the
workers; the division of a target among the workers drops a remainder.  The workers are taken to deliver
what the cell says.  On kernel UDP their gate can keep them from it, and the figure is then not the server's,
as the printed text says.

The search stops doubling at the first step that is not sustained.  A step that does not overload the
server is sustained: its latency is within the SLO, whatever floor was seen so far, and the workers lose
less than a fifth of the target to the division.  So the step that ends the doubling overloads the server,
the NICs count `capacity` replies a second during it, and no other step counts more (`Probing`).  This is
what is printed, wherever the bisection goes from there.
-/

namespace Dnsmark.Engine

open Dnsmark.Stats

/-- A server that answers at most `capacity` queries a second, never with a median below `idleUs`. -/
structure LimitedServer where
  capacity : ℕ
  idleUs : ℕ
  idleUs_pos : 0 < idleUs

namespace LimitedServer

variable (env : LimitedServer)

/-- The replies to `offered` queries a second. -/
def answers (offered : ℕ) : ℕ := min offered env.capacity

/-- The medians it may show under that load.  Without overload they are within the SLO. -/
def Delays (offered p50Us : ℕ) : Prop :=
  env.idleUs ≤ p50Us ∧ (offered ≤ env.capacity → p50Us ≤ sloUs env.idleUs)

instance (offered p50Us : ℕ) : Decidable (env.Delays offered p50Us) :=
  inferInstanceAs (Decidable (_ ∧ (_ → _)))

/-- The end of a window: `workers` workers loaded the server at `qps` queries a second each, and the NICs
counted its replies for four seconds. -/
def Closes (summary : List ℕ → LatencySummary) (workers qps : ℕ) (st : StatsCollector)
    (rx : List (Option ℕ)) : RampPc → Prop
  | .measuring _ rx0 =>
    (∃ a ∈ rx0, rxHw rx = some (a + 4 * env.answers (workers * qps))) ∧
      env.Delays (workers * qps) (st.rampStepLatency summary).1.p50Us
  | _ => True

/-- The windows of a run end like this. -/
def Answered (summary : List ℕ → LatencySummary) (workers : ℕ) (t : RampTask) : RampEvent → Prop
  | .closeWindow false st rx => env.Closes summary workers t.qpsPerWorker st rx t.pc
  | _ => True

instance (summary : List ℕ → LatencySummary) (workers qps : ℕ) (st : StatsCollector)
    (rx : List (Option ℕ)) : (pc : RampPc) → Decidable (env.Closes summary workers qps st rx pc)
  | .measuring _ _ => inferInstanceAs (Decidable (_ ∧ _))
  | .prime | .priming | .top | .warming | .saturated _ | .stopped => .isTrue trivial

instance (summary : List ℕ → LatencySummary) (workers : ℕ) (t : RampTask) :
    (e : RampEvent) → Decidable (env.Answered summary workers t e)
  | .closeWindow false st rx => inferInstanceAs (Decidable (env.Closes _ _ _ st rx t.pc))
  | .closeWindow true _ _ | .prime | .skipPrime | .primed _ | .storeRate | .openWindow _ _ _ =>
    .isTrue trivial

variable {env} {summary : List ℕ → LatencySummary} {workers : ℕ} {t : RampTask} {e : RampEvent}
  {w : RampStep}

/-- What the task makes of such a window. -/
theorem Answered.closed (h : env.Answered summary workers t e) (hw : t.closed summary e = some w) :
    w.servedQps = env.answers (workers * t.qpsPerWorker) ∧
      env.Delays (workers * t.qpsPerWorker) w.latency.p50Us := by
  unfold RampTask.closed at hw
  split at hw
  · split at hw
    · rename_i st rx sentW0 rx0 hpc
      obtain rfl := Option.some.inj hw
      simp only [Answered, Closes, hpc] at h
      obtain ⟨⟨a, rfl, hrx⟩, hdelays⟩ := h
      refine ⟨?_, hdelays⟩
      simp only [RampTask.window, servedQps, hrx, if_pos (Nat.le_add_right a _)]
      omega
    · cases hw
  · cases hw

end LimitedServer

/-! ## The load of a target -/

/-- The division among the workers drops less than one query for each of them. -/
theorem lt_workers_mul_perWorker {concurrent : ℕ} (h : 0 < concurrent) (total : ℕ) :
    total < concurrent * perWorker total concurrent + concurrent := by
  have hdiv := Nat.div_add_mod total concurrent
  have hmod := Nat.mod_lt total h
  have hle : concurrent * (total / concurrent) ≤ concurrent * perWorker total concurrent := by
    refine Nat.mul_le_mul_left concurrent ?_
    rw [perWorker, Nat.max_eq_left h]
    exact Nat.le_max_left _ _
  omega

/-- The workers that a ramp loads the server with: those it divides the target by, on kernel UDP at most a
fifth of the first target. -/
def Divides (cfg : RampConfig) (workers : ℕ) : Prop :=
  cfg.useXdp = false → workers = cfg.concurrent ∧ 0 < cfg.concurrent ∧ 5 * cfg.concurrent ≤ startQps

theorem Divides.offerOk {cfg : RampConfig} {workers target : ℕ} (h : Divides cfg workers)
    (hudp : cfg.useXdp = false) (htarget : startQps ≤ target) :
    RampController.offerOk target (workers * perWorker target cfg.concurrent) = true := by
  obtain ⟨rfl, hpos, hle⟩ := h hudp
  have hlt := lt_workers_mul_perWorker hpos target
  rw [RampController.offerOk, decide_eq_true_iff]
  omega

/-! ## The steps of the search -/

section Measure

variable (cfg : RampConfig) (t : RampTask) (w : RampStep)

theorem RampTask.measure_peakServed : (t.measure cfg w).peakServed = max t.peakServed w.servedQps := by
  simp only [RampTask.measure]
  split <;> rfl

theorem RampTask.measure_printed {s : RampSummary} (h : (t.measure cfg w).pc = .saturated s) :
    s.capacityQps = (t.measure cfg w).peakServed ∧
      (t.ctrl.advance w.servedQps w.latency.p50Us).2.saturated = true := by
  simp only [RampTask.measure] at h ⊢
  split at h
  · rename_i hsat
    cases h
    exact ⟨by rw [if_pos hsat], hsat⟩
  · cases h

end Measure

/-- A window that ends was paced. -/
theorem RampTask.paced_of_closed {summary : List ℕ → LatencySummary} {t : RampTask} {e : RampEvent}
    {w : RampStep} (h : t.closed summary e = some w) : RampTask.Paced t.pc := by
  unfold RampTask.closed at h
  split at h
  · split at h
    · rename_i hpc
      rw [hpc]
      exact trivial
    · cases h
  · cases h

/-- Where the search is.  The floor is a median of the server, nothing above `capacity` was served, and
once a target has failed `capacity` was. -/
structure Probing (env : LimitedServer) (cfg : RampConfig) (t : RampTask) : Prop where
  searching : (∀ s, t.pc ≠ .saturated s) → RampController.Searching t.steps.length t.ctrl
  paced : RampTask.Paced t.pc → t.qpsPerWorker = perWorker t.ctrl.currentQps cfg.concurrent
  datapath : t.ctrl.useXdp = cfg.useXdp
  floor : t.ctrl.baselineUs = 0 ∨ env.idleUs ≤ t.ctrl.baselineUs
  peak_le : t.peakServed ≤ env.capacity
  peak_eq : t.ctrl.failed ≠ none → t.peakServed = env.capacity
  printed : ∀ s, t.pc = .saturated s → s.capacityQps = t.peakServed ∧
    (t.ctrl.doublings < maxDoublings → t.ctrl.failed ≠ none)

namespace Probing

variable {env : LimitedServer} {cfg : RampConfig} {summary : List ℕ → LatencySummary} {workers : ℕ}
  {t t' : RampTask} {e : RampEvent} {w : RampStep}

theorem start (env : LimitedServer) (cfg : RampConfig) (qpsPerWorker : ℕ) :
    Probing env cfg (.start cfg qpsPerWorker) where
  searching _ := RampController.searching_new _
  paced h := h.elim
  datapath := rfl
  floor := .inl rfl
  peak_le := Nat.zero_le _
  peak_eq h := absurd rfl h
  printed s h := by cases h

theorem observe_failed (c : RampController) (p50Us : ℕ) : (c.observe p50Us).failed = c.failed := by
  rw [RampController.failed, RampController.failed, RampController.observe_phase,
    RampController.observe_hi]

/-- After a median was observed, the floor is one of the server's. -/
theorem floor_observe (h : Probing env cfg t) {offered p50Us : ℕ} (hd : env.Delays offered p50Us) :
    env.idleUs ≤ (t.ctrl.observe p50Us).baselineUs := by
  have hpos := env.idleUs_pos
  have hle := hd.1
  have hfloor := h.floor
  unfold RampController.observe
  split
  · exact hle
  · omega

/-- A step of the doubling that does not overload the server is sustained. -/
theorem sustained_of_le (h : Probing env cfg t) (hdiv : Divides cfg workers)
    (hnone : t.ctrl.failed = none) (hrun : ∀ s, t.pc ≠ .saturated s) {p50Us : ℕ}
    (hd : env.Delays (workers * perWorker t.ctrl.currentQps cfg.concurrent) p50Us)
    (hle : workers * perWorker t.ctrl.currentQps cfg.concurrent ≤ env.capacity) :
    (t.ctrl.observe p50Us).sustained
      (env.answers (workers * perWorker t.ctrl.currentQps cfg.concurrent)) p50Us = true := by
  have hlatency : p50Us ≤ (t.ctrl.observe p50Us).thresholdUs := by
    rw [RampController.thresholdUs_eq]
    exact (hd.2 hle).trans (sloUs_mono (h.floor_observe hd))
  have htarget : startQps ≤ t.ctrl.currentQps := by
    cases h.searching hrun with
    | doubling _ _ _ hcur =>
      rw [hcur]
      exact Nat.le_mul_of_pos_right _ (Nat.two_pow_pos _)
    | bisecting _ hbisect =>
      rw [RampController.failed, hbisect] at hnone
      cases hnone
  rw [RampController.sustained, RampController.observe_useXdp, h.datapath,
    RampController.observe_currentQps, decide_eq_true hlatency, LimitedServer.answers,
    Nat.min_eq_left hle, Bool.true_and]
  split
  · rfl
  · rename_i hudp
    exact hdiv.offerOk (by simpa using hudp) htarget

/-- The end of a window. -/
theorem measured (h : Probing env cfg t) (hdiv : Divides cfg workers) (hrun : ∀ s, t.pc ≠ .saturated s)
    (hans : env.Answered summary workers t e) (hw : t.closed summary e = some w) :
    Probing env cfg (t.measure cfg w) := by
  obtain ⟨hserved, hdelays⟩ := hans.closed hw
  rw [h.paced (RampTask.paced_of_closed hw)] at hserved hdelays
  have hmoved := t.ctrl.advance_moved w.servedQps w.latency.p50Us
  have hsearch := ((h.searching hrun).observe w.latency.p50Us).moved hmoved
  obtain ⟨⟨hx, hbase⟩, -, hfailed⟩ := hmoved.ends
  have hle : w.servedQps ≤ env.capacity := hserved.trans_le (Nat.min_le_right _ _)
  have hpeak : (t.measure cfg w).peakServed ≤ env.capacity := by
    rw [RampTask.measure_peakServed]
    exact Nat.max_le.mpr ⟨h.peak_le, hle⟩
  refine ⟨fun hgo => ?_, fun hpaced => ?_, ?_, .inr ?_, hpeak, fun hsome => ?_, fun s hs => ?_⟩
  · rw [RampTask.measure_ctrl, RampTask.measure_steps, List.length_cons]
    obtain ⟨hgo', -⟩ | ⟨s, -, hs, -⟩ := RampTask.measure_cases cfg t w
    · rw [hgo'] at hsearch
      exact hsearch
    · exact absurd hs (hgo s)
  · obtain ⟨-, htop⟩ | ⟨s, -, hs, -⟩ := RampTask.measure_cases cfg t w
    · rw [htop] at hpaced
      exact hpaced.elim
    · rw [hs] at hpaced
      exact hpaced.elim
  · rw [RampTask.measure_ctrl, hx, RampController.observe_useXdp, h.datapath]
  · rw [RampTask.measure_ctrl, hbase]
    exact h.floor_observe hdelays
  · refine le_antisymm hpeak ?_
    rw [RampTask.measure_peakServed]
    by_cases hnone : t.ctrl.failed = none
    · -- the step that fails overloads the server
      have hover : env.capacity < workers * perWorker t.ctrl.currentQps cfg.concurrent := by
        by_contra hnot
        have hok := h.sustained_of_le hdiv hnone hrun hdelays (Nat.le_of_not_lt hnot)
        rw [← hserved] at hok
        rw [hok, if_pos rfl, observe_failed, hnone, ← RampTask.measure_ctrl cfg] at hfailed
        exact hsome hfailed
      rw [hserved, LimitedServer.answers, Nat.min_eq_right hover.le]
      exact Nat.le_max_right _ _
    · rw [h.peak_eq hnone]
      exact Nat.le_max_left _ _
  · obtain ⟨hcapacity, hsat⟩ := RampTask.measure_printed cfg t w hs
    rw [if_pos hsat] at hsearch
    refine ⟨hcapacity, fun hlt => ?_⟩
    rw [RampTask.measure_ctrl] at hlt ⊢
    cases hsearch with
    | capped _ hd => exact absurd hd hlt.ne
    | converged hphase =>
      rw [RampController.failed, hphase]
      exact Option.some_ne_none _

/-- Every event keeps it. -/
theorem step (hdiv : Divides cfg workers) (h : Probing env cfg t)
    (hans : env.Answered summary workers t e) (hstep : (rampTask summary cfg).step t e = some t') :
    Probing env cfg t' := by
  cases RampTask.step_stepped hstep with
  | waited qps pc hrun hpc _ hrate =>
    refine ⟨fun _ => h.searching hrun, fun hpaced => ?_, h.datapath, h.floor, h.peak_le, h.peak_eq,
      fun s hs => absurd hs (hpc s)⟩
    obtain hqps | ⟨hpaced', hqps⟩ := hrate hpaced
    · exact hqps
    · exact hqps.trans (h.paced hpaced')
  | measured w hrun hw => exact h.measured hdiv hrun hans hw

end Probing

/-- For every server that answers at most `capacity` queries a second, every worker count and both
datapaths, as long as neither a gate nor the generator holds the load back (`Answered`): a ramp that
saturates prints no capacity above the server's, and exactly the server's unless all 20 doublings were
sustained.  On kernel UDP this needs at most 20000 clients, among which a target is divided; over AF_XDP the
workers may be any number. -/
theorem ramp_prints_capacity (env : LimitedServer) (summary : List ℕ → LatencySummary)
    (cfg : RampConfig) (workers qpsPerWorker : ℕ) (hdiv : Divides cfg workers) (es : List RampEvent)
    (t : RampTask) (hrun : (rampTask summary cfg).run (.start cfg qpsPerWorker) es = some t)
    (hans : (rampTask summary cfg).Meets (env.Answered summary workers) (.start cfg qpsPerWorker) es)
    (s : RampSummary) (hsat : t.pc = .saturated s) :
    s.capacityQps ≤ env.capacity ∧ (t.ctrl.doublings < maxDoublings → s.capacityQps = env.capacity) := by
  have hprobing := (rampTask summary cfg).run_invariant_of_meets
    (fun _ _ _ h hans hstep => h.step hdiv hans hstep) (Probing.start env cfg qpsPerWorker) hans hrun
  obtain ⟨hcapacity, hfailed⟩ := hprobing.printed s hsat
  rw [hcapacity]
  exact ⟨hprobing.peak_le, fun hlt => hprobing.peak_eq (hfailed hlt)⟩

theorem idleUs_pos_slow : 0 < 120 := by decide

/-- A server of 50000 queries a second. -/
def slowServer : LimitedServer := ⟨50000, 120, idleUs_pos_slow⟩

/-- Two clients over kernel UDP, without a prime. -/
def twoClients : RampConfig := ⟨false, 2, 0⟩

/-- The median of a window with one sample. -/
def onlySample (samples : List ℕ) : LatencySummary := { p50Us := samples.headD 0 }

/-- A step that loads it fully. -/
def fullStep : List RampEvent :=
  [.storeRate, .openWindow false .new [some 7], .closeWindow false { histogram := [900] } [some 200007]]

/-- Six steps of a ramp against it: 100000 fails, and the bisection ends between 62500 and 65625. -/
theorem ramp_prints_capacity_slow :
    ∃ t s, (rampTask onlySample twoClients).run (.start twoClients 1)
        (.skipPrime :: (List.replicate 6 fullStep).flatten) = some t ∧
      t.pc = .saturated s ∧ s.bracket = (62500, 65625) ∧ s.capacityQps = 50000 := by
  refine ⟨_, _, rfl, rfl, rfl, ?_⟩
  refine (ramp_prints_capacity slowServer onlySample twoClients 2 1 (fun _ => by decide)
    (.skipPrime :: (List.replicate 6 fullStep).flatten) _ rfl ?_ _ rfl).2 (by decide)
  decide +kernel

end Dnsmark.Engine
