import Dnsmark.Engine.RampTask

/-!
# Steps nobody answered

When a window records no latency sample, `ramp_step_latency` returns zeros, and the controller reads
the median 0 as a latency.  It is not taken for a floor, but it is within every SLO.  So the verdict on
such a step is left to the delivery test, which AF_XDP does not have, and which counts what was sent
when the NIC cannot be read.

The search itself treats such steps well if they are judged well: a target that was not sustained
stays strictly above everything the controller reports (`Searched.lt_of_failed`).
-/

namespace Dnsmark.Engine.RampTask

open Dnsmark.Stats RampController

variable {summary : List ℕ → LatencySummary} {cfg : RampConfig} {t t' : RampTask} {e : RampEvent}

/-- A step without a latency sample is not judged sustained, its target is neither `lastStableQps` nor
`lo` nor returned, and if there was no answer at all, 0 is returned. -/
structure SilenceRejected (t : RampTask) : Prop where
  verdict : ∀ w ∈ t.steps, w.latency.samples = 0 → w.ok = false
  lastStable : ∀ w ∈ t.steps, w.latency.samples = 0 → t.ctrl.lastStableQps ≠ w.targetQps
  lo : ∀ w ∈ t.steps, w.latency.samples = 0 → t.ctrl.lo ≠ w.targetQps
  returned : ∀ s, t.pc = .saturated s → ∀ w ∈ t.steps, w.latency.samples = 0 →
    s.report.maxSustainableQps ≠ w.targetQps
  unanswered : ∀ s, t.pc = .saturated s → (∀ w ∈ t.steps, w.latency.samples = 0) →
    s.report.maxSustainableQps = 0

/-- A window that ends without a sample ends on kernel-UDP, with less than 80 % of the target served. -/
def SilenceUnserved (summary : List ℕ → LatencySummary) (cfg : RampConfig) (t : RampTask)
    (e : RampEvent) : Prop :=
  ∀ w ∈ t.closed summary e, w.latency.samples = 0 →
    cfg.useXdp = false ∧ w.servedQps < 4 * w.targetQps / 5

instance (summary : List ℕ → LatencySummary) (cfg : RampConfig) (t : RampTask) (e : RampEvent) :
    Decidable (SilenceUnserved summary cfg t e) :=
  inferInstanceAs (Decidable (∀ w ∈ t.closed summary e, _))

/-! ## The search over a ramp -/

/-- Where the search is while the task runs: every failed target is above every sustained one, and the
next target is strictly between them. -/
structure Searched (cfg : RampConfig) (t : RampTask) : Prop where
  tracks : Session.Tracks (t.steps.map (·.verdict)) t.ctrl
  useXdp : t.ctrl.useXdp = cfg.useXdp
  lastStable_le : t.ctrl.lastStableQps ≤ t.ctrl.best
  ends_lt : ∀ hi ∈ t.ctrl.failed, t.ctrl.best < hi
  next : (∀ s, t.pc ≠ .saturated s) →
    t.ctrl.best < t.ctrl.currentQps ∧ ∀ hi ∈ t.ctrl.failed, t.ctrl.currentQps < hi
  returned : ∀ s, t.pc = .saturated s → s.report.maxSustainableQps = t.ctrl.best

theorem searched_start (cfg : RampConfig) (qps : ℕ) : Searched cfg (start cfg qps) where
  tracks := Session.tracks_start cfg.useXdp
  useXdp := rfl
  lastStable_le := Nat.le_refl 0
  ends_lt := nofun
  next _ := ⟨show 0 < startQps by decide, nofun⟩
  returned := nofun

/-- The next target after a move that goes on is strictly between the ends. -/
theorem next_of_moved {history : List Verdict} {c c' : RampController} {ok : Bool} {r : Report}
    (h : Session.Tracks history c) (hm : Moved c ok c' r) (hgo : r.saturated = false) :
    c'.best < c'.currentQps ∧ ∀ hi ∈ c'.failed, c'.currentQps < hi := by
  cases hphase : c'.phase with
  | bisect =>
    obtain ⟨hlo, hhi, -⟩ := Session.between_of_moved hm hphase hgo
    rw [Session.best_of_bisect hphase]
    simp only [Session.mem_failed_iff hphase, forall_eq]
    exact ⟨hlo, hhi⟩
  | exp =>
    cases hm with
    | doubled hp hd =>
      obtain ⟨hnext, -⟩ := h.doubled_target hp hd
      have hcur := (h.doubling hp).2
      unfold maxDoublings at hd
      rw [min_eq_left (by omega)] at hcur
      rw [pow_succ, ← mul_assoc, ← hcur] at hnext
      have hpos := h.pos
      simp only [best, failed, hp, hnext]
      exact ⟨by omega, fun hi hmem => absurd hmem (Option.not_mem_none hi)⟩
    | capped => cases hgo
    | bracketed hp c₁ hc₁ => simp [hc₁] at hphase
    | bracketedDone => cases hgo
    | halved hp ok c₁ hc₁ => simp [hc₁, hp] at hphase
    | halvedDone => cases hgo

/-- A move leaves `lastStableQps` at or below the lower end, and the ends apart. -/
theorem ends_of_moved {c c' : RampController} {ok : Bool} {r : Report} (hm : Moved c ok c' r)
    (hlast : c.lastStableQps ≤ c.best)
    (hnext : c.best < c.currentQps ∧ ∀ hi ∈ c.failed, c.currentQps < hi) :
    c'.lastStableQps ≤ c'.best ∧ ∀ hi ∈ c'.failed, c'.best < hi := by
  obtain ⟨hlt, hgt⟩ := hnext
  obtain ⟨-, hbest, hfailed⟩ := hm.ends
  constructor
  · have hle : c.best ≤ c'.best := by
      rw [hbest]
      split
      · exact hlt.le
      · exact le_rfl
    cases hm with
    | doubled hp => simp only [best, hp, le_refl]
    | capped hp => simp only [best, hp, le_refl]
    | bracketed hp c₁ hc₁ => subst hc₁; exact hlast.trans hle
    | bracketedDone hp c₁ hc₁ => subst hc₁; exact hlast.trans hle
    | halved hp ok c₁ hc₁ => subst hc₁; exact hlast.trans hle
    | halvedDone hp ok c₁ hc₁ => subst hc₁; exact hlast.trans hle
  · rw [hbest, hfailed]
    cases ok with
    | true => exact hgt
    | false =>
      rintro hi ⟨⟩
      exact hlt

/-- The end of a window keeps the search in order. -/
theorem Searched.measure (h : Searched cfg t) (hgo : ∀ s, t.pc ≠ .saturated s) (w : RampStep)
    (htarget : w.targetQps = t.ctrl.currentQps)
    (hok : w.ok = (t.ctrl.observe w.latency.p50Us).sustained w.servedQps w.latency.p50Us) :
    Searched cfg (t.measure cfg w) := by
  have hm := t.ctrl.advance_moved w.servedQps w.latency.p50Us
  have hends := ends_of_moved hm (by simpa using h.lastStable_le) (by simpa using h.next hgo)
  rw [← measure_ctrl cfg t w] at hends
  refine ⟨tracks_measure w htarget hok h.tracks, ?_, hends.1, hends.2, ?_, ?_⟩
  · rw [measure_ctrl, hm.ends.1.1, observe_useXdp, h.useXdp]
  · intro hpc
    obtain ⟨hsat, -⟩ | ⟨s, -, hs, -⟩ := measure_cases cfg t w
    · rw [measure_ctrl]
      exact next_of_moved (h.tracks.observe w.latency.p50Us) hm hsat
    · exact absurd hs (hpc s)
  · intro s hs
    obtain ⟨-, htop⟩ | ⟨s', hsat, hs', hreport, -⟩ := measure_cases cfg t w
    · exact nomatch htop.symm.trans hs
    · obtain rfl : s' = s := RampPc.saturated.inj (hs'.symm.trans hs)
      rw [hreport, measure_ctrl]
      exact Session.reported_of_moved hm hsat

theorem searched_step (t : RampTask) (e : RampEvent) (t' : RampTask) (h : Searched cfg t)
    (hstep : (rampTask summary cfg).step t e = some t') : Searched cfg t' := by
  cases step_stepped hstep with
  | waited qps pc hrun hpc =>
    exact ⟨h.tracks, h.useXdp, h.lastStable_le, h.ends_lt, fun _ => h.next hrun,
      fun s hs => absurd hs (hpc s)⟩
  | measured w hrun hw =>
    obtain ⟨htarget, hok⟩ := closed_judged hw
    exact h.measure hrun w htarget hok

/-! ## Silence -/

/-- A target that was not sustained is above everything the controller remembers. -/
theorem Searched.lt_of_failed (h : Searched cfg t) {w : RampStep} (hw : w ∈ t.steps)
    (hok : w.ok = false) : t.ctrl.lo ≤ t.ctrl.best ∧ t.ctrl.best < w.targetQps := by
  constructor
  · cases hp : t.ctrl.phase with
    | exp => exact (h.tracks.doubling hp).1 ▸ Nat.zero_le _
    | bisect => exact (Session.best_of_bisect hp).ge
  · obtain ⟨hi, hmem, hle⟩ := Verdict.exists_smallestFailed_le (v := w.verdict)
      (List.mem_map_of_mem hw) hok
    rw [← h.tracks.failed_eq] at hmem
    exact (h.ends_lt hi hmem).trans_le hle

/-- With every verdict negative, 0 is the lower end. -/
theorem Searched.best_eq_zero (h : Searched cfg t) (hall : ∀ w ∈ t.steps, w.ok = false) :
    t.ctrl.best = 0 := by
  rw [h.tracks.best_eq]
  apply Verdict.largestSustained_eq_zero
  intro v hv
  obtain ⟨w, hw, rfl⟩ := List.mem_map.mp hv
  exact hall w hw

/-- As long as steps without a sample are judged not sustained, all of it holds. -/
theorem Searched.silenceRejected (h : Searched cfg t)
    (hverdict : ∀ w ∈ t.steps, w.latency.samples = 0 → w.ok = false) : SilenceRejected t where
  verdict := hverdict
  lastStable w hw hsilent := by
    have hlt := (h.lt_of_failed hw (hverdict w hw hsilent)).2
    exact (h.lastStable_le.trans_lt hlt).ne
  lo w hw hsilent := by
    obtain ⟨hle, hlt⟩ := h.lt_of_failed hw (hverdict w hw hsilent)
    exact (hle.trans_lt hlt).ne
  returned s hs w hw hsilent := by
    rw [h.returned s hs]
    exact (h.lt_of_failed hw (hverdict w hw hsilent)).2.ne
  unanswered s hs hall := by
    rw [h.returned s hs]
    exact h.best_eq_zero fun w hw => hverdict w hw (hall w hw)

/-- The verdict on a window without a sample is the delivery test, and none on AF_XDP. -/
theorem silent_ok_iff (huse : t.ctrl.useXdp = cfg.useXdp) {w : RampStep}
    (hw : t.closed summary e = some w) (hsilent : w.latency.samples = 0) :
    w.ok = false ↔ cfg.useXdp = false ∧ w.servedQps < 4 * w.targetQps / 5 := by
  obtain ⟨htarget, hok⟩ := closed_judged hw
  rw [hok, closed_silent hw hsilent, htarget]
  simp only [sustained, observe_useXdp, observe_currentQps, huse, Nat.zero_le, decide_true,
    Bool.true_and, offerOk]
  cases cfg.useXdp <;> simp

/-- On every ramp, steps without a latency sample are rejected for good at every moment, exactly when
each of them ends on kernel-UDP with less than 80 % of the target served. -/
theorem silence_rejected_iff (summary : List ℕ → LatencySummary) (cfg : RampConfig) (qps : ℕ)
    (es : List RampEvent) (t : RampTask)
    (hrun : (rampTask summary cfg).run (start cfg qps) es = some t) :
    (rampTask summary cfg).Always SilenceRejected (start cfg qps) es ↔
      (rampTask summary cfg).Meets (SilenceUnserved summary cfg) (start cfg qps) es := by
  refine (rampTask summary cfg).always_iff_meets
    (I := fun t => Searched cfg t ∧ ∀ w ∈ t.steps, w.latency.samples = 0 → w.ok = false)
    (fun t h => h.1.silenceRejected h.2) ?_ ?_ ⟨searched_start cfg qps, nofun⟩ hrun
  · intro t e t' h hstep hunserved
    refine ⟨searched_step t e t' h.1 hstep, ?_⟩
    cases step_stepped hstep with
    | waited => exact h.2
    | measured w _ hw =>
      rw [measure_steps, List.forall_mem_cons]
      refine ⟨fun hsilent => ?_, h.2⟩
      exact (silent_ok_iff h.1.useXdp hw hsilent).mpr (hunserved w hw hsilent)
  · intro t e t' h hstep hserved hrejected
    apply hserved
    intro w hw hsilent
    cases step_stepped hstep with
    | waited _ _ _ _ hopen => exact nomatch hopen.symm.trans hw
    | measured w' _ hw' =>
      obtain rfl : w' = w := Option.some.inj (hw'.symm.trans hw)
      apply (silent_ok_iff h.1.useXdp hw hsilent).mp
      exact hrejected.verdict _ (measure_steps cfg t _ ▸ List.mem_cons_self) hsilent

/-- A step to which nobody answers; the NIC counts no replies. -/
def silentStep : List RampEvent :=
  [.storeRate, .openWindow false {} [some 0], .closeWindow false {} [some 0]]

/-- A ramp of `n` such steps. -/
def silentRamp (n : ℕ) : List RampEvent := .skipPrime :: (List.replicate n silentStep).flatten

/-- On AF_XDP a server that never answers takes the ramp to its doubling cap, and `advance` returns
the largest target there is. -/
theorem silence_sustained_on_xdp :
    ∃ t s, (rampTask (fun _ => {}) ⟨true, 1, 0⟩).run (start ⟨true, 1, 0⟩ 100000) (silentRamp 20)
        = some t ∧
      t.pc = .saturated s ∧ (∀ w ∈ t.steps, w.latency.samples = 0) ∧
      s.report.maxSustainableQps = 100000 * 2 ^ 19 ∧ ¬ SilenceRejected t := by
  refine ⟨_, _, rfl, rfl, by decide, by decide, ?_⟩
  intro h
  exact absurd (h.unanswered _ rfl (by decide)) (by decide)

/-- On kernel-UDP the same server is rejected from the first step on. -/
theorem silence_rejected_on_udp :
    (rampTask (fun _ => {}) ⟨false, 1, 0⟩).Always SilenceRejected (start ⟨false, 1, 0⟩ 100000)
      (silentRamp 6) :=
  (silence_rejected_iff (fun _ => {}) ⟨false, 1, 0⟩ 100000 (silentRamp 6) _ rfl).mpr (by decide)

end Dnsmark.Engine.RampTask
