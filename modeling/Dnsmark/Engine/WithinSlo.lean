import Dnsmark.Engine.RampTask

/-!
# The rate within the SLO

At saturation the ramp prints the best rate that held the latency SLO and, beside it, the SLO.  The
SLO follows the lowest median seen so far, and a step is weighed once, against the SLO of its moment.
When a later step lowers the floor, a step that would not hold the final SLO stays in the best rate.

`held` is the steps that were weighed in, and `within` those that hold the final SLO.  The floor only
falls, so every step within the final SLO was weighed in (`mem_held_of_within`); the printed pair is
coherent exactly when the others served no more.
-/

namespace Dnsmark.Engine

/-- The SLO for a latency floor, as `threshold_us` computes it. -/
def sloUs (floorUs : ℕ) : ℕ := max (sloFactor * max floorUs 1) (max floorUs 1 + sloMarginUs)

theorem RampController.thresholdUs_eq (c : RampController) : c.thresholdUs = sloUs c.baselineUs := rfl

theorem sloUs_mono {a b : ℕ} (h : a ≤ b) : sloUs a ≤ sloUs b := by
  unfold sloUs sloFactor
  omega

namespace RampStep

/-- The lowest positive median of some steps, 0 if there is none. -/
def floorUs (steps : List RampStep) : ℕ :=
  ((steps.map (·.latency.p50Us)).filter (0 < ·)).min?.getD 0

/-- The most any of some steps served, 0 if there is none. -/
def maxServed (steps : List RampStep) : ℕ := (steps.map (·.servedQps)).max?.getD 0

/-- The steps, newest first, whose median was within the SLO of their moment. -/
def held : List RampStep → List RampStep
  | [] => []
  | w :: earlier =>
    if w.latency.p50Us ≤ sloUs (floorUs (w :: earlier)) then w :: held earlier else held earlier

/-- Among some steps, newest first, `w` was within the SLO of its moment but is not within the SLO of
the whole ramp. -/
def Overrated (steps : List RampStep) (w : RampStep) : Prop :=
  ∃ later earlier, steps = later ++ w :: earlier ∧
    w.latency.p50Us ≤ sloUs (floorUs (w :: earlier)) ∧ sloUs (floorUs steps) < w.latency.p50Us

/-! ## The floor -/

variable {steps : List RampStep} {w : RampStep}

/-- A positive floor is the median of one of the steps. -/
theorem exists_floorUs_eq (h : 0 < floorUs steps) :
    ∃ w ∈ steps, w.latency.p50Us = floorUs steps := by
  unfold floorUs at h ⊢
  cases hmin : ((steps.map (·.latency.p50Us)).filter (0 < ·)).min? with
  | none => simp [hmin] at h
  | some m =>
    have hmem := List.mem_of_mem_filter (List.min?_mem hmin)
    simpa using hmem

/-- The floor is at most every positive median. -/
theorem floorUs_le (hw : w ∈ steps) (hpos : 0 < w.latency.p50Us) :
    floorUs steps ≤ w.latency.p50Us := by
  apply List.min?_getD_le_of_mem
  exact List.mem_filter.mpr ⟨List.mem_map_of_mem hw, by simpa using hpos⟩

/-- One positive median makes the floor positive. -/
theorem floorUs_pos (hw : w ∈ steps) (hpos : 0 < w.latency.p50Us) : 0 < floorUs steps := by
  unfold floorUs
  cases hmin : ((steps.map (·.latency.p50Us)).filter (0 < ·)).min? with
  | none =>
    rw [List.min?_eq_none_iff, List.filter_eq_nil_iff] at hmin
    exact absurd (by simpa using hpos) (hmin _ (List.mem_map_of_mem hw))
  | some m => simpa using List.of_mem_filter (List.min?_mem hmin)

/-- The floor as the controller keeps it. -/
theorem floorUs_cons (w : RampStep) (steps : List RampStep) :
    floorUs (w :: steps)
      = if 0 < w.latency.p50Us ∧ (floorUs steps = 0 ∨ w.latency.p50Us < floorUs steps) then
          w.latency.p50Us
        else floorUs steps := by
  by_cases hpos : 0 < w.latency.p50Us
  · have hcons : floorUs (w :: steps)
        = ((steps.map (·.latency.p50Us)).filter (0 < ·)).min?.elim w.latency.p50Us
            (min w.latency.p50Us) := by
      rw [floorUs, List.map_cons, List.filter_cons_of_pos (by simpa using hpos), List.min?_cons,
        Option.getD_some]
    rw [hcons]
    unfold floorUs
    cases hmin : ((steps.map (·.latency.p50Us)).filter (0 < ·)).min? with
    | none => simp [hpos]
    | some m =>
      have hm : 0 < m := by simpa using List.of_mem_filter (List.min?_mem hmin)
      simp only [Option.elim_some, Option.getD_some]
      split <;> omega
  · rw [if_neg fun h => hpos h.1, floorUs, List.map_cons, List.filter_cons_of_neg (by simpa using hpos),
      ← floorUs]

/-- Later steps do not raise the SLO a positive median was weighed against. -/
theorem sloUs_append_le (later : List RampStep) (hw : w ∈ steps) (hpos : 0 < w.latency.p50Us) :
    sloUs (floorUs (later ++ steps)) ≤ sloUs (floorUs steps) := by
  obtain ⟨w', hw', heq⟩ := exists_floorUs_eq (floorUs_pos hw hpos)
  apply sloUs_mono
  rw [← heq]
  apply floorUs_le (List.mem_append_right later hw')
  rw [heq]
  exact floorUs_pos hw hpos

/-! ## The steps that count -/

theorem maxServed_cons (w : RampStep) (steps : List RampStep) :
    maxServed (w :: steps) = max w.servedQps (maxServed steps) := by
  unfold maxServed
  rw [List.map_cons, List.max?_cons, Option.getD_some]
  cases (steps.map (·.servedQps)).max? with
  | none => exact (Nat.max_zero _).symm
  | some m => rfl

theorem le_maxServed (hw : w ∈ steps) : w.servedQps ≤ maxServed steps :=
  List.le_max?_getD_of_mem (List.mem_map_of_mem hw)

theorem maxServed_le_iff {n : ℕ} : maxServed steps ≤ n ↔ ∀ w ∈ steps, w.servedQps ≤ n := by
  induction steps with
  | nil => simp [maxServed]
  | cons w steps ih => rw [maxServed_cons, max_le_iff, ih, List.forall_mem_cons]

theorem le_maxServed_iff {n : ℕ} :
    n ≤ maxServed steps ↔ n = 0 ∨ ∃ w ∈ steps, n ≤ w.servedQps := by
  induction steps with
  | nil => simp [maxServed]
  | cons w steps ih =>
    rw [maxServed_cons, le_max_iff, ih]
    simp only [List.mem_cons, exists_eq_or_imp]
    tauto

theorem mem_held_iff :
    w ∈ held steps ↔ ∃ later earlier, steps = later ++ w :: earlier ∧
      w.latency.p50Us ≤ sloUs (floorUs (w :: earlier)) := by
  induction steps with
  | nil => simp [held]
  | cons v steps ih =>
    have hsplit : (∃ later earlier, v :: steps = later ++ w :: earlier ∧
          w.latency.p50Us ≤ sloUs (floorUs (w :: earlier))) ↔
        (w = v ∧ w.latency.p50Us ≤ sloUs (floorUs (v :: steps))) ∨ w ∈ held steps := by
      rw [ih]
      constructor
      · rintro ⟨later, earlier, heq, hslo⟩
        rcases later with _ | ⟨v', later⟩
        · obtain ⟨rfl, rfl⟩ := List.cons.inj heq
          exact .inl ⟨rfl, hslo⟩
        · obtain ⟨rfl, rfl⟩ := List.cons.inj heq
          exact .inr ⟨later, earlier, rfl, hslo⟩
      · rintro (⟨rfl, hslo⟩ | ⟨later, earlier, rfl, hslo⟩)
        · exact ⟨[], steps, rfl, hslo⟩
        · exact ⟨v :: later, earlier, rfl, hslo⟩
    rw [hsplit, held]
    split
    · rename_i hv
      rw [List.mem_cons]
      exact or_congr_left ⟨fun h => ⟨h, h ▸ hv⟩, fun h => h.1⟩
    · rename_i hv
      refine (or_iff_right ?_).symm
      rintro ⟨rfl, hslo⟩
      exact hv hslo

/-- What holds the final SLO held the SLO of its moment. -/
theorem mem_held_of_within (hw : w ∈ steps) (hslo : w.latency.p50Us ≤ sloUs (floorUs steps)) :
    w ∈ held steps := by
  obtain ⟨later, earlier, rfl⟩ := List.append_of_mem hw
  refine mem_held_iff.mpr ⟨later, earlier, rfl, ?_⟩
  rcases Nat.eq_zero_or_pos w.latency.p50Us with hzero | hpos
  · rw [hzero]
    exact Nat.zero_le _
  · exact hslo.trans (sloUs_append_le later List.mem_cons_self hpos)

/-- The best rate weighed in is the best rate within the final SLO exactly when no overrated step
served more. -/
theorem maxServed_held_eq_iff (steps : List RampStep) :
    maxServed (held steps)
        = maxServed (steps.filter fun w => w.latency.p50Us ≤ sloUs (floorUs steps)) ↔
      ∀ w, Overrated steps w → w.servedQps = 0 ∨
        ∃ v ∈ steps, v.latency.p50Us ≤ sloUs (floorUs steps) ∧ w.servedQps ≤ v.servedQps := by
  have hle : maxServed (steps.filter fun w => w.latency.p50Us ≤ sloUs (floorUs steps))
      ≤ maxServed (held steps) := by
    rw [maxServed_le_iff]
    intro w hw
    obtain ⟨hmem, hslo⟩ := List.mem_filter.mp hw
    exact le_maxServed (mem_held_of_within hmem (by simpa using hslo))
  have hwithin : ∀ n, n ≤ maxServed (steps.filter fun w => w.latency.p50Us ≤ sloUs (floorUs steps)) ↔
      n = 0 ∨ ∃ v ∈ steps, v.latency.p50Us ≤ sloUs (floorUs steps) ∧ n ≤ v.servedQps := by
    intro n
    rw [le_maxServed_iff]
    simp only [List.mem_filter, decide_eq_true_eq, and_assoc]
  rw [← hle.ge_iff_eq', maxServed_le_iff]
  constructor
  · rintro h w ⟨later, earlier, heq, hheld, -⟩
    exact (hwithin _).mp (h w (mem_held_iff.mpr ⟨later, earlier, heq, hheld⟩))
  · intro h w hw
    obtain ⟨later, earlier, heq, hheld⟩ := mem_held_iff.mp hw
    by_cases hslo : w.latency.p50Us ≤ sloUs (floorUs steps)
    · apply le_maxServed
      exact List.mem_filter.mpr ⟨heq ▸ by simp, by simpa using hslo⟩
    · exact (hwithin _).mpr (h w ⟨later, earlier, heq, hheld, Nat.lt_of_not_le hslo⟩)

end RampStep

namespace RampTask

open RampStep Dnsmark.Stats

variable {summary : List ℕ → LatencySummary} {cfg : RampConfig} {t t' : RampTask} {e : RampEvent}

/-! ## The ramp -/

/-- What the task has printed explains the floor of the controller, the best rate, and the summary. -/
structure Weighed (t : RampTask) : Prop where
  floor : t.ctrl.baselineUs = floorUs t.steps
  best : t.bestOkServed = maxServed (held t.steps)
  printed : ∀ s, t.pc = .saturated s →
    s.withinSloQps = t.bestOkServed ∧ s.sloUs = t.ctrl.thresholdUs

theorem weighed_start (cfg : RampConfig) (qps : ℕ) : (start cfg qps).Weighed :=
  ⟨rfl, rfl, nofun⟩

/-- The floor after a window. -/
theorem measure_baselineUs (cfg : RampConfig) (w : RampStep)
    (h : t.ctrl.baselineUs = floorUs t.steps) :
    (t.measure cfg w).ctrl.baselineUs = floorUs (w :: t.steps) := by
  have hmoved := (t.ctrl.advance_moved w.servedQps w.latency.p50Us).ends.1.2
  rw [measure_ctrl, hmoved, floorUs_cons, RampController.observe, ← h]
  split <;> rfl

theorem Weighed.measure (h : t.Weighed) (w : RampStep) : (t.measure cfg w).Weighed := by
  have hfloor := measure_baselineUs cfg w h.floor
  refine ⟨by rw [hfloor, measure_steps], ?_, ?_⟩
  · rw [measure_bestOkServed, RampController.thresholdUs_eq, hfloor, measure_steps, held, h.best]
    split
    · rw [maxServed_cons, max_comm]
    · rfl
  · intro s hs
    obtain ⟨-, htop⟩ | ⟨s', -, hs', -, hbest, hslo⟩ := measure_cases cfg t w
    · exact nomatch htop.symm.trans hs
    · obtain rfl : s' = s := RampPc.saturated.inj (hs'.symm.trans hs)
      exact ⟨hbest, hslo⟩

theorem weighed_step (t : RampTask) (e : RampEvent) (t' : RampTask) (h : t.Weighed)
    (hstep : (rampTask summary cfg).step t e = some t') : t'.Weighed := by
  cases step_stepped hstep with
  | waited qps pc _ hpc => exact ⟨h.floor, h.best, fun s hs => absurd hs (hpc s)⟩
  | measured w => exact h.measure w

/-- Whatever the windows measured, when the ramp has saturated the printed rate within the SLO is the
most that any step within the printed SLO served, exactly when every step that was within the SLO of
its moment only served nothing, or no more than a step within the SLO of the ramp's lowest median. -/
theorem withinSlo_coherent_iff (summary : List ℕ → LatencySummary) (cfg : RampConfig) (qps : ℕ)
    (es : List RampEvent) (t : RampTask) (s : RampSummary)
    (hrun : (rampTask summary cfg).run (start cfg qps) es = some t) (hsat : t.pc = .saturated s) :
    s.withinSloQps = maxServed (t.steps.filter fun w => w.latency.p50Us ≤ s.sloUs) ↔
      ∀ w, Overrated t.steps w → w.servedQps = 0 ∨
        ∃ v ∈ t.steps, v.latency.p50Us ≤ sloUs (floorUs t.steps) ∧ w.servedQps ≤ v.servedQps := by
  have hw := (rampTask summary cfg).run_invariant (I := Weighed) weighed_step (weighed_start cfg qps)
    hrun
  obtain ⟨hbest, hslo⟩ := hw.printed s hsat
  rw [hbest, hslo, hw.best, RampController.thresholdUs_eq, hw.floor]
  exact maxServed_held_eq_iff t.steps

/-- A histogram whose median is its newest sample. -/
def newestSample (samples : List ℕ) : LatencySummary := { p50Us := samples.headD 0 }

/-- A step whose replies all took `p50Us` and of which the NIC counted `served` a second. -/
def measured (p50Us served : ℕ) : List RampEvent :=
  [.storeRate, .openWindow false {} [some 0],
    .closeWindow false { histogram := [p50Us] } [some (4 * served)]]

/-- The first step is slow, on a cold server; the second is fast and serves more, and the others serve
nothing. -/
def warmServer : List RampEvent :=
  .skipPrime :: (measured 5000 100000 ++ measured 100 200000 ++
    (List.replicate 6 (measured 100 0)).flatten)

/-- The slow step was within the SLO of its moment, but the second served more, and the printed rate is
the second's. -/
theorem withinSlo_of_warmServer :
    ∃ t s, (rampTask newestSample ⟨false, 1, 0⟩).run (start ⟨false, 1, 0⟩ 100000) warmServer
        = some t ∧
      t.pc = .saturated s ∧ s.sloUs = 1100 ∧ (∃ w ∈ held t.steps, s.sloUs < w.latency.p50Us) ∧
      s.withinSloQps = maxServed (t.steps.filter fun w => w.latency.p50Us ≤ s.sloUs) := by
  obtain ⟨t, s, hrun, hsat, hslo, hheld, v, hv, hvslo, hmost⟩ :
      ∃ t s, (rampTask newestSample ⟨false, 1, 0⟩).run (start ⟨false, 1, 0⟩ 100000) warmServer
          = some t ∧
        t.pc = .saturated s ∧ s.sloUs = 1100 ∧ (∃ w ∈ held t.steps, s.sloUs < w.latency.p50Us) ∧
        ∃ v ∈ t.steps, v.latency.p50Us ≤ sloUs (floorUs t.steps) ∧
          ∀ w ∈ t.steps, w.servedQps ≤ v.servedQps :=
    ⟨_, _, rfl, rfl, rfl, by decide, by decide⟩
  refine ⟨t, s, hrun, hsat, hslo, hheld, ?_⟩
  refine (withinSlo_coherent_iff newestSample ⟨false, 1, 0⟩ 100000 warmServer t s hrun hsat).mpr ?_
  rintro w ⟨later, earlier, heq, -⟩
  exact .inr ⟨v, hv, hvslo, hmost w (heq ▸ by simp)⟩

/-- The first step is served well but slowly, on a cold server; the others are fast, and the NIC sees
no replies. -/
def fallingFloor : List RampEvent :=
  .skipPrime :: (measured 5000 200000 ++ (List.replicate 6 (measured 100 0)).flatten)

/-- On kernel-UDP the ramp then prints the rate of the first step, whose median was 5 ms, beside an
SLO of 1.1 ms that only steps serving nothing held. -/
theorem withinSlo_of_fallingFloor :
    ∃ t s, (rampTask newestSample ⟨false, 1, 0⟩).run (start ⟨false, 1, 0⟩ 100000) fallingFloor
        = some t ∧
      t.pc = .saturated s ∧ s.withinSloQps = 200000 ∧ s.sloUs = 1100 ∧
      s.withinSloQps ≠ maxServed (t.steps.filter fun w => w.latency.p50Us ≤ s.sloUs) := by
  refine ⟨_, _, rfl, rfl, rfl, rfl, ?_⟩
  decide

end RampTask

end Dnsmark.Engine
