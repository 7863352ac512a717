import Dnsmark.Engine.Convergence

/-!
# The ramp finds the knee

Against a server whose latency grows with the load and whose delivery, once it falls short, stays
short, the final bracket separates the sustained targets from the others — all judged under the
*final* latency threshold, although the steps themselves were judged while the floor was still being
learned.

The floor settles as soon as one target is sustained: that target is the lowest one probed, and
every later probe is at least as high.  From then on all verdicts are about the same threshold
(`Anchored`). As long as nothing was sustained each probe is lower than the one before, so it lowers
the floor to its own latency, the latency test passes and the verdict is the delivery test alone
(`Unanchored`).
-/

namespace Dnsmark.Engine

open RampController

/-- A server whose median latency is positive and nondecreasing in the target, and whose delivery
test, once it fails, fails for all larger targets. -/
structure Server where
  achievedQps : ℕ → ℕ
  p50Us : ℕ → ℕ
  p50Us_pos : ∀ t, 0 < p50Us t
  p50Us_mono : Monotone p50Us
  offerOk_anti : ∀ t t', t ≤ t' → offerOk t' (achievedQps t') → offerOk t (achievedQps t)

namespace Server

variable (env : Server)

/-- The server as an oracle for the ramp; it answers by the target alone. -/
def oracle (_ target : ℕ) : ℕ × ℕ := (env.achievedQps target, env.p50Us target)

/-- Target `t` is sustained under the latency threshold `thresholdUs`. -/
def Sustains (useXdp : Bool) (thresholdUs t : ℕ) : Prop :=
  env.p50Us t ≤ thresholdUs ∧ (useXdp = false → offerOk t (env.achievedQps t))

theorem Sustains.of_le {useXdp : Bool} {thresholdUs t t' : ℕ} (hle : t ≤ t')
    (h : env.Sustains useXdp thresholdUs t') : env.Sustains useXdp thresholdUs t :=
  ⟨(env.p50Us_mono hle).trans h.1, fun hx => env.offerOk_anti t t' hle (h.2 hx)⟩

end Server

namespace RampController

/-- The lower end of the search: the last sustained target, 0 when there is none. -/
def best (c : RampController) : ℕ :=
  match c.phase with
  | .exp => c.lastStableQps
  | .bisect => c.lo

/-- The upper end of the search, once there is one. -/
def failed (c : RampController) : Option ℕ :=
  match c.phase with
  | .exp => none
  | .bisect => some c.hi

@[simp] theorem observe_best (c : RampController) (p50Us : ℕ) :
    (c.observe p50Us).best = c.best := by
  simp [best]

@[simp] theorem observe_failed (c : RampController) (p50Us : ℕ) :
    (c.observe p50Us).failed = c.failed := by
  simp [failed]

/-- The threshold is never below the floor. -/
theorem baselineUs_le_thresholdUs (c : RampController) : c.baselineUs ≤ c.thresholdUs := by
  unfold thresholdUs sloMarginUs
  simp only
  omega

section Judged

variable (env : Server) (c : RampController)

/-- Something was sustained: the floor is the latency of a target `t₀` no higher than it. -/
def Anchored : Prop :=
  ∃ t₀, c.baselineUs = env.p50Us t₀ ∧ t₀ ≤ c.best ∧
    env.Sustains c.useXdp c.thresholdUs c.best ∧
    ∀ hi ∈ c.failed, ¬ env.Sustains c.useXdp c.thresholdUs hi

/-- Nothing was sustained yet: the floor is the latency of the last probe, which failed to
deliver. -/
def Unanchored : Prop :=
  c.best = 0 ∧ (c.failed = none ∧ c.baselineUs = 0 ∨
    c.useXdp = false ∧ ∃ hi ∈ c.failed, c.baselineUs = env.p50Us hi ∧
      ¬ offerOk hi (env.achievedQps hi))

variable {env c}

/-- With the floor at a lower target, a probe leaves the controller as it is, and the verdict is
whether the probe is sustained under the threshold. -/
theorem Anchored.verdict {t₀ : ℕ} (hfloor : c.baselineUs = env.p50Us t₀) (hle : t₀ ≤ c.currentQps) :
    c.observe (env.p50Us c.currentQps) = c ∧
      (c.sustained (env.achievedQps c.currentQps) (env.p50Us c.currentQps) = true ↔
        env.Sustains c.useXdp c.thresholdUs c.currentQps) := by
  have hpos := env.p50Us_pos t₀
  have hmono := env.p50Us_mono hle
  refine ⟨if_neg (by omega), ?_⟩
  unfold sustained Server.Sustains
  cases c.useXdp <;> simp

/-- With no floor, or one no lower than the probe's latency, the probe becomes the floor, and the
verdict is the delivery test alone. -/
theorem Unanchored.verdict
    (hfloor : c.baselineUs = 0 ∨ env.p50Us c.currentQps ≤ c.baselineUs) :
    (c.observe (env.p50Us c.currentQps)).baselineUs = env.p50Us c.currentQps ∧
      ((c.observe (env.p50Us c.currentQps)).sustained (env.achievedQps c.currentQps)
          (env.p50Us c.currentQps) = true ↔
        (c.useXdp = false → offerOk c.currentQps (env.achievedQps c.currentQps))) := by
  have hbase := c.observe_baselineUs_of_ge _ (env.p50Us_pos c.currentQps) hfloor
  have hthr := (c.observe (env.p50Us c.currentQps)).baselineUs_le_thresholdUs
  rw [hbase] at hthr
  refine ⟨hbase, ?_⟩
  unfold sustained
  cases hx : c.useXdp <;> simp [hx, hthr]

/-- What a move does to the two ends of the search. -/
theorem Moved.ends {ok : Bool} {c' : RampController} {r : Report} (hm : Moved c ok c' r) :
    (c'.useXdp = c.useXdp ∧ c'.baselineUs = c.baselineUs) ∧
      c'.best = (if ok then c.currentQps else c.best) ∧
      c'.failed = (if ok then c.failed else some c.currentQps) := by
  cases hm with
  | doubled hp => simp [best, failed, hp]
  | capped hp => simp [best, failed, hp]
  | bracketed hp c₁ hc₁ => subst hc₁; simp [best, failed, hp]
  | bracketedDone hp c₁ hc₁ => subst hc₁; simp [best, failed, hp]
  | halved hp ok c₁ hc₁ => subst hc₁; cases ok <;> simp [best, failed, hp]
  | halvedDone hp ok c₁ hc₁ => subst hc₁; cases ok <;> simp [best, failed, hp]

/-- The threshold depends on the floor alone. -/
theorem thresholdUs_congr {c' : RampController} (h : c'.baselineUs = c.baselineUs) :
    c'.thresholdUs = c.thresholdUs := by
  unfold thresholdUs
  rw [h]

/-- The next probe lies between the two ends of the search. -/
theorem Searching.between {n : ℕ} (h : Searching n c) :
    c.best ≤ c.currentQps ∧ ∀ hi ∈ c.failed, c.currentQps ≤ hi := by
  cases h with
  | doubling hphase _ _ _ _ hlast =>
    simp only [best, failed, hphase, reduceCtorEq, Option.mem_def, false_implies, implies_true, and_true]
    omega
  | bisecting u hphase _ _ _ hhi hcur =>
    simp only [best, failed, hphase, Option.mem_def, Option.some.injEq, forall_eq']
    omega

/-- After a floor has settled, a move keeps it and judges the probe under it. -/
theorem Anchored.moved {n : ℕ} {c' : RampController} {r : Report} (hs : Searching n c)
    (h : c.Anchored env)
    (hm : Moved (c.observe (env.p50Us c.currentQps)) ((c.observe (env.p50Us c.currentQps)).sustained
      (env.achievedQps c.currentQps) (env.p50Us c.currentQps)) c' r) :
    c'.Anchored env := by
  obtain ⟨t₀, hfloor, hle, hbest, hfailed⟩ := h
  obtain ⟨hobs, hverdict⟩ := Anchored.verdict hfloor (hle.trans hs.between.1)
  rw [hobs] at hm
  obtain ⟨⟨hx, hbase⟩, hbest', hfailed'⟩ := hm.ends
  have hthr := thresholdUs_congr hbase
  refine ⟨t₀, hbase.trans hfloor, ?_⟩
  rw [hx, hthr, hbest', hfailed']
  split
  · rename_i hok
    exact ⟨hle.trans hs.between.1, hverdict.mp hok, hfailed⟩
  · rename_i hok
    refine ⟨hle, hbest, ?_⟩
    rintro hi ⟨⟩
    exact fun hsus => hok (hverdict.mpr hsus)

/-- Before a floor has settled, a probe that delivers settles it and one that does not is the new
upper end. -/
theorem Unanchored.moved {n : ℕ} {c' : RampController} {r : Report} (hs : Searching n c)
    (h : c.Unanchored env)
    (hm : Moved (c.observe (env.p50Us c.currentQps)) ((c.observe (env.p50Us c.currentQps)).sustained
      (env.achievedQps c.currentQps) (env.p50Us c.currentQps)) c' r) :
    c'.Anchored env ∨ c'.Unanchored env := by
  obtain ⟨hzero, hfloor⟩ := h
  have hfloor' : c.baselineUs = 0 ∨ env.p50Us c.currentQps ≤ c.baselineUs := by
    obtain ⟨-, h0⟩ | ⟨-, hi, hmem, hbase, -⟩ := hfloor
    · exact .inl h0
    · exact .inr (hbase ▸ env.p50Us_mono (hs.between.2 hi hmem))
  obtain ⟨hobs, hverdict⟩ := Unanchored.verdict hfloor'
  obtain ⟨⟨hx, hbase⟩, hbest, hfailed⟩ := hm.ends
  have hthr := c'.baselineUs_le_thresholdUs
  rw [hbase, hobs] at hthr
  simp only [observe_useXdp, observe_currentQps, observe_best, observe_failed] at hx hbest hfailed
  split at hbest
  · rename_i hok
    rw [if_pos hok] at hfailed
    refine .inl ⟨c.currentQps, hbase.trans hobs, hbest.ge, ?_, ?_⟩
    · rw [hbest, hx]
      exact ⟨hthr, hverdict.mp hok⟩
    · intro hi hmem hsus
      rw [hfailed] at hmem
      obtain ⟨hnone, -⟩ | ⟨hudp, hi', hmem', -, hoffer⟩ := hfloor
      · simp [hnone] at hmem
      · obtain rfl : hi' = hi := Option.mem_unique hmem' hmem
        exact hoffer (hsus.2 (hx.trans hudp))
  · rename_i hok
    rw [if_neg hok] at hfailed
    rw [hverdict, Classical.not_imp] at hok
    exact .inr ⟨hbest.trans hzero,
      .inr ⟨hx.trans hok.1, _, hfailed, hbase.trans hobs, hok.2⟩⟩

/-- With the search in its bisection phase, both cases give the verdicts at the two ends. -/
theorem ends_judged (hphase : c.phase = .bisect) (h : c.Anchored env ∨ c.Unanchored env) :
    (0 < c.lo → env.Sustains c.useXdp c.thresholdUs c.lo) ∧
      ¬ env.Sustains c.useXdp c.thresholdUs c.hi := by
  have hbest : c.best = c.lo := by simp [best, hphase]
  have hfailed : c.failed = some c.hi := by simp [failed, hphase]
  obtain ⟨t₀, -, -, hsus, hnot⟩ | ⟨hzero, hfloor⟩ := h
  · exact ⟨fun _ => hbest ▸ hsus, hnot _ hfailed⟩
  · refine ⟨fun hpos => absurd (hbest ▸ hzero) hpos.ne', fun hsus => ?_⟩
    obtain ⟨hnone, -⟩ | ⟨hudp, hi, hmem, -, hoffer⟩ := hfloor
    · exact absurd (hnone.symm.trans hfailed) (by simp)
    · obtain rfl : hi = c.hi := Option.mem_unique hmem hfailed
      exact hoffer (hsus.2 hudp)

end Judged

/-- Against every such server and on both datapaths the ramp stops, and unless it stopped on the
doubling cap its final bracket separates the targets sustained under the final threshold from the
others, and is within the tolerance. -/
theorem bracket_separates_sustained (env : Server) (useXdp : Bool) :
    ∃ n c r, runToSaturation env.oracle (new useXdp) 0 25 = some (n, c, r) ∧
      (c.doublings ≠ maxDoublings →
        Bisection.Separates (env.Sustains useXdp c.thresholdUs) c.bracket.1 c.bracket.2 ∧
        c.bracket.2 - c.bracket.1 ≤ max (c.bracket.1 / 20) 5000) := by
  obtain ⟨n, c, r, hrun, hset, hx, hjudged⟩ := runToSaturation_rule env.oracle
    (J := fun n c => Searching n c ∧ c.useXdp = useXdp ∧ (c.Anchored env ∨ c.Unanchored env))
    (Q := fun n c _ => Settled n c ∧ c.useXdp = useXdp ∧ (c.Anchored env ∨ c.Unanchored env))
    (fun _ _ h => h.1.lt)
    (fun n c ⟨hs, hx, hj⟩ c' r hm => by
      have hx' : c'.useXdp = useXdp := by rw [hm.ends.1.1, observe_useXdp, hx]
      have hj' := hj.elim (fun h => .inl (h.moved hs hm)) fun h => h.moved hs hm
      have hmoved := (hs.observe _).moved hm
      by_cases hsat : r.saturated
      · rw [if_pos hsat] at hmoved ⊢
        exact ⟨hmoved, hx', hj'⟩
      · rw [if_neg hsat] at hmoved ⊢
        exact ⟨hmoved, hx', hj'⟩)
    25 rfl ⟨searching_new useXdp, rfl, .inr ⟨rfl, .inl ⟨rfl, rfl⟩⟩⟩
  refine ⟨n, c, r, hrun, fun hcap => ?_⟩
  cases hset with
  | capped _ hd => exact absurd hd hcap
  | converged hphase _ hconv =>
    obtain ⟨hlo, hhi⟩ := ends_judged hphase hjudged
    rw [hx] at hlo hhi
    exact ⟨Bisection.separates_of_ends (fun t t' hle => Server.Sustains.of_le env hle) hlo hhi,
      of_decide_eq_true hconv⟩

/-- A latency cliff: any target is delivered, and the median explodes past 3 000 000. -/
def cliffServer : Server where
  achievedQps t := t
  p50Us t := if t ≤ 3000000 then 50 else 5000
  p50Us_pos t := by split <;> decide
  p50Us_mono t t' hle := by
    simp only
    split <;> split <;> omega
  offerOk_anti t t' _ _ := by
    unfold offerOk
    rw [decide_eq_true_iff]
    omega

/-- Against the cliff the ramp does not hit the cap, and the bracket is around the cliff. -/
theorem bracket_separates_cliff :
    ∃ c : RampController, c.doublings ≠ maxDoublings ∧
      Bisection.Separates (cliffServer.Sustains false c.thresholdUs) c.bracket.1 c.bracket.2 ∧
      c.bracket = (3000000, 3100000) := by
  obtain ⟨n, c, r, hrun, hsep⟩ := bracket_separates_sustained cliffServer false
  have hfinal : runToSaturation cliffServer.oracle (new false) 0 25
      = some (10, ⟨3100000, 1600000, 5, .bisect, 3000000, 3100000, 4, false, 50⟩,
        ⟨3000000, true, 3000000⟩) := by
    rfl
  rw [hfinal, Option.some.injEq, Prod.mk.injEq, Prod.mk.injEq] at hrun
  obtain ⟨-, rfl, -⟩ := hrun
  exact ⟨_, by decide, (hsep (by decide)).1, rfl⟩

end RampController

end Dnsmark.Engine
