import Dnsmark.Engine.Ramp

/-!
# The ramp always converges

Whatever the oracle answers, the search stops within 25 calls.  The doubling phase keeps `currentQps
= 100000 * 2 ^ doublings`.  When it fails, the bracket is `(0, 100000)` or `(L, 2 * L)` with `L =
100000 * 2 ^ j`; in both cases its width is a multiple `32 * u`, so five halvings are exact and end
at width `u`.  That width is within the tolerance whatever the verdicts were: `u` is 3125 in the
first case, and in the second `lo` never falls below `L = 32 * u`.
-/

namespace Dnsmark.Engine

namespace RampController

/-- Where the search is after `n` calls without saturation. -/
inductive Searching (n : ℕ) (c : RampController) : Prop
  | doubling (hphase : c.phase = .exp) (hd : c.doublings < maxDoublings) (hn : n = c.doublings)
      (hcur : c.currentQps = startQps * 2 ^ c.doublings) (hsteps : c.bisectSteps = 0)
      (hlast : c.doublings = 0 ∧ c.lastStableQps = 0 ∨
        0 < c.doublings ∧ c.currentQps = 2 * c.lastStableQps)
  | bisecting (u : ℕ) (hphase : c.phase = .bisect) (hd : c.doublings < maxDoublings)
      (hk : c.bisectSteps < 5) (hn : n = c.doublings + 1 + c.bisectSteps)
      (hhi : c.hi = c.lo + 2 * (u * 2 ^ (4 - c.bisectSteps)))
      (hcur : c.currentQps = c.lo + u * 2 ^ (4 - c.bisectSteps))
      (hu : u ≤ 5000 ∨ 32 * u ≤ c.lo)

/-- How the search ends. -/
inductive Settled (n : ℕ) (c : RampController) : Prop
  | capped (hphase : c.phase = .exp) (hd : c.doublings = maxDoublings) (hn : n = maxDoublings)
  | converged (hphase : c.phase = .bisect) (hd : c.doublings < maxDoublings) (hconv : c.converged)
      (hk : c.bisectSteps ≤ 5) (hn : n = c.doublings + 1 + c.bisectSteps)

theorem searching_new (useXdp : Bool) : Searching 0 (new useXdp) :=
  .doubling rfl (Nat.succ_pos _) rfl rfl rfl (.inl ⟨rfl, rfl⟩)

theorem Searching.lt {n : ℕ} {c : RampController} (h : Searching n c) : n < 25 := by
  cases h with
  | doubling _ hd hn =>
    unfold maxDoublings at hd
    omega
  | bisecting _ _ hd hk hn =>
    unfold maxDoublings at hd
    omega

/-- Observing a latency does not move the search. -/
theorem Searching.observe {n : ℕ} {c : RampController} (h : Searching n c) (p50Us : ℕ) :
    Searching n (c.observe p50Us) := by
  cases h with
  | doubling hphase hd hn hcur hsteps hlast =>
    exact .doubling (by simpa) (by simpa) (by simpa) (by simpa) (by simpa) (by simpa)
  | bisecting u hphase hd hk hn hhi hcur hu =>
    exact .bisecting u (by simpa) (by simpa) (by simpa) (by simpa) (by simpa) (by simpa) (by simpa)

/-- Every target of the doubling phase doubles within `u64`. -/
theorem saturatingMul_startQps {d : ℕ} (hd : d < maxDoublings) :
    saturatingMul (startQps * 2 ^ d) 2 = startQps * 2 ^ (d + 1) := by
  have hpow : 2 ^ d ≤ 2 ^ 19 := Nat.pow_le_pow_right (by decide) (by unfold maxDoublings at hd; omega)
  unfold saturatingMul startQps
  rw [pow_succ]
  omega

/-- The bracket the doubling phase ends with is `32 * u` wide, and `u` is within the tolerance. -/
theorem exists_width_of_doubling {d last : ℕ}
    (hlast : d = 0 ∧ last = 0 ∨ 0 < d ∧ startQps * 2 ^ d = 2 * last) :
    ∃ u, startQps * 2 ^ d = last + 2 * (u * 2 ^ 4) ∧ (u ≤ 5000 ∨ 32 * u ≤ last) := by
  obtain ⟨rfl, rfl⟩ | ⟨hd, hlast⟩ := hlast
  · exact ⟨3125, by decide, .inl (by decide)⟩
  · obtain ⟨d, rfl⟩ := Nat.exists_eq_add_one.mpr hd
    rw [pow_succ] at hlast ⊢
    unfold startQps at hlast ⊢
    exact ⟨3125 * 2 ^ d, by omega, .inr (by omega)⟩

/-- A halved bracket is half as wide, and its lower end has not moved down. -/
theorem halved_bracket {lo hi cur w : ℕ} (hhi : hi = lo + 2 * w) (hcur : cur = lo + w) (ok : Bool) :
    (if ok then hi else cur) = (if ok then cur else lo) + w ∧ lo ≤ (if ok then cur else lo) := by
  cases ok <;> simp <;> omega

/-- Five halvings reach the tolerance. -/
theorem converged_of_width {c : RampController} {u : ℕ} (hhi : c.hi = c.lo + u)
    (hu : u ≤ 5000 ∨ 32 * u ≤ c.lo) : c.converged := by
  unfold converged
  rw [decide_eq_true_iff]
  omega

/-- A call keeps the search going or settles it. -/
theorem Searching.moved {n : ℕ} {c c' : RampController} {ok : Bool} {r : Report}
    (h : Searching n c) (hm : Moved c ok c' r) :
    if r.saturated then Settled (n + 1) c' else Searching (n + 1) c' := by
  cases h with
  | doubling hphase hd hn hcur hsteps hlast =>
    cases hm with
    | doubled _ hd' =>
      refine .doubling hphase hd' (by rw [hn]) ?_ hsteps (.inr ⟨Nat.succ_pos _, ?_⟩)
      · simp only [hcur]
        exact saturatingMul_startQps hd
      · simp only [hcur, saturatingMul_startQps hd, pow_succ]
        ring
    | capped _ hd' =>
      exact .capped hphase (by simp only; omega) (by omega)
    | bracketed _ c₁ hc₁ hconv =>
      obtain ⟨u, hwidth, hu⟩ := exists_width_of_doubling (hcur ▸ hlast)
      subst hc₁
      refine .bisecting u rfl hd (by simp only [hsteps]; decide) (by simp only [hsteps, hn]) ?_ ?_ hu
      · simp only [hsteps, hcur, hwidth]
      · simp only [hsteps, hcur, hwidth, Bisection.mid_add_double]
    | bracketedDone _ c₁ hc₁ hconv =>
      subst hc₁
      exact .converged rfl hd hconv (by simp only [hsteps]; decide) (by simp only [hsteps, hn])
    | halved hp => exact absurd (hphase.symm.trans hp) (by decide)
    | halvedDone hp => exact absurd (hphase.symm.trans hp) (by decide)
  | bisecting u hphase hd hk hn hhi hcur hu =>
    cases hm with
    | doubled hp => exact absurd (hphase.symm.trans hp) (by decide)
    | capped hp => exact absurd (hphase.symm.trans hp) (by decide)
    | bracketed hp => exact absurd (hphase.symm.trans hp) (by decide)
    | bracketedDone hp => exact absurd (hphase.symm.trans hp) (by decide)
    | halved _ _ c₁ hc₁ hgo =>
      obtain ⟨hwidth, hle⟩ := halved_bracket hhi hcur ok
      -- at the fifth halving the tolerance would have stopped the search
      have hk' : c.bisectSteps < 4 := by
        by_contra hk'
        obtain hk4 : c.bisectSteps = 4 := by omega
        rw [hk4] at hwidth
        subst hc₁
        exact hgo (.inl (converged_of_width (by simpa using hwidth) (by simp only; omega)))
      have hhalf : u * 2 ^ (4 - c.bisectSteps) = 2 * (u * 2 ^ (4 - (c.bisectSteps + 1))) := by
        rw [show 4 - c.bisectSteps = 4 - (c.bisectSteps + 1) + 1 by omega, pow_succ]
        ring
      rw [hhalf] at hwidth
      subst hc₁
      refine .bisecting u hphase hd (by simp only; omega) (by simp only; omega) hwidth ?_
        (by simp only; omega)
      simp only [hwidth, Bisection.mid_add_double]
    | halvedDone _ _ c₁ hc₁ hstop =>
      subst hc₁
      refine .converged hphase hd (hstop.resolve_right ?_) (by simp only; omega) (by simp only; omega)
      simp only [maxBisect]
      omega

/-- Whatever the oracle answers, and whichever datapath is ramped, `advance` reports saturation
within 25 calls; the search then ends on the doubling cap or on a bracket within the tolerance,
reached in at most five bisections. -/
theorem saturates_within_25 (oracle : ℕ → ℕ → ℕ × ℕ) (useXdp : Bool) :
    ∃ n c r, runToSaturation oracle (new useXdp) 0 25 = some (n, c, r) ∧ n ≤ 25 ∧
      ((c.phase = .exp ∧ c.doublings = maxDoublings) ∨
        (c.phase = .bisect ∧ c.converged ∧ c.bisectSteps ≤ 5 ∧ c.bisectSteps < maxBisect)) := by
  obtain ⟨n, c, r, hrun, hset⟩ := runToSaturation_rule oracle (J := Searching)
    (Q := fun n c _ => Settled n c) (fun _ _ h => h.lt)
    (fun n c h c' r hm => (h.observe _).moved hm) 25 rfl (searching_new useXdp)
  refine ⟨n, c, r, hrun, ?_⟩
  cases hset with
  | capped hphase hd hn =>
    rw [hn]
    exact ⟨by decide, .inl ⟨hphase, hd⟩⟩
  | converged hphase hd hconv hk hn =>
    unfold maxDoublings at hd
    refine ⟨by omega, .inr ⟨hphase, hconv, hk, ?_⟩⟩
    unfold maxBisect
    omega

end RampController

end Dnsmark.Engine
