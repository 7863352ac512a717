import Mathlib.Order.Monotone.Basic
import Mathlib.Tactic.Ring

/-!
# The ramp controller

`RampController` of `src/engine/ramp.rs`, the Dichotomic Saturation Discovery behind `--ramp`:
double the target rate until a step is not sustained, then bisect between the last sustained target
and the first failed one.

`advance` is cut in three along the source's own comments: `observe` tracks the latency floor,
`sustained` is the verdict on the step, `moveOn` is the two-phase search, which sees nothing but the
verdict.  The two `f64` products are read exactly: `0.80 * x` truncated is `4 * x / 5` and `3.0 * b`
is `3 * b`, for every target and every latency the ramp can meet.
-/

/-! ## Bisection of an integer bracket

A bracket `(lo, hi)` around the threshold of a downward-closed predicate, and the midpoint that
halves it.  `Separates P lo hi` is what a search for the threshold is after: everything up to `lo`
satisfies `P` and nothing from `hi` on does. -/

namespace Bisection

/-- The midpoint of a bracket, rounded down. -/
def mid (lo hi : ℕ) : ℕ := lo + (hi - lo) / 2

/-- A bracket of even width is halved exactly. -/
theorem mid_add_double (lo w : ℕ) : mid lo (lo + 2 * w) = lo + w := by
  unfold mid
  omega

/-- Every positive value up to `lo` satisfies `P`, no value from `hi` on does. -/
def Separates (P : ℕ → Prop) (lo hi : ℕ) : Prop :=
  (∀ t, 0 < t → t ≤ lo → P t) ∧ ∀ t, hi ≤ t → ¬ P t

/-- For a downward-closed predicate the two ends decide. -/
theorem separates_of_ends {P : ℕ → Prop} (hP : ∀ t t', t ≤ t' → P t' → P t) {lo hi : ℕ}
    (hlo : 0 < lo → P lo) (hhi : ¬ P hi) : Separates P lo hi :=
  ⟨fun t ht hle => hP t lo hle (hlo (ht.trans_le hle)), fun t hle ht => hhi (hP hi t hle ht)⟩

end Bisection

/-! ## The controller -/

namespace Dnsmark.Engine

/-- `MAX_DOUBLINGS`. -/
def maxDoublings : ℕ := 20

/-- `MAX_BISECT`. -/
def maxBisect : ℕ := 14

/-- `START_QPS`. -/
def startQps : ℕ := 100000

/-- `SLO_FACTOR`. -/
def sloFactor : ℕ := 3

/-- `SLO_MARGIN_US`. -/
def sloMarginUs : ℕ := 1000

/-- `u64::saturating_mul`. -/
def saturatingMul (x y : ℕ) : ℕ := min (x * y) (2 ^ 64 - 1)

inductive Phase where
  | exp
  | bisect
deriving DecidableEq, Repr

structure RampController where
  currentQps : ℕ
  lastStableQps : ℕ
  doublings : ℕ
  phase : Phase
  lo : ℕ
  hi : ℕ
  bisectSteps : ℕ
  useXdp : Bool
  baselineUs : ℕ
deriving DecidableEq, Repr

/-- What `advance` returns. -/
structure Report where
  newTargetQps : ℕ
  saturated : Bool
  maxSustainableQps : ℕ
deriving DecidableEq, Repr

namespace RampController

def new (useXdp : Bool) : RampController where
  currentQps := startQps
  lastStableQps := 0
  doublings := 0
  phase := .exp
  lo := 0
  hi := 0
  bisectSteps := 0
  useXdp := useXdp
  baselineUs := 0

/-- The p50 SLO for the measured latency floor `baselineUs`. -/
def thresholdUs (c : RampController) : ℕ :=
  let b := max c.baselineUs 1
  max (sloFactor * b) (b + sloMarginUs)

def bracket (c : RampController) : ℕ × ℕ := (c.lo, c.hi)

def converged (c : RampController) : Bool := decide (c.hi - c.lo ≤ max (c.lo / 20) 5000)

/-- Track the latency floor. -/
def observe (c : RampController) (p50Us : ℕ) : RampController :=
  if 0 < p50Us ∧ (c.baselineUs = 0 ∨ p50Us < c.baselineUs) then { c with baselineUs := p50Us } else c

/-- `offer_ok`: the datapath delivered 80 % of the target. -/
def offerOk (target achievedQps : ℕ) : Bool := decide (4 * target / 5 ≤ achievedQps)

/-- The verdict `ok` on a step. -/
def sustained (c : RampController) (achievedQps p50Us : ℕ) : Bool :=
  let latencyOk := decide (p50Us ≤ c.thresholdUs)
  if c.useXdp then latencyOk else latencyOk && offerOk c.currentQps achievedQps

/-- The `match self.phase` of `advance`. -/
def moveOn (c : RampController) (ok : Bool) : RampController × Report :=
  match c.phase with
  | .exp =>
    if ok then
      let c := { c with lastStableQps := c.currentQps, doublings := c.doublings + 1 }
      if maxDoublings ≤ c.doublings then (c, ⟨c.currentQps, true, c.currentQps⟩)
      else
        let c := { c with currentQps := saturatingMul c.currentQps 2 }
        (c, ⟨c.currentQps, false, 0⟩)
    else
      let c := { c with lo := c.lastStableQps, hi := c.currentQps, phase := .bisect }
      if c.converged then (c, ⟨max c.lo 1, true, c.lo⟩)
      else
        let c := { c with currentQps := c.lo + (c.hi - c.lo) / 2 }
        (c, ⟨c.currentQps, false, 0⟩)
  | .bisect =>
    let c := if ok then { c with lo := c.currentQps } else { c with hi := c.currentQps }
    let c := { c with bisectSteps := c.bisectSteps + 1 }
    if c.converged ∨ maxBisect ≤ c.bisectSteps then (c, ⟨max c.lo 1, true, c.lo⟩)
    else
      let c := { c with currentQps := c.lo + (c.hi - c.lo) / 2 }
      (c, ⟨c.currentQps, false, 0⟩)

def advance (c : RampController) (achievedQps p50Us : ℕ) : RampController × Report :=
  let c := c.observe p50Us
  c.moveOn (c.sustained achievedQps p50Us)

/-- `run_to_saturation`: call `advance` until it reports saturation, at most `guard` times.  The
oracle answers call number `n` at the target it is asked about.  Returns the number of calls made,
the controller and the last report. -/
def runToSaturation (oracle : ℕ → ℕ → ℕ × ℕ) (c : RampController) (n : ℕ) :
    ℕ → Option (ℕ × RampController × Report)
  | 0 => none
  | guard + 1 =>
    let r := c.advance (oracle n c.currentQps).1 (oracle n c.currentQps).2
    if r.2.saturated then some (n + 1, r.1, r.2) else runToSaturation oracle r.1 (n + 1) guard

/-! ## What one call does -/

section Observe

variable (c : RampController) (p50Us : ℕ)

@[simp] theorem observe_currentQps : (c.observe p50Us).currentQps = c.currentQps := by
  unfold observe
  split <;> rfl

@[simp] theorem observe_lastStableQps : (c.observe p50Us).lastStableQps = c.lastStableQps := by
  unfold observe
  split <;> rfl

@[simp] theorem observe_doublings : (c.observe p50Us).doublings = c.doublings := by
  unfold observe
  split <;> rfl

@[simp] theorem observe_phase : (c.observe p50Us).phase = c.phase := by
  unfold observe
  split <;> rfl

@[simp] theorem observe_lo : (c.observe p50Us).lo = c.lo := by
  unfold observe
  split <;> rfl

@[simp] theorem observe_hi : (c.observe p50Us).hi = c.hi := by
  unfold observe
  split <;> rfl

@[simp] theorem observe_bisectSteps : (c.observe p50Us).bisectSteps = c.bisectSteps := by
  unfold observe
  split <;> rfl

@[simp] theorem observe_useXdp : (c.observe p50Us).useXdp = c.useXdp := by
  unfold observe
  split <;> rfl

/-- A positive observation no higher than the floor, or the first one, is the new floor. -/
theorem observe_baselineUs_of_ge (hp : 0 < p50Us) (hge : c.baselineUs = 0 ∨ p50Us ≤ c.baselineUs) :
    (c.observe p50Us).baselineUs = p50Us := by
  unfold observe
  split
  · rfl
  · omega

end Observe

/-- The four moves that go on and the ways a move stops. -/
inductive Moved (c : RampController) : Bool → RampController → Report → Prop
  | doubled (hp : c.phase = .exp) (hd : c.doublings + 1 < maxDoublings) :
      Moved c true
        { c with
          lastStableQps := c.currentQps
          doublings := c.doublings + 1
          currentQps := saturatingMul c.currentQps 2 }
        ⟨saturatingMul c.currentQps 2, false, 0⟩
  | capped (hp : c.phase = .exp) (hd : maxDoublings ≤ c.doublings + 1) :
      Moved c true
        { c with lastStableQps := c.currentQps, doublings := c.doublings + 1 }
        ⟨c.currentQps, true, c.currentQps⟩
  | bracketed (hp : c.phase = .exp) (c' : RampController)
      (hc' : c' = { c with lo := c.lastStableQps, hi := c.currentQps, phase := .bisect })
      (hconv : ¬ c'.converged) :
      Moved c false { c' with currentQps := Bisection.mid c'.lo c'.hi }
        ⟨Bisection.mid c'.lo c'.hi, false, 0⟩
  | bracketedDone (hp : c.phase = .exp) (c' : RampController)
      (hc' : c' = { c with lo := c.lastStableQps, hi := c.currentQps, phase := .bisect })
      (hconv : c'.converged) :
      Moved c false c' ⟨max c'.lo 1, true, c'.lo⟩
  | halved (hp : c.phase = .bisect) (ok : Bool) (c' : RampController)
      (hc' : c' = { c with
        lo := if ok then c.currentQps else c.lo
        hi := if ok then c.hi else c.currentQps
        bisectSteps := c.bisectSteps + 1 })
      (hgo : ¬ (c'.converged ∨ maxBisect ≤ c'.bisectSteps)) :
      Moved c ok { c' with currentQps := Bisection.mid c'.lo c'.hi }
        ⟨Bisection.mid c'.lo c'.hi, false, 0⟩
  | halvedDone (hp : c.phase = .bisect) (ok : Bool) (c' : RampController)
      (hc' : c' = { c with
        lo := if ok then c.currentQps else c.lo
        hi := if ok then c.hi else c.currentQps
        bisectSteps := c.bisectSteps + 1 })
      (hstop : c'.converged ∨ maxBisect ≤ c'.bisectSteps) :
      Moved c ok c' ⟨max c'.lo 1, true, c'.lo⟩

/-- `moveOn` makes one of these moves. -/
theorem moveOn_moved (c : RampController) (ok : Bool) :
    Moved c ok (c.moveOn ok).1 (c.moveOn ok).2 := by
  unfold moveOn
  split
  · rename_i hp
    cases ok with
    | true =>
      simp only [if_true]
      split
      · exact .capped hp ‹_›
      · exact .doubled hp (by omega)
    | false =>
      simp only [Bool.false_eq_true, if_false]
      split
      · exact .bracketedDone hp _ rfl ‹_›
      · exact .bracketed hp _ rfl ‹_›
  · rename_i hp
    cases ok with
    | true =>
      simp only [if_true]
      split
      · exact .halvedDone hp true _ rfl ‹_›
      · exact .halved hp true _ rfl ‹_›
    | false =>
      simp only [Bool.false_eq_true, if_false]
      split
      · exact .halvedDone hp false _ rfl ‹_›
      · exact .halved hp false _ rfl ‹_›

/-- One call observes the latency and makes the move its verdict asks for. -/
theorem advance_moved (c : RampController) (achievedQps p50Us : ℕ) :
    Moved (c.observe p50Us) ((c.observe p50Us).sustained achievedQps p50Us)
      (c.advance achievedQps p50Us).1 (c.advance achievedQps p50Us).2 :=
  moveOn_moved _ _

/-! ## Driving the controller -/

/-- The rule for `runToSaturation`: a property `J` of the calls made and the controller that every
call keeps until it saturates, that implies `Q` when it does, and that bounds the number of calls.
-/
theorem runToSaturation_rule (oracle : ℕ → ℕ → ℕ × ℕ) {J : ℕ → RampController → Prop}
    {Q : ℕ → RampController → Report → Prop} {N : ℕ} (hN : ∀ n c, J n c → n < N)
    (hstep : ∀ n c, J n c →
      let p50Us := (oracle n c.currentQps).2
      let ok := (c.observe p50Us).sustained (oracle n c.currentQps).1 p50Us
      ∀ c' r, Moved (c.observe p50Us) ok c' r →
        if r.saturated then Q (n + 1) c' r else J (n + 1) c')
    {n : ℕ} {c : RampController} (guard : ℕ) (hguard : n + guard = N) (hJ : J n c) :
    ∃ n' c' r, runToSaturation oracle c n guard = some (n', c', r) ∧ Q n' c' r := by
  induction guard generalizing n c with
  | zero => exact absurd (hN n c hJ) (by omega)
  | succ guard ih =>
    have hmoved := hstep n c hJ _ _ (c.advance_moved _ _)
    unfold runToSaturation
    by_cases hsat : (c.advance (oracle n c.currentQps).1 (oracle n c.currentQps).2).2.saturated
    · rw [if_pos hsat] at hmoved
      exact ⟨_, _, _, if_pos hsat, hmoved⟩
    · rw [if_neg hsat] at hmoved
      obtain ⟨n', c', r, hrun, hQ⟩ := ih (by omega) hmoved
      exact ⟨n', c', r, (if_neg hsat).trans hrun, hQ⟩

end RampController

end Dnsmark.Engine
