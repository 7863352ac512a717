import Dnsmark.Common.RateLimit
import Dnsmark.Xdp.UnifiedWorker

/-!
# The rate limiter of the unified AF_XDP worker

`tokens` and `last_refill` of `xdp_unified_worker`: at a target rate every iteration earns
`elapsed * qps` tokens, holds `TX_BATCH` of them at most and grants the whole ones; without a rate it
grants `TX_BATCH`.  The tokens are a `f64` in the source and exact rationals here.

`UnifiedWorker` leaves the grant free up to `TX_BATCH`; `step_gate_grant` says that this is what the
limiter hands it.
-/

namespace Dnsmark.Xdp

open RateLimit

/-- `as_secs_f64` of a duration in nanoseconds. -/
def seconds (ns : ℕ) : ℚ := ns / 1000000000

/-- `tokens` and `last_refill`. -/
structure RateLimiter where
  tokens : ℚ
  lastRefill : ℕ
deriving DecidableEq, Repr

namespace RateLimiter

/-- The limiter as the loop starts. -/
def new (nowNs : ℕ) : RateLimiter := ⟨0, nowNs⟩

/-- What an iteration at `nowNs` under the rate `qps` does to the limiter, and how many frames it
grants. -/
def iterate (r : RateLimiter) (qps nowNs : ℕ) : RateLimiter × ℕ :=
  if 0 < qps then
    let tokens := TokenBucket.refill (txBatch : ℚ) r.tokens (seconds (nowNs - r.lastRefill) * qps)
    (⟨TokenBucket.carry tokens, nowNs⟩, TokenBucket.grant tokens)
  else (r, txBatch)

theorem iterate_of_pos (r : RateLimiter) {qps : ℕ} (h : 0 < qps) (nowNs : ℕ) :
    r.iterate qps nowNs
      = (⟨TokenBucket.carry (TokenBucket.refill (txBatch : ℚ) r.tokens
            (seconds (nowNs - r.lastRefill) * qps)), nowNs⟩,
          TokenBucket.grant (TokenBucket.refill (txBatch : ℚ) r.tokens
            (seconds (nowNs - r.lastRefill) * qps))) := if_pos h

/-- An iteration grants a batch at most, whatever the rate. -/
theorem iterate_snd_le (r : RateLimiter) (qps nowNs : ℕ) : (r.iterate qps nowNs).2 ≤ txBatch := by
  unfold iterate
  split
  · exact TokenBucket.grant_le _ _
  · exact le_refl _

/-- The gate takes every grant of the limiter. -/
theorem step_gate_grant (cfg : Config) {N : ℕ} (i : Fin N) {w : UnifiedWorker} (hpc : w.pc = .gate)
    (m : Shared) (r : RateLimiter) (qps nowNs : ℕ) :
    (w.step cfg N i m (.gate (r.iterate qps nowNs).2)).isSome := by
  unfold UnifiedWorker.step
  rw [hpc]
  simp only [if_pos (r.iterate_snd_le qps nowNs)]
  rfl

/-! ## Over a whole run -/

section

variable (clock rate : ℕ → ℕ)

/-- The limiter after iteration `i`; `clock 0` is read before the loop. -/
def after : ℕ → RateLimiter
  | 0 => new (clock 0)
  | i + 1 => ((after i).iterate (rate (i + 1)) (clock (i + 1))).1

/-- What iteration `i` grants. -/
def granted : ℕ → ℕ
  | 0 => 0
  | i + 1 => ((after clock rate i).iterate (rate (i + 1)) (clock (i + 1))).2

/-- What iteration `i` earns. -/
def earned (i : ℕ) : ℚ := rate i * (seconds (clock i) - seconds (clock (i - 1)))

end

variable {clock rate : ℕ → ℕ}

theorem seconds_sub {t t' : ℕ} (h : t ≤ t') : seconds (t' - t) = seconds t' - seconds t := by
  rw [seconds, Nat.cast_sub h, sub_div]
  rfl

theorem seconds_nonneg (t : ℕ) : 0 ≤ seconds t := by
  unfold seconds
  positivity

section

variable (hrate : ∀ i, 0 < rate (i + 1))

include hrate

/-- At a positive rate every iteration refills. -/
theorem lastRefill_after (i : ℕ) : (after clock rate i).lastRefill = clock i := by
  cases i with
  | zero => rfl
  | succ i => rw [after, iterate_of_pos _ (hrate i)]

/-- The next iteration, with what it earns. -/
theorem iterate_after (hclock : Monotone clock) (i : ℕ) :
    after clock rate (i + 1)
        = ⟨TokenBucket.carry (TokenBucket.refill (txBatch : ℚ) (after clock rate i).tokens
            (earned clock rate (i + 1))), clock (i + 1)⟩ ∧
      granted clock rate (i + 1)
        = TokenBucket.grant (TokenBucket.refill (txBatch : ℚ) (after clock rate i).tokens
            (earned clock rate (i + 1))) := by
  have hearned : seconds (clock (i + 1) - (after clock rate i).lastRefill) * (rate (i + 1) : ℚ)
      = earned clock rate (i + 1) := by
    rw [lastRefill_after hrate, seconds_sub (hclock (Nat.le_succ i)), mul_comm]
    rfl
  rw [after, granted, iterate_of_pos _ (hrate i), hearned]
  exact ⟨rfl, rfl⟩

/-- After every iteration less than one token is left. -/
theorem tokens_after (hclock : Monotone clock) (i : ℕ) :
    0 ≤ (after clock rate i).tokens ∧ (after clock rate i).tokens < 1 := by
  induction i with
  | zero => exact ⟨le_refl 0, zero_lt_one⟩
  | succ i ih =>
    have hearned : 0 ≤ earned clock rate (i + 1) := by
      have hstep := hclock (Nat.le_succ i)
      unfold earned
      rw [Nat.add_sub_cancel, ← seconds_sub hstep]
      exact mul_nonneg (Nat.cast_nonneg _) (seconds_nonneg _)
    rw [(iterate_after hrate hclock i).1]
    exact ⟨TokenBucket.carry_nonneg (TokenBucket.refill_nonneg (Nat.cast_nonneg _) ih.1 hearned),
      TokenBucket.carry_lt_one _⟩

end

/-- The token bucket never exceeds the target rate: at every sequence of clock readings that does not go
back and every sequence of positive rates, after each iteration less than one token is left, each grants
`TX_BATCH` frames at most, and the iterations `a + 1, …, b` together grant less than one frame more than
`qps` times the time between them. -/
theorem token_bucket_within_rate (clock rate : ℕ → ℕ) (hclock : Monotone clock)
    (hrate : ∀ i, 0 < rate (i + 1)) :
    (∀ i, 0 ≤ (after clock rate i).tokens ∧ (after clock rate i).tokens < 1) ∧
      (∀ i, granted clock rate i ≤ txBatch) ∧
      ∀ a b, a ≤ b → ∑ i ∈ Finset.Ioc a b, (granted clock rate i : ℚ)
        < 1 + ∑ i ∈ Finset.Ioc a b, (rate i : ℚ) * (seconds (clock i) - seconds (clock (i - 1))) := by
  refine ⟨tokens_after hrate hclock, ?_, ?_⟩
  · intro i
    cases i with
    | zero => exact Nat.zero_le _
    | succ i => exact iterate_snd_le _ _ _
  · intro a b hab
    have hstep (i : ℕ) : (granted clock rate (i + 1) : ℚ) + (after clock rate (i + 1)).tokens
        ≤ (after clock rate i).tokens + earned clock rate (i + 1) := by
      obtain ⟨hafter, hgranted⟩ := iterate_after hrate hclock i
      rw [hafter, hgranted]
      exact TokenBucket.grant_add_carry_le _ _ _
    have hsum := TokenBucket.sum_grant_le (fun i => (after clock rate i).tokens)
      (granted clock rate) (earned clock rate) hstep hab
    -- less than one token was there at the start, and none can be owed at the end
    have hstart := (tokens_after hrate hclock a).2
    have hend := (tokens_after hrate hclock b).1
    change _ < 1 + ∑ i ∈ Finset.Ioc a b, earned clock rate i
    linarith

/-- One query a second, looked at every half second. -/
theorem token_bucket_within_rate_halfSecond :
    granted (fun i => i * 500000000) (fun _ => 1) 2 = 1 ∧
      ∑ i ∈ Finset.Ioc 1 4, (granted (fun i => i * 500000000) (fun _ => 1) i : ℚ) < 5 / 2 := by
  have hclock : Monotone fun i : ℕ => i * 500000000 := fun i j hij => Nat.mul_le_mul_right _ hij
  obtain ⟨-, -, hwindow⟩ :=
    token_bucket_within_rate (fun i => i * 500000000) (fun _ => 1) hclock fun _ => Nat.one_pos
  refine ⟨by decide +kernel, (hwindow 1 4 (by decide)).trans_eq ?_⟩
  decide +kernel

end RateLimiter

end Dnsmark.Xdp
