import Dnsmark.Engine.RampTask

/-!
# The rate of one worker

The target rate is divided by a number of workers and left in one cell that all workers read.  Four
places write the cell: the start-up of the engine, the AF_XDP datapath once it knows how many workers it
spawned, and the ramp task, before the first step and at every step.  The start-up and the ramp divide by
the configured number of clients; only the AF_XDP datapath divides by the workers that exist.
-/

namespace Dnsmark.Engine

open Dnsmark.Stats

/-- `initial_qps_per_worker` of `run_with_shutdown`; 0 is unlimited. -/
def initialQpsPerWorker (ramp : Bool) (qps concurrent : ℕ) : ℕ :=
  if ramp then perWorker (RampController.new false).currentQps concurrent
  else if 0 < qps then perWorker qps concurrent
  else 0

/-- The end of `do_start_xdp_receive_path`: the cell, recalibrated to the workers that were spawned. -/
def recalibrate (totalQps nUnified qpsPerWorker : ℕ) : ℕ :=
  if 0 < nUnified then if 0 < totalQps then max (totalQps / nUnified) 1 else qpsPerWorker
  else qpsPerWorker

/-- What the start-up leaves in the cell. -/
def startUpRate (ramp useXdp : Bool) (qps concurrent nUnified : ℕ) : ℕ :=
  let initial := initialQpsPerWorker ramp qps concurrent
  if useXdp then recalibrate qps nUnified initial else initial

/-- Whenever the workers are warming up or being measured in a ramp, they read the target of the step,
divided by the configured clients. -/
theorem RampTask.rate_while_paced (summary : List ℕ → LatencySummary) (cfg : RampConfig) (qps : ℕ)
    {es : List RampEvent} {t : RampTask}
    (hrun : (rampTask summary cfg).run (start cfg qps) es = some t) (hpaced : Paced t.pc) :
    t.qpsPerWorker = perWorker t.ctrl.currentQps cfg.concurrent := by
  refine (rampTask summary cfg).run_invariant
    (I := fun t => Paced t.pc → t.qpsPerWorker = perWorker t.ctrl.currentQps cfg.concurrent)
    ?_ (fun (hprime : Paced .prime) => hprime.elim) hrun hpaced
  intro t e t' h hstep hpaced
  cases step_stepped hstep with
  | waited qps pc _ _ _ hrate =>
    rcases hrate hpaced with rfl | ⟨hbefore, rfl⟩
    · rfl
    · exact h hbefore
  | measured w =>
    obtain ⟨-, htop⟩ | ⟨s, -, hs, -⟩ := measure_cases cfg t w
    · rw [htop] at hpaced
      exact hpaced.elim
    · rw [hs] at hpaced
      exact hpaced.elim

/-- With `c` configured clients and `N` workers sending, the target `T` is in force and `r` is left in
the cell: a fixed `-Q` after the start-up, a ramp after each of its writes.  The ramp is taken at any
target, not only at those its own search comes to. -/
inductive RateLeft (useXdp : Bool) (c N : ℕ) : (ramp : Bool) → (T r : ℕ) → Prop
  | fixed (T : ℕ) (hT : 0 < T) : RateLeft useXdp c N false T (startUpRate false useXdp T c N)
  | ramp (summary : List ℕ → LatencySummary) (primeSecs : ℕ) (t t' : RampTask) (e : RampEvent)
      (hstep : (rampTask summary ⟨useXdp, c, primeSecs⟩).step t e = some t')
      (hwrite : e = .prime ∨ e = .storeRate ∨ (t.closed summary e).isSome ∧ t'.pc = .top) :
      RateLeft useXdp c N true t'.ctrl.currentQps t'.qpsPerWorker

/-- The rates that use up the target as far as whole queries allow. -/
theorem divided_iff {N T r : ℕ} (hN : 1 ≤ N) : N * r ≤ T ∧ T < N * (r + 1) ↔ r = T / N := by
  rw [eq_comm, Nat.div_eq_iff hN, mul_comm N r, mul_comm N (r + 1), add_one_mul]
  omega

theorem perWorker_eq {T N : ℕ} (hN : 1 ≤ N) (hT : N ≤ T) : perWorker T N = T / N := by
  unfold perWorker
  rw [max_eq_left hN, max_eq_left (Nat.div_pos hT hN)]

/-- A fixed rate is divided by the workers that send. -/
theorem startUpRate_fixed (useXdp : Bool) {c N T : ℕ} (hN : 1 ≤ N) (hudp : useXdp = false → N = c)
    (hT : N ≤ T) : startUpRate false useXdp T c N = T / N := by
  have hpos : 0 < T := hN.trans hT
  cases useXdp with
  | false =>
    obtain rfl := hudp rfl
    simp only [startUpRate, initialQpsPerWorker, Bool.false_eq_true, if_false, if_pos hpos]
    exact perWorker_eq hN hT
  | true =>
    simp only [startUpRate, recalibrate, if_true, if_pos hpos, if_pos (Nat.lt_of_succ_le hN)]
    exact max_eq_left (Nat.div_pos hT hN)

/-- Every write of the ramp divides the new target by the configured clients. -/
theorem RateLeft.ramp_eq {useXdp : Bool} {c N T r : ℕ} (h : RateLeft useXdp c N true T r) :
    r = perWorker T c := by
  cases h with
  | ramp summary primeSecs t t' e hstep hwrite =>
    rcases hwrite with rfl | rfl | ⟨hclosed, htop⟩
    · obtain ⟨-, ⟨⟩⟩ := Option.ite_none_right_eq_some.mp hstep
      rfl
    · obtain ⟨-, ⟨⟩⟩ := Option.ite_none_right_eq_some.mp hstep
      rfl
    · cases RampTask.step_stepped hstep with
      | waited _ _ _ _ hopen =>
        rw [hopen] at hclosed
        exact nomatch hclosed
      | measured w => exact RampTask.measure_qpsPerWorker _ t w htop

/-- A ramp at the target `T`, when it stores the rate of its step. -/
theorem rateLeft_ramp (useXdp : Bool) (c N T : ℕ) : RateLeft useXdp c N true T (perWorker T c) :=
  .ramp (fun _ => {}) 0
    { ctrl := { RampController.new useXdp with currentQps := T }, qpsPerWorker := 0, pc := .top } _
    .storeRate rfl (.inr (.inl rfl))

/-- In every mode, for every number of configured clients and of workers sending (which are the clients
themselves on kernel-UDP), every target that gives each worker a query is divided by the workers sending,
exactly when a ramp on AF_XDP has as many workers as clients. -/
theorem rate_divided_iff (ramp useXdp : Bool) (c N : ℕ) (hc : 1 ≤ c) (hN : 1 ≤ N)
    (hudp : useXdp = false → N = c) :
    (∀ T r, RateLeft useXdp c N ramp T r → N ≤ T → N * r ≤ T ∧ T < N * (r + 1)) ↔
      (ramp = true → useXdp = true → N = c) := by
  simp only [divided_iff hN]
  constructor
  · rintro h rfl -
    -- at the target `N * c` every worker is given `N`
    have hmul : N ≤ N * c := Nat.le_mul_of_pos_right N hc
    have hrate := h (N * c) _ (rateLeft_ramp useXdp c N (N * c)) hmul
    rw [perWorker_eq hc (Nat.le_mul_of_pos_left c hN), Nat.mul_div_cancel N hc,
      Nat.mul_div_cancel_left c hN] at hrate
    exact hrate
  · intro h T r hleft hT
    cases ramp with
    | false =>
      cases hleft with
      | fixed => exact startUpRate_fixed useXdp hN hudp hT
    | true =>
      obtain rfl : N = c := by
        cases useXdp with
        | false => exact hudp rfl
        | true => exact h rfl rfl
      rw [hleft.ramp_eq]
      exact perWorker_eq hN hT

/-- A NIC with one queue and eight clients: in the first step of a ramp the one worker sends an eighth
of the target. -/
theorem ramp_rate_one_of_eight :
    ∃ t, (rampTask (fun _ => {}) ⟨true, 8, 5⟩).run
        (.start ⟨true, 8, 5⟩ (startUpRate true true 0 8 1)) [.prime, .primed false, .storeRate]
          = some t ∧
      t.ctrl.currentQps = 100000 ∧ t.qpsPerWorker = 12500 ∧
      ¬ t.ctrl.currentQps < 1 * (t.qpsPerWorker + 1) :=
  ⟨_, rfl, rfl, rfl, by decide⟩

/-- With as many workers as clients, a ramp on AF_XDP divides 100 000 as it should. -/
theorem ramp_rate_eight_of_eight :
    8 * perWorker 100000 8 ≤ 100000 ∧ 100000 < 8 * (perWorker 100000 8 + 1) :=
  (rate_divided_iff true true 8 8 (by decide) (by decide) nofun).mpr (fun _ _ => rfl) 100000 _
    (rateLeft_ramp true 8 8 100000) (by decide)

end Dnsmark.Engine
