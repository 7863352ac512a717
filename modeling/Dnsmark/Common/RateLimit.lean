import Mathlib.Algebra.BigOperators.Intervals
import Mathlib.Algebra.Order.Floor.Semiring
import Mathlib.Algebra.Order.Ring.Rat
import Mathlib.Data.Rat.Floor
import Mathlib.Tactic.Linarith

/-!
# Rate limiters

Two ways to hold a rate, and how much each can let through in a window of time.

A schedule keeps the time of the next dispatch.  A dispatch is due when that time has come, advances it by
one interval, and may leave it behind the clock by `slack` at most, so a delay is made up for in a burst
that `slack` bounds (`Dispatched.length_le`).

A token bucket earns tokens with time, holds `cap` of them at most, and grants the whole ones.  What is
granted and what is carried is paid for by what was earned (`TokenBucket.sum_grant_le`).
-/

namespace RateLimit

/-! ## Schedules with bounded catch-up -/

/-- Dispatches at the times `cs`, from a schedule whose next dispatch is at `next`. -/
inductive Dispatched (interval slack : ℕ) : ℕ → List ℕ → Prop
  | nil (next : ℕ) : Dispatched interval slack next []
  | cons {next c next' : ℕ} {cs : List ℕ} (due : next ≤ c) (advance : next + interval ≤ next')
      (catchUp : c ≤ next' + slack) (rest : Dispatched interval slack next' cs) :
      Dispatched interval slack next (c :: cs)

namespace Dispatched

variable {interval slack next : ℕ} {cs : List ℕ}

/-- An earlier schedule allows as much. -/
theorem mono {next' : ℕ} (h : Dispatched interval slack next' cs) (hle : next ≤ next') :
    Dispatched interval slack next cs := by
  cases h with
  | nil => exact .nil next
  | cons due advance catchUp rest => exact .cons (hle.trans due) (by omega) catchUp rest

/-- So do some of the dispatches only. -/
theorem sublist (h : Dispatched interval slack next cs) {cs' : List ℕ} (hsub : cs'.Sublist cs) :
    Dispatched interval slack next cs' := by
  induction hsub generalizing next with
  | slnil => exact h
  | cons _ _ ih =>
    cases h with
    | cons _ advance _ rest => exact ih (rest.mono (by omega))
  | cons_cons _ _ ih =>
    cases h with
    | cons due advance catchUp rest => exact .cons due advance catchUp (ih rest)

/-- The last of `n` dispatches is `n - 1` intervals behind the schedule's start. -/
theorem le_getLast (h : Dispatched interval slack next cs) (hne : cs ≠ []) :
    next + cs.length * interval ≤ cs.getLast hne + interval := by
  induction h with
  | nil => exact absurd rfl hne
  | @cons next c next' cs due advance catchUp rest ih =>
    rw [List.length_cons, Nat.succ_mul]
    by_cases hnil : cs = []
    · subst hnil
      rw [List.length_nil, Nat.zero_mul, List.getLast_singleton]
      omega
    · have hlast := ih hnil
      rw [List.getLast_cons hnil]
      omega

/-- In a window of `span`, one dispatch may come late and the others come by the interval. -/
theorem length_le (h : Dispatched interval slack next cs) (hpos : 0 < interval) {span : ℕ}
    (hspan : ∀ c ∈ cs, ∀ c' ∈ cs, c' ≤ c + span) : cs.length ≤ 2 + (span + slack) / interval := by
  cases h with
  | nil => exact Nat.zero_le _
  | @cons _ c next' cs _ _ catchUp rest =>
    -- the first dispatch may be late by any time; behind it the schedule is late by `slack` at most
    have hcount : cs.length ≤ (span + slack) / interval + 1 := by
      by_cases hnil : cs = []
      · subst hnil
        exact Nat.zero_le _
      · have hlast := rest.le_getLast hnil
        have hwithin := hspan c List.mem_cons_self (cs.getLast hnil)
          (List.mem_cons_of_mem c (List.getLast_mem hnil))
        rw [← Nat.add_div_right _ hpos, Nat.le_div_iff_mul_le hpos]
        omega
    rw [List.length_cons]
    omega

end Dispatched

/-! ## Token buckets -/

namespace TokenBucket

variable {K : Type*} [Field K] [LinearOrder K] [IsStrictOrderedRing K] [FloorRing K]

/-- The tokens after `earned` more have come in. -/
def refill (cap tokens earned : K) : K := min (tokens + earned) cap

/-- The whole tokens, which are granted. -/
def grant (level : K) : ℕ := ⌊level⌋₊

/-- What is carried over. -/
def carry (level : K) : K := level - ⌊level⌋₊

variable {cap tokens earned : K}

omit [FloorRing K] in
theorem refill_nonneg (hcap : 0 ≤ cap) (htokens : 0 ≤ tokens) (hearned : 0 ≤ earned) :
    0 ≤ refill cap tokens earned := le_min (add_nonneg htokens hearned) hcap

theorem carry_nonneg {level : K} (h : 0 ≤ level) : 0 ≤ carry level :=
  sub_nonneg.mpr (Nat.floor_le h)

theorem carry_lt_one (level : K) : carry level < 1 := by
  have hfloor := Nat.lt_floor_add_one level
  unfold carry
  linarith

/-- No more is granted than the bucket holds. -/
theorem grant_le {n : ℕ} (tokens earned : K) : grant (refill (n : K) tokens earned) ≤ n := by
  have hle : grant (refill (n : K) tokens earned) ≤ ⌊(n : K)⌋₊ :=
    Nat.floor_le_floor (min_le_right _ _)
  rwa [Nat.floor_natCast] at hle

omit [IsStrictOrderedRing K] in
/-- What is granted and carried was there or has been earned. -/
theorem grant_add_carry_le (cap tokens earned : K) :
    (grant (refill cap tokens earned) : K) + carry (refill cap tokens earned) ≤ tokens + earned := by
  have hsum : (grant (refill cap tokens earned) : K) + carry (refill cap tokens earned)
      = refill cap tokens earned := add_sub_cancel _ _
  rw [hsum]
  exact min_le_left _ _

omit [FloorRing K] in
/-- Over any iterations in a row, the tokens carried at the start pay for what is granted beyond what is
earned. -/
theorem sum_grant_le (tokensAt : ℕ → K) (granted : ℕ → ℕ) (earned : ℕ → K)
    (hstep : ∀ i, (granted (i + 1) : K) + tokensAt (i + 1) ≤ tokensAt i + earned (i + 1)) {a b : ℕ}
    (hab : a ≤ b) :
    (∑ i ∈ Finset.Ioc a b, (granted i : K)) + tokensAt b
      ≤ tokensAt a + ∑ i ∈ Finset.Ioc a b, earned i := by
  induction b, hab using Nat.le_induction with
  | base => simp
  | succ b hab ih =>
    have hlast := hstep b
    rw [Finset.sum_Ioc_succ_top (by omega), Finset.sum_Ioc_succ_top (by omega)]
    linarith

end TokenBucket

end RateLimit
