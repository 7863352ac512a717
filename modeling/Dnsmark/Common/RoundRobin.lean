import Dnsmark.Common.Machine
import Mathlib.Algebra.BigOperators.Ring.Finset
import Mathlib.Data.List.GetD
import Mathlib.Data.List.Induction
import Mathlib.Logic.Function.Iterate

/-!
# Round robin

A counter of `w` bits, read modulo `len`, picks each of `len` positions in turn.  Over `n` draws, from
any start, a position is picked `n / len` times or once more; where the counter wraps, the cycle is broken
off once and the count can be off by one more in either direction (`count_picks`).

`dealers` are threads that draw from one shared counter with `fetch_add`.  Who gets what depends on the
interleaving; what they get together does not (`sum_dealt`).
-/

namespace RoundRobin

/-! ## Counting -/

/-- `n` positions in turn, from `start` on. -/
def turns (len start n : ℕ) : List ℕ := (List.range n).map fun k => (start + k) % len

/-- The positions of `n` draws from a counter of `w` bits. -/
def picks (w len start n : ℕ) : List ℕ := (List.range n).map fun k => (start + k) % 2 ^ w % len

theorem turns_succ (len start n : ℕ) : turns len start (n + 1) = turns len start n ++ [(start + n) % len] := by
  rw [turns, List.range_succ, List.map_append]
  rfl

/-- A position comes up whenever the counter, moved so that the position is at the end of the cycle, is
a multiple of the length. -/
theorem mod_eq_iff_dvd {len j : ℕ} (hj : j < len) (a : ℕ) : a % len = j ↔ len ∣ a + (len - 1 - j) + 1 := by
  have hsum : a + (len - 1 - j) + 1 = a % len + (len - j) + len * (a / len) := by
    have := Nat.mod_add_div a len
    omega
  have hlt := Nat.mod_lt a (Nat.zero_lt_of_lt hj)
  rw [hsum, Nat.dvd_add_left (Dvd.intro _ rfl)]
  constructor
  · rintro rfl
    exact ⟨1, by omega⟩
  · rintro ⟨k, hk⟩
    -- the sum is positive and less than twice the length
    have hk1 : k = 1 := by
      rcases k with _ | _ | k
      · omega
      · rfl
      · have : len * (k + 1 + 1) = len * k + len + len := by ring
        omega
    subst hk1
    omega

/-- The count of a position is the number of multiples that are passed. -/
theorem count_turns_add {len j : ℕ} (hj : j < len) (start n : ℕ) :
    (turns len start n).count j + (start + (len - 1 - j)) / len = (start + n + (len - 1 - j)) / len := by
  induction n with
  | zero => simp [turns]
  | succ n ih =>
    have hstep : start + (n + 1) + (len - 1 - j) = start + n + (len - 1 - j) + 1 := by omega
    rw [turns_succ, List.count_append, hstep, Nat.succ_div, ← ih, List.count_singleton]
    simp only [beq_iff_eq, mod_eq_iff_dvd hj]
    omega

theorem count_turns {len j : ℕ} (hj : j < len) (start n : ℕ) :
    n / len ≤ (turns len start n).count j ∧ (turns len start n).count j ≤ n / len + 1 := by
  have hcount := count_turns_add hj start n
  have hadd : (start + n + (len - 1 - j)) / len
      = (start + (len - 1 - j)) / len + n / len +
        if len ≤ (start + (len - 1 - j)) % len + n % len then 1 else 0 := by
    rw [← Nat.add_div (Nat.zero_lt_of_lt hj)]
    congr 1
    omega
  rw [hadd] at hcount
  split at hcount <;> omega

/-- Draws that do not reach the end of the counter. -/
theorem picks_eq_turns {w len start n : ℕ} (h : start % 2 ^ w + n ≤ 2 ^ w) :
    picks w len start n = turns len (start % 2 ^ w) n := by
  refine List.map_congr_left fun k hk => ?_
  have hlt : start % 2 ^ w + k < 2 ^ w := by
    have := List.mem_range.mp hk
    omega
  rw [← Nat.mod_add_mod, Nat.mod_eq_of_lt hlt]

/-- Draws that pass the end once: the cycle starts anew there. -/
theorem picks_eq_append {w len start n : ℕ} (h : 2 ^ w ≤ start % 2 ^ w + n) (hn : n ≤ 2 ^ w) :
    picks w len start n
      = turns len (start % 2 ^ w) (2 ^ w - start % 2 ^ w) ++
        turns len 0 (n - (2 ^ w - start % 2 ^ w)) := by
  have hstart := Nat.mod_lt start (Nat.two_pow_pos w)
  have hsplit : n = (2 ^ w - start % 2 ^ w) + (n - (2 ^ w - start % 2 ^ w)) := by omega
  conv_lhs => rw [hsplit, picks, List.range_add, List.map_append, List.map_map]
  congr 1
  · exact picks_eq_turns (by omega)
  · refine List.map_congr_left fun k hk => ?_
    have hk := List.mem_range.mp hk
    have hwrap : start % 2 ^ w + (2 ^ w - start % 2 ^ w + k) = k + 2 ^ w := by omega
    have hlt : k < 2 ^ w := by omega
    simp only [Function.comp_apply]
    rw [← Nat.mod_add_mod, hwrap, Nat.add_mod_right, Nat.mod_eq_of_lt hlt, Nat.zero_add]

/-- A position's share of up to `2 ^ w` draws. -/
theorem count_picks {w len start n j : ℕ} (hj : j < len) (hn : n ≤ 2 ^ w) :
    n / len ≤ (picks w len start n).count j + 1 ∧ (picks w len start n).count j ≤ n / len + 2 := by
  rcases Nat.le_total (start % 2 ^ w + n) (2 ^ w) with hle | hge
  · rw [picks_eq_turns hle]
    have := count_turns hj (start % 2 ^ w) n
    omega
  · have hstart := Nat.mod_lt start (Nat.two_pow_pos w)
    rw [picks_eq_append hge hn, List.count_append]
    have hfirst := count_turns hj (start % 2 ^ w) (2 ^ w - start % 2 ^ w)
    have hsecond := count_turns hj 0 (n - (2 ^ w - start % 2 ^ w))
    have hsum : n / len = ((2 ^ w - start % 2 ^ w) + (n - (2 ^ w - start % 2 ^ w))) / len := by
      congr 1
      omega
    rw [hsum, Nat.add_div (Nat.zero_lt_of_lt hj)]
    split <;> omega

/-! ## What is at the positions -/

section Values

variable {α : Type*} [BEq α] (values : List α) (d : α)

/-- How often a value comes up, position by position. -/
theorem count_map_getD {positions : List ℕ} (h : ∀ j ∈ positions, j < values.length) (a : α) :
    (positions.map fun j => values.getD j d).count a
      = ∑ j ∈ Finset.range values.length, if values.getD j d == a then positions.count j else 0 := by
  induction positions with
  | nil => simp
  | cons i positions ih =>
    obtain ⟨hi, hrest⟩ := List.forall_mem_cons.mp h
    have hone : (∑ j ∈ Finset.range values.length, if values.getD j d == a then (if i = j then 1 else 0) else 0)
        = if values.getD i d == a then 1 else 0 := by
      rw [Finset.sum_eq_single_of_mem i (Finset.mem_range.mpr hi)]
      · rw [if_pos rfl]
      · intro j _ hji
        rw [if_neg hji.symm, ite_self]
    rw [List.map_cons, List.count_cons, ih hrest, ← hone, ← Finset.sum_add_distrib]
    refine Finset.sum_congr rfl fun j _ => ?_
    rw [List.count_cons]
    split <;> simp

/-- The positions of a value. -/
theorem sum_positions (a : α) :
    ∑ j ∈ Finset.range values.length, (if values.getD j d == a then 1 else 0) = values.count a := by
  have hself : (List.range values.length).map (fun j => values.getD j d) = values := by
    refine List.ext_getElem (by simp) fun j hj hj' => ?_
    rw [List.getElem_map, List.getElem_range, List.getD_eq_getElem]
  have hrange : ∀ j ∈ List.range values.length, j < values.length := fun j hj => List.mem_range.mp hj
  have hcount := count_map_getD values d hrange a
  rw [hself] at hcount
  rw [hcount]
  refine Finset.sum_congr rfl fun j hj => ?_
  rw [List.count_eq_one_of_mem List.nodup_range (List.mem_range.mpr (Finset.mem_range.mp hj))]

/-- If every position comes up between `lo` and `hi` times, a value does so as many times over as it has
positions. -/
theorem count_map_bounds {positions : List ℕ} (h : ∀ j ∈ positions, j < values.length) {lo hi : ℕ}
    (hlo : ∀ j < values.length, lo ≤ positions.count j) (hhi : ∀ j < values.length, positions.count j ≤ hi)
    (a : α) :
    values.count a * lo ≤ (positions.map fun j => values.getD j d).count a ∧
      (positions.map fun j => values.getD j d).count a ≤ values.count a * hi := by
  rw [count_map_getD values d h, ← sum_positions values d a, Finset.sum_mul, Finset.sum_mul]
  constructor <;> refine Finset.sum_le_sum fun j hj => ?_
  · rw [ite_mul, one_mul, zero_mul]
    split
    · exact hlo j (Finset.mem_range.mp hj)
    · exact le_refl 0
  · rw [ite_mul, one_mul, zero_mul]
    split
    · exact hhi j (Finset.mem_range.mp hj)
    · exact le_refl 0

end Values

/-! ## A shared counter -/

section Dealers

variable {ι σ α : Type*} [DecidableEq ι]

/-- Threads that draw `f` of a shared counter and move it on, in one atomic step. -/
def dealers (next : σ → σ) (f : σ → α) : Threads ι (List α) σ Unit Empty where
  step _ dealt c _ := some (dealt ++ [f c], next c)
  env _ _ k := nomatch k

variable {next : σ → σ} {f : σ → α} {start : σ} {s : Threads.State ι (List α) σ}
  {es : List (Threads.Event ι Unit Empty)}

/-- Together the threads hold the draws of the counter, each once. -/
theorem sum_dealt [Fintype ι] (h : (dealers next f).machine.run ⟨fun _ => [], start⟩ es = some s) :
    ∑ i, (s.threads i : Multiset α) = ((List.range es.length).map fun k => f (next^[k] start) : List α) := by
  -- from the back: the last event draws the last number
  suffices hall : ∀ es : List (Threads.Event ι Unit Empty), ∀ s,
      (dealers next f).machine.run ⟨fun _ => [], start⟩ es = some s →
      s.shared = next^[es.length] start ∧
        ∑ i, (s.threads i : Multiset α) = ((List.range es.length).map fun k => f (next^[k] start) : List α) from
    (hall es s h).2
  intro es
  induction es using List.reverseRecOn with
  | nil =>
    intro s hs
    obtain rfl := Option.some.inj hs
    exact ⟨rfl, Finset.sum_const_zero⟩
  | append_singleton es e ih =>
    intro s hs
    rw [Machine.run_append] at hs
    obtain ⟨t, ht, hlast⟩ := Option.bind_eq_some_iff.mp hs
    obtain ⟨hshared, hsum⟩ := ih t ht
    obtain ⟨t', hstep, hnil⟩ := Machine.run_cons_eq_some _ |>.mp hlast
    obtain rfl := Option.some.inj hnil
    obtain ⟨i, a, dealt, c, -, hp, rfl⟩ | ⟨k, -⟩ := (dealers next f).machine_step_cases hstep
    · obtain ⟨rfl, rfl⟩ := Prod.mk.inj (Option.some.inj hp)
      rw [List.length_append, List.length_singleton]
      refine ⟨?_, ?_⟩
      · rw [hshared, Function.iterate_succ_apply']
      · have hexchange := Threads.sum_update_add t.threads (fun l => (l : Multiset α)) i
          (t.threads i ++ [f t.shared])
        rw [← Multiset.coe_add, ← add_assoc, add_right_comm] at hexchange
        rw [List.range_succ, List.map_append, List.map_singleton, ← Multiset.coe_add, ← hsum, ← hshared]
        exact add_right_cancel hexchange
    · exact k.elim

end Dealers

end RoundRobin
