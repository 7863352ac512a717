import Dnsmark.Common.Aggregate
import Dnsmark.Stats.Collector
import Mathlib.Algebra.Order.BigOperators.Group.List

/-!
# Several NICs

`src/engine/multi_nic.rs`: with more than one server, `run_multi_nic` gives every NIC a share of the
workers, runs a benchmark on each, and `merge_snapshots` makes one snapshot of theirs.

The share is `c / n` workers and at least one; the last NIC takes what is left.  The subtraction is made
before the result is raised to 1, in `usize`, so with fewer workers than other NICs it wraps.

The integer fields of a merged snapshot are sums, maxima, a minimum and an optional sum of those of its
parts, each an aggregate of `Common.Aggregate`; the `f64` fields are exact rationals.
-/

namespace Dnsmark.Engine

open Dnsmark.Stats Aggregate

/-! ## The worker split -/

/-- `a - b` on `usize`, which wraps in a release build. -/
def usizeSub (a b : ℕ) : ℕ := (a + 2 ^ 64 - b) % 2 ^ 64

/-- `base_workers`. -/
def baseWorkers (totalC nNics : ℕ) : ℕ := max (totalC / nNics) 1

/-- `workers` of the NIC number `idx`. -/
def nicWorkers (totalC nNics idx : ℕ) : ℕ :=
  max (if idx = nNics - 1 then usizeSub totalC (baseWorkers totalC nNics * (nNics - 1))
    else baseWorkers totalC nNics) 1

/-- The workers of all NICs. -/
def workerSplit (totalC nNics : ℕ) : List ℕ := (List.range nNics).map (nicWorkers totalC nNics)

/-- The subtraction of the last NIC's share would be negative. -/
def Underflows (totalC nNics : ℕ) : Prop := totalC < baseWorkers totalC nNics * (nNics - 1)

instance decidableUnderflows (totalC nNics : ℕ) : Decidable (Underflows totalC nNics) :=
  inferInstanceAs (Decidable (_ < _))

/-- A proper split of `totalC` workers. -/
structure SplitOk (totalC nNics : ℕ) : Prop where
  one_le : ∀ workers ∈ workerSplit totalC nNics, 1 ≤ workers
  noUnderflow : ¬ Underflows totalC nNics
  sum_eq : (workerSplit totalC nNics).sum = max totalC nNics

theorem usizeSub_of_le {a b : ℕ} (ha : a < 2 ^ 64) (h : b ≤ a) : usizeSub a b = a - b := by
  unfold usizeSub
  omega

/-- The others get the base share each. -/
theorem sum_workerSplit {totalC n : ℕ} :
    (workerSplit totalC (n + 1)).sum
      = n * baseWorkers totalC (n + 1) + nicWorkers totalC (n + 1) n := by
  have hbase : (List.range n).map (nicWorkers totalC (n + 1))
      = List.replicate n (baseWorkers totalC (n + 1)) := by
    rw [List.eq_replicate_iff]
    refine ⟨by rw [List.length_map, List.length_range], ?_⟩
    intro workers hworkers
    obtain ⟨idx, hidx, rfl⟩ := List.mem_map.mp hworkers
    have hlt := List.mem_range.mp hidx
    rw [nicWorkers, if_neg (by omega)]
    exact max_eq_left (le_max_right _ _)
  unfold workerSplit
  rw [List.range_succ, List.map_append, List.sum_append, hbase, List.sum_replicate_nat,
    List.map_singleton, List.sum_singleton]

/-- The base shares of the others exceed the total exactly with fewer workers than other NICs. -/
theorem underflows_iff {totalC n : ℕ} (hn : 0 < n) : Underflows totalC n ↔ totalC + 1 < n := by
  unfold Underflows baseWorkers
  by_cases hle : n ≤ totalC
  · have hone : 1 ≤ totalC / n := (Nat.one_le_div_iff hn).mpr hle
    have hmul : totalC / n * (n - 1) ≤ totalC :=
      (Nat.mul_le_mul_left _ (Nat.sub_le n 1)).trans (Nat.div_mul_le_self totalC n)
    rw [max_eq_left hone]
    omega
  · have hzero : totalC / n = 0 := Nat.div_eq_of_lt (by omega)
    rw [hzero, max_eq_right (Nat.zero_le 1), Nat.one_mul]
    omega

/-- With at least as many workers as other NICs the shares add up. -/
theorem sum_workerSplit_of_le {totalC n : ℕ} (hc : totalC < 2 ^ 64) (h : n ≤ totalC) :
    (workerSplit totalC (n + 1)).sum = max totalC (n + 1) := by
  have hfit : ¬ Underflows totalC (n + 1) := by
    rw [underflows_iff (Nat.succ_pos n)]
    omega
  have hle : baseWorkers totalC (n + 1) * n ≤ totalC := not_lt.mp hfit
  have hlast : nicWorkers totalC (n + 1) n = max (totalC - baseWorkers totalC (n + 1) * n) 1 := by
    rw [nicWorkers, Nat.add_sub_cancel, if_pos rfl, usizeSub_of_le hc hle]
  rw [sum_workerSplit, hlast, Nat.mul_comm n]
  by_cases hall : n + 1 ≤ totalC
  · have hone : 1 ≤ totalC / (n + 1) := (Nat.one_le_div_iff (Nat.succ_pos n)).mpr hall
    have hbase : baseWorkers totalC (n + 1) = totalC / (n + 1) := max_eq_left hone
    have hmul := Nat.div_mul_le_self totalC (n + 1)
    rw [Nat.mul_succ] at hmul
    rw [hbase]
    omega
  · -- one worker for each of the others, and the last NIC's share of 0 is raised to 1
    obtain rfl : totalC = n := by omega
    have hbase : baseWorkers totalC (totalC + 1) = 1 :=
      max_eq_right ((Nat.div_eq_of_lt (Nat.lt_succ_self totalC)).trans_le (Nat.zero_le 1))
    rw [hbase]
    omega

/-- The split is proper exactly when there are at most one more NICs than workers; otherwise the last NIC's
share is computed by a subtraction that underflows. -/
theorem worker_split_ok_iff (nNics totalC : ℕ) (hn : 2 ≤ nNics) (hc : totalC < 2 ^ 64) :
    SplitOk totalC nNics ↔ nNics ≤ totalC + 1 := by
  constructor
  · intro h
    have hfit := h.noUnderflow
    rw [underflows_iff (by omega)] at hfit
    omega
  · intro h
    obtain ⟨n, rfl⟩ : ∃ n, nNics = n + 1 := ⟨nNics - 1, by omega⟩
    refine ⟨?_, ?_, sum_workerSplit_of_le hc (by omega)⟩
    · intro workers hworkers
      obtain ⟨idx, -, rfl⟩ := List.mem_map.mp hworkers
      exact le_max_right _ _
    · rw [underflows_iff (by omega)]
      omega

/-- Sixteen workers on three NICs. -/
theorem worker_split_ok_sixteen : SplitOk 16 3 :=
  (worker_split_ok_iff 3 16 (by decide) (by decide)).mpr (by decide)

/-- One worker on three NICs: the third is asked for `2 ^ 64 - 1`. -/
theorem worker_split_wraps :
    workerSplit 1 3 = [1, 1, 18446744073709551615] ∧ Underflows 1 3 ∧ ¬ SplitOk 1 3 :=
  ⟨by decide, by decide, fun h => absurd h.noUnderflow (by decide)⟩

/-! ## Merged snapshots -/

/-- `StatsSnapshot` with the figures of the NIC. -/
structure NicSnapshot extends StatsSnapshot where
  wireQps : Option ℚ
  serverRxQps : Option ℚ
  serverRxAvgBytes : Option ℚ
  linkMbps : Option ℕ
  rampCapacity : Option ℚ
deriving DecidableEq, Repr

/-- The snapshot of no NIC. -/
def NicSnapshot.zero : NicSnapshot where
  queriesSent := 0
  queriesCompleted := 0
  queriesLost := 0
  rcode := {}
  runTimeS := 0
  sendQps := 0
  avgQps := 0
  latency := {}
  inflightMean := 0
  inflightMax := 0
  wireQps := none
  serverRxQps := none
  serverRxAvgBytes := none
  linkMbps := none
  rampCapacity := none

section

variable (snaps : List NicSnapshot)

/-- `iter().map(field).sum::<u64>()`. -/
def sumOf (field : NicSnapshot → ℕ) : ℕ := wrappingSum 64 (snaps.map field)

/-- `iter().map(field).max().unwrap_or(0)`. -/
def maxOf (field : NicSnapshot → ℕ) : ℕ := maxOrZero (snaps.map field)

/-- A mean that is weighted by the completed queries. -/
def weightedAvg (field : NicSnapshot → ℚ) : ℚ :=
  let weightSum : ℚ := sumOf snaps (·.queriesCompleted)
  if weightSum = 0 then 0
  else (snaps.map fun s => field s * s.queriesCompleted).sum / weightSum

/-- The sum of the rates that are known, if it is positive. -/
def rateSum (field : NicSnapshot → Option ℚ) : Option ℚ :=
  let rate := (snaps.filterMap field).sum
  if 0 < rate then some rate else none

/-- The mean reply size, weighted by the reply rates. -/
def avgReplyBytes : Option ℚ :=
  let num := (snaps.filterMap fun s => do return (← s.serverRxAvgBytes) * (← s.serverRxQps)).sum
  let den := ((snaps.filter fun s => s.serverRxAvgBytes.isSome).filterMap (·.serverRxQps)).sum
  if 0 < den then some (num / den) else none

/-- `merge_snapshots`. -/
def mergeSnapshots : NicSnapshot :=
  if snaps.isEmpty then .zero
  else
    let maxTime := (snaps.map (·.runTimeS)).foldl max 0
    { queriesSent := sumOf snaps (·.queriesSent)
      queriesCompleted := sumOf snaps (·.queriesCompleted)
      queriesLost := sumOf snaps (·.queriesLost)
      rcode :=
        { noerror := sumOf snaps (·.rcode.noerror)
          nxdomain := sumOf snaps (·.rcode.nxdomain)
          servfail := sumOf snaps (·.rcode.servfail)
          refused := sumOf snaps (·.rcode.refused)
          other := sumOf snaps (·.rcode.other) }
      runTimeS := maxTime
      sendQps := (snaps.map (·.sendQps)).sum
      avgQps := if 0 < maxTime then (sumOf snaps (·.queriesCompleted) : ℚ) / maxTime else 0
      latency :=
        { minUs := minNonzero (snaps.map (·.latency.minUs))
          avgUs := weightedAvg snaps (·.latency.avgUs)
          p50Us := maxOf snaps (·.latency.p50Us)
          p95Us := maxOf snaps (·.latency.p95Us)
          p99Us := maxOf snaps (·.latency.p99Us)
          p999Us := maxOf snaps (·.latency.p999Us)
          maxUs := maxOf snaps (·.latency.maxUs) }
      inflightMean := (snaps.map (·.inflightMean)).sum / (max snaps.length 1 : ℕ)
      inflightMax := maxOf snaps (·.inflightMax)
      wireQps := rateSum snaps (·.wireQps)
      serverRxQps := rateSum snaps (·.serverRxQps)
      serverRxAvgBytes := avgReplyBytes snaps
      linkMbps := optionalSum 64 (snaps.map (·.linkMbps))
      rampCapacity := rateSum snaps (·.rampCapacity) }

end

/-! ## Its integer fields -/

/-- The fields that are summed. -/
def sumFields : List (NicSnapshot → ℕ) :=
  [(·.queriesSent), (·.queriesCompleted), (·.queriesLost), (·.rcode.noerror), (·.rcode.nxdomain),
    (·.rcode.servfail), (·.rcode.refused), (·.rcode.other)]

/-- The fields of which the largest value is taken. -/
def maxFields : List (NicSnapshot → ℕ) :=
  [(·.latency.p50Us), (·.latency.p95Us), (·.latency.p99Us), (·.latency.p999Us), (·.latency.maxUs),
    (·.inflightMax)]

/-- The integer fields of a snapshot. -/
def integerFields (s : NicSnapshot) : List ℕ × List ℕ × ℕ × Option ℕ :=
  (sumFields.map (· s), maxFields.map (· s), s.latency.minUs, s.linkMbps)

variable {snaps : List NicSnapshot}

theorem sumField_merge {field : NicSnapshot → ℕ} (h : field ∈ sumFields) (snaps : List NicSnapshot) :
    field (mergeSnapshots snaps) = sumOf snaps field := by
  revert field
  simp only [sumFields, List.forall_mem_cons]
  cases snaps with
  | nil => exact ⟨rfl, rfl, rfl, rfl, rfl, rfl, rfl, rfl, List.forall_mem_nil _⟩
  | cons => exact ⟨rfl, rfl, rfl, rfl, rfl, rfl, rfl, rfl, List.forall_mem_nil _⟩

theorem maxField_merge {field : NicSnapshot → ℕ} (h : field ∈ maxFields) (snaps : List NicSnapshot) :
    field (mergeSnapshots snaps) = maxOf snaps field := by
  revert field
  simp only [maxFields, List.forall_mem_cons]
  cases snaps with
  | nil => exact ⟨rfl, rfl, rfl, rfl, rfl, rfl, List.forall_mem_nil _⟩
  | cons => exact ⟨rfl, rfl, rfl, rfl, rfl, rfl, List.forall_mem_nil _⟩

/-- The percentiles among them. -/
theorem percentiles_merge (snaps : List NicSnapshot) :
    (mergeSnapshots snaps).latency.p50Us = maxOf snaps (·.latency.p50Us) ∧
      (mergeSnapshots snaps).latency.p95Us = maxOf snaps (·.latency.p95Us) ∧
      (mergeSnapshots snaps).latency.p99Us = maxOf snaps (·.latency.p99Us) ∧
      (mergeSnapshots snaps).latency.p999Us = maxOf snaps (·.latency.p999Us) ∧
      (mergeSnapshots snaps).latency.maxUs = maxOf snaps (·.latency.maxUs) := by
  have hmax := fun field (hmem : field ∈ maxFields) => maxField_merge hmem snaps
  simp only [maxFields, List.forall_mem_cons] at hmax
  obtain ⟨hp50, hp95, hp99, hp999, hmaxUs, -⟩ := hmax
  exact ⟨hp50, hp95, hp99, hp999, hmaxUs⟩

theorem minUs_merge (snaps : List NicSnapshot) :
    (mergeSnapshots snaps).latency.minUs = minNonzero (snaps.map (·.latency.minUs)) := by
  cases snaps <;> rfl

theorem linkMbps_merge (snaps : List NicSnapshot) :
    (mergeSnapshots snaps).linkMbps = optionalSum 64 (snaps.map (·.linkMbps)) := by
  cases snaps <;> rfl

/-- Two merges that agree on every kind of field agree on all of them. -/
theorem integerFields_eq {s s' : NicSnapshot} (hsum : ∀ field ∈ sumFields, field s = field s')
    (hmax : ∀ field ∈ maxFields, field s = field s') (hmin : s.latency.minUs = s'.latency.minUs)
    (hlink : s.linkMbps = s'.linkMbps) : integerFields s = integerFields s' := by
  unfold integerFields
  rw [List.map_congr_left hsum, List.map_congr_left hmax, hmin, hlink]

/-- The order of the NICs does not matter. -/
theorem integerFields_perm {snaps' : List NicSnapshot} (h : snaps.Perm snaps') :
    integerFields (mergeSnapshots snaps) = integerFields (mergeSnapshots snaps') :=
  integerFields_eq
    (fun _ hfield => (isAggregate_wrappingSum 64).field_perm _ _ (sumField_merge hfield) h)
    (fun _ hfield => isAggregate_maxOrZero.field_perm _ _ (maxField_merge hfield) h)
    (isAggregate_minNonzero.field_perm mergeSnapshots (·.latency.minUs) minUs_merge h)
    ((isAggregate_optionalSum 64).field_perm mergeSnapshots (·.linkMbps) linkMbps_merge h)

/-- Nor does it matter whether the NICs are merged at once or in two groups. -/
theorem integerFields_append (a b : List NicSnapshot) :
    integerFields (mergeSnapshots (a ++ b))
      = integerFields (mergeSnapshots [mergeSnapshots a, mergeSnapshots b]) :=
  integerFields_eq
    (fun _ hfield => (isAggregate_wrappingSum 64).field_append _ _ (sumField_merge hfield) a b)
    (fun _ hfield => isAggregate_maxOrZero.field_append _ _ (maxField_merge hfield) a b)
    (isAggregate_minNonzero.field_append mergeSnapshots (·.latency.minUs) minUs_merge a b)
    ((isAggregate_optionalSum 64).field_append mergeSnapshots (·.linkMbps) linkMbps_merge a b)

/-! ## Its laws -/

/-- No latency was measured. -/
structure ZeroLatency (l : LatencySummary) : Prop where
  minUs : l.minUs = 0
  p50Us : l.p50Us = 0
  p95Us : l.p95Us = 0
  p99Us : l.p99Us = 0
  p999Us : l.p999Us = 0
  maxUs : l.maxUs = 0

/-- The percentiles of a measured latency. -/
structure OrderedLatency (l : LatencySummary) : Prop where
  min_pos : 0 < l.minUs
  min_le_p50 : l.minUs ≤ l.p50Us
  p50_le_p95 : l.p50Us ≤ l.p95Us
  p95_le_p99 : l.p95Us ≤ l.p99Us
  p99_le_p999 : l.p99Us ≤ l.p999Us
  p999_le_max : l.p999Us ≤ l.maxUs

/-- The laws of a snapshot. -/
structure Lawful (s : NicSnapshot) : Prop where
  balance : s.queriesSent = s.queriesCompleted + s.queriesLost
  rcodes : s.queriesCompleted = s.rcode.total
  latency : ZeroLatency s.latency ∨ OrderedLatency s.latency

/-- No summed field exceeds the queries sent. -/
theorem Lawful.sumField_le {s : NicSnapshot} (h : Lawful s) {field : NicSnapshot → ℕ}
    (hmem : field ∈ sumFields) : field s ≤ s.queriesSent := by
  have hbalance := h.balance
  have hrcodes := h.rcodes
  unfold RcodeCounts.total at hrcodes
  revert field
  simp only [sumFields, List.forall_mem_cons]
  refine ⟨?_, ?_, ?_, ?_, ?_, ?_, ?_, ?_, List.forall_mem_nil _⟩ <;> omega

/-- With and without samples, the percentiles are in order. -/
theorem Lawful.percentiles {s : NicSnapshot} (h : Lawful s) :
    s.latency.p50Us ≤ s.latency.p95Us ∧ s.latency.p95Us ≤ s.latency.p99Us ∧
      s.latency.p99Us ≤ s.latency.p999Us ∧ s.latency.p999Us ≤ s.latency.maxUs := by
  obtain hzero | hordered := h.latency
  · rw [hzero.p50Us, hzero.p95Us, hzero.p99Us, hzero.p999Us]
    exact ⟨Nat.le_refl 0, Nat.le_refl 0, Nat.le_refl 0, Nat.zero_le _⟩
  · exact ⟨hordered.p50_le_p95, hordered.p95_le_p99, hordered.p99_le_p999, hordered.p999_le_max⟩

/-- A pointwise larger field has the larger maximum. -/
theorem maxOf_le_maxOf {field field' : NicSnapshot → ℕ} (h : ∀ s ∈ snaps, field s ≤ field' s) :
    maxOf snaps field ≤ maxOf snaps field' := by
  refine maxOrZero_le_iff.mpr fun x hx => ?_
  obtain ⟨s, hs, rfl⟩ := List.mem_map.mp hx
  exact (h s hs).trans (le_maxOrZero (List.mem_map_of_mem hs))

/-- A field that is zero everywhere has the maximum 0. -/
theorem maxOf_eq_zero {field : NicSnapshot → ℕ} (h : ∀ s ∈ snaps, field s = 0) :
    maxOf snaps field = 0 := by
  refine Nat.le_zero.mp (maxOrZero_le_iff.mpr fun x hx => ?_)
  obtain ⟨s, hs, rfl⟩ := List.mem_map.mp hx
  exact (h s hs).le

section

variable (hlawful : ∀ s ∈ snaps, Lawful s)

include hlawful

/-- If the queries sent fit into 64 bits, then so does every sum. -/
theorem merge_sumField (hfit : (snaps.map (·.queriesSent)).sum < 2 ^ 64) :
    ∀ field ∈ sumFields, field (mergeSnapshots snaps) = (snaps.map field).sum := by
  intro field hmem
  have hle : (snaps.map field).sum ≤ (snaps.map (·.queriesSent)).sum :=
    List.sum_le_sum fun s hs => (hlawful s hs).sumField_le hmem
  exact (sumField_merge hmem snaps).trans (wrappingSum_of_lt (hle.trans_lt hfit))

/-- The merged counts balance. -/
theorem merge_counts (hfit : (snaps.map (·.queriesSent)).sum < 2 ^ 64) :
    (mergeSnapshots snaps).queriesSent
        = (mergeSnapshots snaps).queriesCompleted + (mergeSnapshots snaps).queriesLost ∧
      (mergeSnapshots snaps).queriesCompleted = (mergeSnapshots snaps).rcode.total := by
  have hsum := merge_sumField hlawful hfit
  simp only [sumFields, List.forall_mem_cons] at hsum
  obtain ⟨hsent, hdone, hlost, hnoerror, hnxdomain, hservfail, hrefused, hother, -⟩ := hsum
  constructor
  · rw [hsent, hdone, hlost, ← List.sum_map_add]
    exact congrArg List.sum (List.map_congr_left fun s hs => (hlawful s hs).balance)
  · rw [RcodeCounts.total, hdone, hnoerror, hnxdomain, hservfail, hrefused, hother,
      ← List.sum_map_add, ← List.sum_map_add, ← List.sum_map_add, ← List.sum_map_add]
    exact congrArg List.sum (List.map_congr_left fun s hs => (hlawful s hs).rcodes)

/-- The merged percentiles keep their order. -/
theorem merge_percentiles :
    (mergeSnapshots snaps).latency.p50Us ≤ (mergeSnapshots snaps).latency.p95Us ∧
      (mergeSnapshots snaps).latency.p95Us ≤ (mergeSnapshots snaps).latency.p99Us ∧
      (mergeSnapshots snaps).latency.p99Us ≤ (mergeSnapshots snaps).latency.p999Us ∧
      (mergeSnapshots snaps).latency.p999Us ≤ (mergeSnapshots snaps).latency.maxUs := by
  obtain ⟨hp50, hp95, hp99, hp999, hmaxUs⟩ := percentiles_merge snaps
  rw [hp50, hp95, hp99, hp999, hmaxUs]
  have hchain := fun s hs => (hlawful s hs).percentiles
  exact ⟨maxOf_le_maxOf fun s hs => (hchain s hs).1, maxOf_le_maxOf fun s hs => (hchain s hs).2.1,
    maxOf_le_maxOf fun s hs => (hchain s hs).2.2.1, maxOf_le_maxOf fun s hs => (hchain s hs).2.2.2⟩

/-- One NIC with samples makes the merged latency a measured one. -/
theorem merge_ordered {s : NicSnapshot} (hs : s ∈ snaps) (hordered : OrderedLatency s.latency) :
    OrderedLatency (mergeSnapshots snaps).latency := by
  obtain ⟨hp95, hp99, hp999, hmax⟩ := merge_percentiles hlawful
  -- the smallest minimum is below this NIC's, and the largest median above its median
  have hmem : s.latency.minUs ∈ snaps.map (·.latency.minUs) := List.mem_map_of_mem hs
  obtain ⟨hpos, hle⟩ := minNonzero_le hmem hordered.min_pos
  have hp50 : s.latency.p50Us ≤ (mergeSnapshots snaps).latency.p50Us := by
    rw [(percentiles_merge snaps).1]
    exact le_maxOrZero (List.mem_map_of_mem hs)
  refine ⟨?_, ?_, hp95, hp99, hp999, hmax⟩
  · rw [minUs_merge]
    exact hpos
  · rw [minUs_merge]
    exact (hle.trans hordered.min_le_p50).trans hp50

end

/-- NICs without samples have a merged latency without samples. -/
theorem merge_zero (hzero : ∀ s ∈ snaps, ZeroLatency s.latency) :
    ZeroLatency (mergeSnapshots snaps).latency := by
  obtain ⟨hp50, hp95, hp99, hp999, hmaxUs⟩ := percentiles_merge snaps
  constructor
  case minUs =>
    rw [minUs_merge, minNonzero_eq_zero_iff]
    intro x hx
    obtain ⟨s, hs, rfl⟩ := List.mem_map.mp hx
    exact (hzero s hs).minUs
  case p50Us => exact hp50.trans (maxOf_eq_zero fun s hs => (hzero s hs).p50Us)
  case p95Us => exact hp95.trans (maxOf_eq_zero fun s hs => (hzero s hs).p95Us)
  case p99Us => exact hp99.trans (maxOf_eq_zero fun s hs => (hzero s hs).p99Us)
  case p999Us => exact hp999.trans (maxOf_eq_zero fun s hs => (hzero s hs).p999Us)
  case maxUs => exact hmaxUs.trans (maxOf_eq_zero fun s hs => (hzero s hs).maxUs)

theorem OrderedLatency.not_zero {l : LatencySummary} (h : OrderedLatency l) : ¬ ZeroLatency l :=
  fun hzero => absurd hzero.minUs h.min_pos.ne'

/-- The merged latency is that of the NICs with samples, if there are any. -/
theorem merge_latency (hlawful : ∀ s ∈ snaps, Lawful s) :
    ((∀ s ∈ snaps, ZeroLatency s.latency) ∧ ZeroLatency (mergeSnapshots snaps).latency) ∨
      OrderedLatency (mergeSnapshots snaps).latency := by
  by_cases hall : ∀ s ∈ snaps, ZeroLatency s.latency
  · exact .inl ⟨hall, merge_zero hall⟩
  · push Not at hall
    obtain ⟨s, hs, hnot⟩ := hall
    exact .inr (merge_ordered hlawful hs ((hlawful s hs).latency.resolve_left hnot))

/-- A mean of zeros. -/
theorem avgUs_merge (h : ∀ s ∈ snaps, s.latency.avgUs = 0) : (mergeSnapshots snaps).latency.avgUs = 0 := by
  have hsum : (snaps.map fun s => s.latency.avgUs * (s.queriesCompleted : ℚ)).sum = 0 := by
    refine List.sum_eq_zero fun x hx => ?_
    obtain ⟨s, hs, rfl⟩ := List.mem_map.mp hx
    rw [h s hs, zero_mul]
  have hmean : weightedAvg snaps (·.latency.avgUs) = 0 := by
    simp only [weightedAvg, hsum, zero_div, ite_self]
  cases snaps with
  | nil => rfl
  | cons => exact hmean

/-- Merging preserves the laws of the snapshots, in any order and in any grouping: for every list of lawful
snapshots whose sums fit into 64 bits, the merged one is lawful, and without samples its mean latency is 0
if theirs are; its integer fields do not depend on the order of the list; and merging two parts and then
their results gives the same integer fields. -/
theorem merge_preserves_laws (snaps : List NicSnapshot) (hlawful : ∀ s ∈ snaps, Lawful s)
    (hfit : (snaps.map (·.queriesSent)).sum < 2 ^ 64) :
    Lawful (mergeSnapshots snaps) ∧
      ((∀ s ∈ snaps, ZeroLatency s.latency → s.latency.avgUs = 0) →
        ZeroLatency (mergeSnapshots snaps).latency → (mergeSnapshots snaps).latency.avgUs = 0) ∧
      (∀ snaps' : List NicSnapshot, snaps.Perm snaps' →
        integerFields (mergeSnapshots snaps) = integerFields (mergeSnapshots snaps')) ∧
      ∀ a b : List NicSnapshot, snaps = a ++ b →
        integerFields (mergeSnapshots (a ++ b))
          = integerFields (mergeSnapshots [mergeSnapshots a, mergeSnapshots b]) := by
  obtain ⟨hbalance, hrcodes⟩ := merge_counts hlawful hfit
  have hlatency := merge_latency hlawful
  refine ⟨⟨hbalance, hrcodes, hlatency.imp_left And.right⟩, ?_, fun _ => integerFields_perm,
    fun a b _ => integerFields_append a b⟩
  intro havg hzero
  obtain ⟨hall, -⟩ | hordered := hlatency
  · exact avgUs_merge fun s hs => havg s hs (hall s hs)
  · exact absurd hzero hordered.not_zero

/-- A NIC that answered 90 of 100 queries. -/
def busyNic : NicSnapshot where
  queriesSent := 100
  queriesCompleted := 90
  queriesLost := 10
  rcode := { noerror := 80, nxdomain := 10 }
  runTimeS := 2
  sendQps := 50
  avgQps := 45
  latency := ⟨50, 120, 100, 200, 300, 500, 800⟩
  inflightMean := 3
  inflightMax := 7
  wireQps := some 50
  serverRxQps := none
  serverRxAvgBytes := none
  linkMbps := some 10000
  rampCapacity := none

/-- A NIC that lost its only query. -/
def lostNic : NicSnapshot := { NicSnapshot.zero with queriesSent := 1, queriesLost := 1 }

/-- The busy NIC and the one without samples, in either order. -/
theorem merge_preserves_laws_busy_lost :
    Lawful (mergeSnapshots [busyNic, lostNic]) ∧
      (mergeSnapshots [busyNic, lostNic]).queriesLost = 11 ∧
      (mergeSnapshots [busyNic, lostNic]).latency.minUs = 50 ∧
      integerFields (mergeSnapshots [busyNic, lostNic])
        = integerFields (mergeSnapshots [lostNic, busyNic]) := by
  have hbusy : Lawful busyNic := ⟨rfl, rfl, .inr (by constructor <;> decide)⟩
  have hlost : Lawful lostNic := ⟨rfl, rfl, .inl (by constructor <;> rfl)⟩
  obtain ⟨hlawful, -, hperm, -⟩ := merge_preserves_laws [busyNic, lostNic]
    (by simp [hbusy, hlost]) (by decide)
  exact ⟨hlawful, rfl, rfl, hperm _ (.swap _ _ _)⟩

end Dnsmark.Engine
