import Mathlib.Algebra.Order.Field.Rat
import Mathlib.Tactic.Ring

/-!
# The statistics collector

`StatsCollector` of `src/stats/mod.rs`: the counters every datapath reports to, and the snapshot the
engine prints.  Each counter is an `AtomicU64` that is only ever added to or stored `0`; it is a
natural number here, because a counter bumped once per packet does not reach `2 ^ 64`.  The HDR
histogram is kept as the list of the samples handed to it since it was last cleared, newest first; the
real one refuses samples beyond its range of 60 s (`let _ = h.record(..)`), the list keeps them.  What the
histogram library computes from them is the parameter `summary` of `snapshot`.  The `f64` fields of the
snapshot are exact rationals.
-/

namespace Dnsmark.Stats

/-- The five response-code counters. -/
structure RcodeCounts where
  noerror : ℕ := 0
  nxdomain : ℕ := 0
  servfail : ℕ := 0
  refused : ℕ := 0
  other : ℕ := 0
deriving DecidableEq, Repr

namespace RcodeCounts

def total (c : RcodeCounts) : ℕ := c.noerror + c.nxdomain + c.servfail + c.refused + c.other

def add (c d : RcodeCounts) : RcodeCounts where
  noerror := c.noerror + d.noerror
  nxdomain := c.nxdomain + d.nxdomain
  servfail := c.servfail + d.servfail
  refused := c.refused + d.refused
  other := c.other + d.other

/-- One reply with response code `rcode`, in the bucket of the `match rcode` of `record_response`
and of every receive loop. -/
def one : ℕ → RcodeCounts
  | 0 => { noerror := 1 }
  | 3 => { nxdomain := 1 }
  | 2 => { servfail := 1 }
  | 5 => { refused := 1 }
  | _ => { other := 1 }

@[simp] theorem total_zero : ({} : RcodeCounts).total = 0 := rfl

@[simp] theorem total_add (c d : RcodeCounts) : (c.add d).total = c.total + d.total := by
  simp only [total, add]
  ring

/-- Every reply lands in exactly one bucket. -/
@[simp] theorem total_one (rcode : ℕ) : (one rcode).total = 1 := by
  unfold one
  split <;> rfl

end RcodeCounts

/-- `StatsCollector`: the shared counters.  `lastEgressNs` and `windowStartNs` are offsets from
the collector's creation. -/
structure StatsCollector where
  sent : ℕ := 0
  completed : ℕ := 0
  timeouts : ℕ := 0
  errors : ℕ := 0
  rcode : RcodeCounts := {}
  histogram : List ℕ := []
  inflightSum : ℕ := 0
  inflightCount : ℕ := 0
  inflightMax : ℕ := 0
  lastEgressNs : ℕ := 0
  windowStartNs : ℕ := 0
deriving DecidableEq, Repr

/-- What `hdrhistogram` reports about the recorded samples. -/
structure LatencySummary where
  minUs : ℕ := 0
  avgUs : ℚ := 0
  p50Us : ℕ := 0
  p95Us : ℕ := 0
  p99Us : ℕ := 0
  p999Us : ℕ := 0
  maxUs : ℕ := 0
deriving DecidableEq, Repr

/-- What `ramp_step_latency` returns. -/
structure StepLatency where
  p50Us : ℕ := 0
  p95Us : ℕ := 0
  p99Us : ℕ := 0
  samples : ℕ := 0
deriving DecidableEq, Repr

/-- `StatsSnapshot`, without the NIC-level figures the engine fills in afterwards. -/
structure StatsSnapshot where
  queriesSent : ℕ
  queriesCompleted : ℕ
  queriesLost : ℕ
  rcode : RcodeCounts
  runTimeS : ℚ
  sendQps : ℚ
  avgQps : ℚ
  latency : LatencySummary
  inflightMean : ℚ
  inflightMax : ℕ
deriving DecidableEq, Repr

namespace StatsCollector

/-- `StatsCollector::new`. -/
def new : StatsCollector := {}

def incSent (st : StatsCollector) : StatsCollector := { st with sent := st.sent + 1 }

/-- `inc_sent_n`: count `n` TX completions at clock offset `elapsedNs`. -/
def incSentN (st : StatsCollector) (n elapsedNs : ℕ) : StatsCollector :=
  { st with sent := st.sent + n, lastEgressNs := elapsedNs }

def incTimeout (st : StatsCollector) : StatsCollector := { st with timeouts := st.timeouts + 1 }

/-- `for _ in 0..n { stats.inc_timeout(); }`. -/
def incTimeouts (st : StatsCollector) (n : ℕ) : StatsCollector :=
  (List.range n).foldl (fun st _ => st.incTimeout) st

def incError (st : StatsCollector) : StatsCollector := { st with errors := st.errors + 1 }

/-- `record_rcodes`: completions by response code, no latency sample. -/
def recordRcodes (st : StatsCollector) (c : RcodeCounts) : StatsCollector :=
  if c.total = 0 then st
  else { st with completed := st.completed + c.total, rcode := st.rcode.add c }

/-- `record_response`: one completion, its response code and its latency sample. -/
def recordResponse (st : StatsCollector) (rcode rttUs : ℕ) : StatsCollector :=
  { st with
    completed := st.completed + 1
    rcode := st.rcode.add (.one rcode)
    histogram := max rttUs 1 :: st.histogram }

/-- `record_latency_us`: a latency sample only. -/
def recordLatencyUs (st : StatsCollector) (rttUs : ℕ) : StatsCollector :=
  { st with histogram := max rttUs 1 :: st.histogram }

/-- `record_inflight`: the outstanding depth after a TX batch. -/
def recordInflight (st : StatsCollector) (current : ℕ) : StatsCollector :=
  { st with
    inflightSum := st.inflightSum + current
    inflightCount := st.inflightCount + 1
    inflightMax := max st.inflightMax current }

/-- `reset_window`: discard everything counted so far.  `last_egress_ns` is kept. -/
def resetWindow (st : StatsCollector) (elapsedNs : ℕ) : StatsCollector :=
  { lastEgressNs := st.lastEgressNs, windowStartNs := elapsedNs }

/-- `ramp_step_latency`: the percentiles of the samples since the last call, all 0 if there are none.
Clears the histogram. -/
def rampStepLatency (summary : List ℕ → LatencySummary) (st : StatsCollector) :
    StepLatency × StatsCollector :=
  let out : StepLatency :=
    if st.histogram = [] then {}
    else
      let l := summary st.histogram
      ⟨l.p50Us, l.p95Us, l.p99Us, st.histogram.length⟩
  (out, { st with histogram := [] })

/-- The `send_qps` block of `snapshot`. -/
def sendQps (st : StatsCollector) (elapsedSecs : ℚ) : ℚ :=
  if st.windowStartNs < st.lastEgressNs then
    let egressSecs : ℚ := (st.lastEgressNs - st.windowStartNs : ℕ) / 1000000000
    if 1 / 10 < egressSecs then st.sent / egressSecs else st.sent / elapsedSecs
  else if 0 < elapsedSecs then st.sent / elapsedSecs else 0

/-- `snapshot`: `queries_lost` is a saturating difference. -/
def snapshot (summary : List ℕ → LatencySummary) (st : StatsCollector) (elapsedSecs : ℚ) :
    StatsSnapshot where
  queriesSent := st.sent
  queriesCompleted := st.completed
  queriesLost := st.sent - st.completed
  rcode := st.rcode
  runTimeS := elapsedSecs
  sendQps := st.sendQps elapsedSecs
  avgQps := if 0 < elapsedSecs then st.completed / elapsedSecs else 0
  latency := if st.histogram = [] then {} else summary st.histogram
  inflightMean := if 0 < st.inflightCount then st.inflightSum / st.inflightCount else 0
  inflightMax := st.inflightMax

/-! ## What each operation does to the loss accounting -/

section Counters

variable (st : StatsCollector) (n : ℕ)

@[simp] theorem new_sent : new.sent = 0 := rfl
@[simp] theorem new_completed : new.completed = 0 := rfl
@[simp] theorem new_timeouts : new.timeouts = 0 := rfl

@[simp] theorem incSent_sent : st.incSent.sent = st.sent + 1 := rfl
@[simp] theorem incSent_completed : st.incSent.completed = st.completed := rfl
@[simp] theorem incSent_timeouts : st.incSent.timeouts = st.timeouts := rfl

@[simp] theorem incError_sent : st.incError.sent = st.sent := rfl
@[simp] theorem incError_completed : st.incError.completed = st.completed := rfl
@[simp] theorem incError_timeouts : st.incError.timeouts = st.timeouts := rfl

/-- The timeout loop adds `n` to one counter. -/
theorem incTimeouts_eq : st.incTimeouts n = { st with timeouts := st.timeouts + n } := by
  induction n with
  | zero => rfl
  | succ n ih =>
    rw [incTimeouts, List.range_succ, List.foldl_append, ← incTimeouts, ih]
    rfl

@[simp] theorem incTimeouts_sent : (st.incTimeouts n).sent = st.sent := by rw [incTimeouts_eq]
@[simp] theorem incTimeouts_completed : (st.incTimeouts n).completed = st.completed := by
  rw [incTimeouts_eq]
@[simp] theorem incTimeouts_timeouts : (st.incTimeouts n).timeouts = st.timeouts + n := by
  rw [incTimeouts_eq]
@[simp] theorem incTimeouts_histogram : (st.incTimeouts n).histogram = st.histogram := by
  rw [incTimeouts_eq]

@[simp] theorem recordResponse_sent (rcode : ℕ) :
    (st.recordResponse rcode n).sent = st.sent := rfl
@[simp] theorem recordResponse_completed (rcode : ℕ) :
    (st.recordResponse rcode n).completed = st.completed + 1 := rfl
@[simp] theorem recordResponse_timeouts (rcode : ℕ) :
    (st.recordResponse rcode n).timeouts = st.timeouts := rfl

/-- An all-zero batch is not written, and would add nothing. -/
@[simp] theorem recordRcodes_completed (c : RcodeCounts) :
    (st.recordRcodes c).completed = st.completed + c.total := by
  unfold recordRcodes
  split
  · omega
  · rfl

@[simp] theorem recordRcodes_sent (c : RcodeCounts) : (st.recordRcodes c).sent = st.sent := by
  unfold recordRcodes
  split <;> rfl

@[simp] theorem recordRcodes_timeouts (c : RcodeCounts) :
    (st.recordRcodes c).timeouts = st.timeouts := by
  unfold recordRcodes
  split <;> rfl

@[simp] theorem recordRcodes_histogram (c : RcodeCounts) :
    (st.recordRcodes c).histogram = st.histogram := by
  unfold recordRcodes
  split <;> rfl

@[simp] theorem resetWindow_sent : (st.resetWindow n).sent = 0 := rfl
@[simp] theorem resetWindow_completed : (st.resetWindow n).completed = 0 := rfl
@[simp] theorem resetWindow_timeouts : (st.resetWindow n).timeouts = 0 := rfl

end Counters

/-- The printed loss equation holds exactly when no more completions than sends were counted: the
saturating difference hides the rest. -/
theorem snapshot_balanced_iff (summary : List ℕ → LatencySummary) (st : StatsCollector)
    (elapsedSecs : ℚ) :
    (st.snapshot summary elapsedSecs).queriesSent =
      (st.snapshot summary elapsedSecs).queriesCompleted +
        (st.snapshot summary elapsedSecs).queriesLost ↔ st.completed ≤ st.sent := by
  simp only [snapshot]
  omega

end StatsCollector

end Dnsmark.Stats
