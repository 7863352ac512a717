import Dnsmark.Common.StraightLine
import Dnsmark.Stats.Collector

/-!
# The collector, one atomic operation at a time

`record_response`, `record_rcodes` and `reset_window` of `src/stats/mod.rs` as the lists of atomic
operations they execute.  Run alone, each list is the operation of `StatsCollector` with its name.
Run by several workers while the engine resets the window, the operations interleave.

A recording bumps `completed` first and the response codes after it; the reset clears `completed` first
and the codes after it, one by one.  A recording that straddles the reset can lose one bump and keep the
other.  Nothing else can go wrong: what a counter holds at the end and what was added to it before it was
cleared is all that was ever added (`get_add_addedBefore`).
-/

namespace Dnsmark.Stats

/-- The counters that `reset_window` clears, in its order. -/
inductive Counter where
  | sent
  | completed
  | timeouts
  | errors
  | noerror
  | nxdomain
  | servfail
  | refused
  | other
  | inflightSum
  | inflightCount
  | inflightMax
deriving DecidableEq, Repr

/-- One atomic operation.  The histogram is behind a lock, so recording and clearing are atomic. -/
inductive AtomicOp where
  | fetchAdd (c : Counter) (n : ℕ)
  /-- `store(0)`. -/
  | clear (c : Counter)
  | storeWindowStart (elapsedNs : ℕ)
  | record (rttUs : ℕ)
  | clearHistogram
deriving DecidableEq, Repr

namespace StatsCollector

def get (st : StatsCollector) : Counter → ℕ
  | .sent => st.sent
  | .completed => st.completed
  | .timeouts => st.timeouts
  | .errors => st.errors
  | .noerror => st.rcode.noerror
  | .nxdomain => st.rcode.nxdomain
  | .servfail => st.rcode.servfail
  | .refused => st.rcode.refused
  | .other => st.rcode.other
  | .inflightSum => st.inflightSum
  | .inflightCount => st.inflightCount
  | .inflightMax => st.inflightMax

def set (st : StatsCollector) (c : Counter) (n : ℕ) : StatsCollector :=
  match c with
  | .sent => { st with sent := n }
  | .completed => { st with completed := n }
  | .timeouts => { st with timeouts := n }
  | .errors => { st with errors := n }
  | .noerror => { st with rcode := { st.rcode with noerror := n } }
  | .nxdomain => { st with rcode := { st.rcode with nxdomain := n } }
  | .servfail => { st with rcode := { st.rcode with servfail := n } }
  | .refused => { st with rcode := { st.rcode with refused := n } }
  | .other => { st with rcode := { st.rcode with other := n } }
  | .inflightSum => { st with inflightSum := n }
  | .inflightCount => { st with inflightCount := n }
  | .inflightMax => { st with inflightMax := n }

theorem get_set (st : StatsCollector) (c c' : Counter) (n : ℕ) :
    (st.set c n).get c' = if c' = c then n else st.get c' := by
  cases c <;> cases c' <;> rfl

end StatsCollector

namespace AtomicOp

def exec : AtomicOp → StatsCollector → StatsCollector
  | fetchAdd c n, st => st.set c (st.get c + n)
  | clear c, st => st.set c 0
  | storeWindowStart elapsedNs, st => { st with windowStartNs := elapsedNs }
  | record rttUs, st => { st with histogram := rttUs :: st.histogram }
  | clearHistogram, st => { st with histogram := [] }

/-- Some operations, one after the other. -/
def execAll (ops : List AtomicOp) (st : StatsCollector) : StatsCollector :=
  ops.foldl (fun st a => a.exec st) st

/-- What an operation adds to a counter. -/
def adds (c : Counter) : AtomicOp → ℕ
  | fetchAdd c' n => if c = c' then n else 0
  | _ => 0

/-- How often an operation clears a counter. -/
def clears (c : Counter) : AtomicOp → ℕ
  | clear c' => if c = c' then 1 else 0
  | _ => 0

/-- What is added to a counter before it is cleared. -/
def addedBefore (c : Counter) (ops : List AtomicOp) : ℕ :=
  ((ops.takeWhile (· ≠ .clear c)).map (adds c)).sum

/-! ## One counter along a trace -/

variable (c : Counter)

/-- An operation adds to a counter, or clears it. -/
theorem get_exec (a : AtomicOp) (st : StatsCollector) :
    (a.exec st).get c = if a = .clear c then 0 else st.get c + a.adds c := by
  cases a with
  | fetchAdd c' n =>
    rw [if_neg nofun, exec, StatsCollector.get_set, adds]
    split
    · rename_i heq
      rw [heq]
    · rfl
  | clear c' =>
    rw [exec, StatsCollector.get_set]
    by_cases heq : c = c'
    · rw [if_pos heq, if_pos (heq ▸ rfl)]
    · rw [if_neg heq, if_neg fun h => heq (clear.inj h).symm]
      rfl
  | storeWindowStart elapsedNs => cases c <;> rfl
  | record rttUs => cases c <;> rfl
  | clearHistogram => cases c <;> rfl

/-- A counter that is not cleared keeps what is added. -/
theorem get_execAll_of_not_cleared (ops : List AtomicOp) (st : StatsCollector)
    (h : (ops.map (clears c)).sum = 0) : (execAll ops st).get c = st.get c + (ops.map (adds c)).sum := by
  induction ops generalizing st with
  | nil => rfl
  | cons a ops ih =>
    rw [List.map_cons, List.sum_cons, Nat.add_eq_zero_iff] at h
    have hne : a ≠ .clear c := by
      rintro rfl
      simp [clears] at h
    rw [execAll, List.foldl_cons, ← execAll, ih _ h.2, get_exec, if_neg hne, List.map_cons, List.sum_cons,
      Nat.add_assoc]

/-- A counter that is cleared once ends with what is added afterwards. -/
theorem get_add_addedBefore (ops : List AtomicOp) (st : StatsCollector)
    (h : (ops.map (clears c)).sum = 1) :
    (execAll ops st).get c + addedBefore c ops = (ops.map (adds c)).sum := by
  induction ops generalizing st with
  | nil => exact nomatch h
  | cons a ops ih =>
    rw [List.map_cons, List.sum_cons] at h
    rw [execAll, List.foldl_cons, ← execAll, addedBefore, List.map_cons, List.sum_cons]
    by_cases ha : a = .clear c
    · subst ha
      have hrest : (ops.map (clears c)).sum = 0 := by simpa [clears] using h
      rw [List.takeWhile_cons_of_neg (by simp), get_execAll_of_not_cleared c ops _ hrest, get_exec,
        if_pos rfl]
      simp [adds]
    · have hrest : (ops.map (clears c)).sum = 1 := by
        have hzero : a.clears c = 0 := by
          cases a with
          | clear c' => exact if_neg fun (heq : c = c') => ha (heq ▸ rfl)
          | _ => rfl
        omega
      rw [List.takeWhile_cons_of_pos (by simpa using ha), List.map_cons, List.sum_cons]
      have hih := ih (a.exec st) hrest
      unfold addedBefore at hih
      omega

/-- The operations of a list that add to the response codes. -/
def addsCode (a : AtomicOp) : ℕ :=
  a.adds .noerror + a.adds .nxdomain + a.adds .servfail + a.adds .refused + a.adds .other

theorem sum_addsCode (ops : List AtomicOp) :
    (ops.map addsCode).sum
      = (ops.map (adds .noerror)).sum + (ops.map (adds .nxdomain)).sum + (ops.map (adds .servfail)).sum
        + (ops.map (adds .refused)).sum + (ops.map (adds .other)).sum := by
  induction ops with
  | nil => rfl
  | cons a ops ih =>
    simp only [List.map_cons, List.sum_cons, ih, addsCode]
    omega

end AtomicOp

open AtomicOp

/-! ## The calls -/

/-- The counter of a response code. -/
def codeCounter : ℕ → Counter
  | 0 => .noerror
  | 3 => .nxdomain
  | 2 => .servfail
  | 5 => .refused
  | _ => .other

/-- A call of a worker that counts completions. -/
inductive RecordCall where
  | response (rcode rttUs : ℕ)
  | rcodes (counts : RcodeCounts)
deriving DecidableEq, Repr

namespace RecordCall

/-- The counters that `record_rcodes` adds to, with what it adds. -/
def codeAdds (counts : RcodeCounts) : List (Counter × ℕ) :=
  [(.noerror, counts.noerror), (.nxdomain, counts.nxdomain), (.servfail, counts.servfail),
    (.refused, counts.refused), (.other, counts.other)]

/-- The additions of some amounts, zeros left out. -/
def addOps (amounts : List (Counter × ℕ)) : List AtomicOp :=
  (amounts.filter fun p => 0 < p.2).map fun p => .fetchAdd p.1 p.2

/-- The operations of a call, in order. -/
def ops : RecordCall → List AtomicOp
  | response rcode rttUs =>
    [.fetchAdd .completed 1, .fetchAdd (codeCounter rcode) 1, .record (max rttUs 1)]
  | rcodes counts =>
    if counts.total = 0 then [] else .fetchAdd .completed counts.total :: addOps (codeAdds counts)

/-- A call alone. -/
def onCollector (st : StatsCollector) : RecordCall → StatsCollector
  | response rcode rttUs => st.recordResponse rcode rttUs
  | rcodes counts => st.recordRcodes counts

end RecordCall

/-- The operations of `reset_window`, in order. -/
def resetWindowOps (elapsedNs : ℕ) : List AtomicOp :=
  .storeWindowStart elapsedNs ::
    ([.sent, .completed, .timeouts, .errors, .noerror, .nxdomain, .servfail, .refused, .other,
      .inflightSum, .inflightCount, .inflightMax].map .clear ++ [.clearHistogram])

/-- A reset alone is `reset_window`. -/
theorem execAll_resetWindowOps (elapsedNs : ℕ) (st : StatsCollector) :
    execAll (resetWindowOps elapsedNs) st = st.resetWindow elapsedNs := rfl

namespace RecordCall

/-- Adding zero changes nothing, so leaving the zeros out changes nothing. -/
theorem execAll_addOps (amounts : List (Counter × ℕ)) (st : StatsCollector) :
    execAll (addOps amounts) st = execAll (amounts.map fun p => .fetchAdd p.1 p.2) st := by
  induction amounts generalizing st with
  | nil => rfl
  | cons p amounts ih =>
    obtain ⟨c, n⟩ := p
    rcases Nat.eq_zero_or_pos n with rfl | hn
    · have hsame : st.set c (st.get c + 0) = st := by cases c <;> rfl
      rw [addOps, List.filter_cons_of_neg (by simp), ← addOps, ih, List.map_cons, execAll, execAll,
        List.foldl_cons, exec, hsame]
    · rw [addOps, List.filter_cons_of_pos (by simpa using hn), List.map_cons, ← addOps, List.map_cons]
      exact ih _

theorem sum_addOps {w : AtomicOp → ℕ} (hw : ∀ c, w (.fetchAdd c 0) = 0) (amounts : List (Counter × ℕ)) :
    ((addOps amounts).map w).sum = (amounts.map fun p => w (.fetchAdd p.1 p.2)).sum := by
  induction amounts with
  | nil => rfl
  | cons p amounts ih =>
    obtain ⟨c, n⟩ := p
    rcases Nat.eq_zero_or_pos n with rfl | hn
    · rw [addOps, List.filter_cons_of_neg (by simp), ← addOps, ih, List.map_cons, List.sum_cons, hw,
        Nat.zero_add]
    · rw [addOps, List.filter_cons_of_pos (by simpa using hn), List.map_cons, ← addOps, List.map_cons,
        List.map_cons, List.sum_cons, List.sum_cons, ih]

/-- A call alone is the operation of the collector. -/
theorem execAll_ops (call : RecordCall) (st : StatsCollector) :
    execAll call.ops st = call.onCollector st := by
  cases call with
  | response rcode rttUs =>
    -- the codes 0 to 5, and all others
    rcases rcode with _ | _ | _ | _ | _ | _ | rcode <;> rfl
  | rcodes counts =>
    simp only [ops, onCollector, StatsCollector.recordRcodes]
    split
    · rfl
    · change execAll (addOps (codeAdds counts)) _ = _
      rw [execAll_addOps]
      rfl

/-- Every call adds as much to the codes as to `completed`. -/
theorem sum_adds_ops (call : RecordCall) :
    (call.ops.map (adds .completed)).sum = (call.ops.map addsCode).sum := by
  cases call with
  | response rcode rttUs =>
    rcases rcode with _ | _ | _ | _ | _ | _ | rcode <;> rfl
  | rcodes counts =>
    simp only [ops]
    split
    · rfl
    · rw [List.map_cons, List.map_cons, List.sum_cons, List.sum_cons,
        sum_addOps (fun c => by cases c <;> rfl), sum_addOps (fun c => by cases c <;> rfl)]
      simp [codeAdds, adds, addsCode, RcodeCounts.total]
      omega

/-- No call clears a counter. -/
theorem sum_clears_ops (call : RecordCall) (c : Counter) : (call.ops.map (clears c)).sum = 0 := by
  cases call with
  | response rcode rttUs => rfl
  | rcodes counts =>
    simp only [ops]
    split
    · rfl
    · rw [List.map_cons, List.sum_cons, sum_addOps fun _ => rfl]
      rfl

end RecordCall

/-! ## Workers and a reset -/

section System

variable {ι : Type*} [DecidableEq ι] [Fintype ι]

/-- Workers `some i` with their calls, and the engine, `none`, with one reset. -/
def recording (calls : ι → List RecordCall) (elapsedNs : ℕ) :
    Threads.State (Option ι) (List AtomicOp) StatsCollector where
  threads
    | none => resetWindowOps elapsedNs
    | some i => (calls i).flatMap RecordCall.ops
  shared := .new

/-- The interleavings of the workers and the engine. -/
def atomicThreads (ι : Type*) [DecidableEq ι] :
    Threads (Option ι) (List AtomicOp) StatsCollector AtomicOp Empty :=
  StraightLine.threads exec

variable {calls : ι → List RecordCall} {elapsedNs : ℕ}
  {es : List (Threads.Event (Option ι) AtomicOp Empty)}
  {s : Threads.State (Option ι) (List AtomicOp) StatsCollector}

/-- The sum of something the calls and the reset do, over a complete run. -/
theorem sum_trace (w : AtomicOp → ℕ)
    (hrun : (atomicThreads ι).machine.run (recording calls elapsedNs) es = some s)
    (hdone : ∀ i, s.threads i = []) :
    ((StraightLine.trace es).map w).sum
      = ((resetWindowOps elapsedNs).map w).sum
        + ∑ i, ((calls i).map fun call => (call.ops.map w).sum).sum := by
  have hsum := StraightLine.sum_trace_add_rest w hrun
  have hrest : ∑ i, ((s.threads i).map w).sum = 0 := Finset.sum_eq_zero fun i _ => by simp [hdone i]
  rw [hrest, Nat.add_zero, Fintype.sum_option] at hsum
  simp only [recording, List.flatMap_def, List.map_flatten, List.sum_flatten, List.map_map,
    Function.comp_def] at hsum
  exact hsum

/-- A reset clears every counter once. -/
theorem sum_clears_trace (hrun : (atomicThreads ι).machine.run (recording calls elapsedNs) es = some s)
    (hdone : ∀ i, s.threads i = []) (c : Counter) :
    ((StraightLine.trace es).map (clears c)).sum = 1 := by
  have hreset : ((resetWindowOps elapsedNs).map (clears c)).sum = 1 := by cases c <;> rfl
  rw [sum_trace (clears c) hrun hdone, hreset]
  simp [RecordCall.sum_clears_ops]

/-- Over a complete run as much is added to the codes as to `completed`. -/
theorem sum_adds_trace (hrun : (atomicThreads ι).machine.run (recording calls elapsedNs) es = some s)
    (hdone : ∀ i, s.threads i = []) :
    ((StraightLine.trace es).map (adds .completed)).sum = ((StraightLine.trace es).map addsCode).sum := by
  rw [sum_trace (adds .completed) hrun hdone, sum_trace addsCode hrun hdone]
  simp only [RecordCall.sum_adds_ops]
  rfl

/-- In every interleaving of any calls of any workers with a reset, once all have returned: `completed` is
the sum of the response codes, exactly when as much was added to `completed` before the reset cleared it
as was added to the five codes before it cleared each of them. -/
theorem rcodes_sum_to_completed_iff (calls : ι → List RecordCall) (elapsedNs : ℕ)
    (es : List (Threads.Event (Option ι) AtomicOp Empty))
    (s : Threads.State (Option ι) (List AtomicOp) StatsCollector)
    (hrun : (atomicThreads ι).machine.run (recording calls elapsedNs) es = some s)
    (hdone : ∀ i, s.threads i = []) :
    s.shared.completed = s.shared.rcode.total ↔
      addedBefore .completed (StraightLine.trace es)
        = addedBefore .noerror (StraightLine.trace es) + addedBefore .nxdomain (StraightLine.trace es)
          + addedBefore .servfail (StraightLine.trace es) + addedBefore .refused (StraightLine.trace es)
          + addedBefore .other (StraightLine.trace es) := by
  have hshared : s.shared = execAll (StraightLine.trace es) .new := StraightLine.shared_eq_foldl hrun
  have hvalue := fun c =>
    get_add_addedBefore c (StraightLine.trace es) .new (sum_clears_trace hrun hdone c)
  rw [← hshared] at hvalue
  have hbalance := sum_adds_trace hrun hdone
  rw [sum_addsCode, ← hvalue .completed, ← hvalue .noerror, ← hvalue .nxdomain, ← hvalue .servfail,
    ← hvalue .refused, ← hvalue .other] at hbalance
  simp only [StatsCollector.get] at hbalance
  unfold RcodeCounts.total
  omega

end System

/-- One reply is recorded while the engine resets the window: `completed` is bumped before the reset
and the code after it. -/
def straddled : List (Threads.Event (Option (Fin 1)) AtomicOp Empty) :=
  .thread (some 0) (.fetchAdd .completed 1) ::
    ((resetWindowOps 5).map (.thread none) ++
      [.thread (some 0) (.fetchAdd .noerror 1), .thread (some 0) (.record 7)])

/-- After it there is one NOERROR reply and no completion. -/
theorem rcodes_of_straddled :
    ∃ s, (atomicThreads (Fin 1)).machine.run (recording (fun _ => [.response 0 7]) 5) straddled
        = some s ∧
      (∀ i, s.threads i = []) ∧ s.shared.completed = 0 ∧ s.shared.rcode.total = 1 := by
  refine ⟨_, rfl, ?_, rfl, rfl⟩
  decide

/-- A batch recorded wholly before a reset and one wholly after it. -/
def separated : List (Threads.Event (Option (Fin 1)) AtomicOp Empty) :=
  [.thread (some 0) (.fetchAdd .completed 3), .thread (some 0) (.fetchAdd .noerror 2),
    .thread (some 0) (.fetchAdd .refused 1)] ++ (resetWindowOps 5).map (.thread none) ++
  [.thread (some 0) (.fetchAdd .completed 1), .thread (some 0) (.fetchAdd .other 1),
    .thread (some 0) (.record 7)]

/-- The calls of the worker that does so. -/
def twoCalls (_ : Fin 1) : List RecordCall := [.rcodes { noerror := 2, refused := 1 }, .response 1 7]

/-- The counters then agree. -/
theorem rcodes_of_separated :
    ∃ s, (atomicThreads (Fin 1)).machine.run (recording twoCalls 5) separated = some s ∧
      s.shared.completed = s.shared.rcode.total := by
  refine ⟨_, rfl, ?_⟩
  exact (rcodes_sum_to_completed_iff twoCalls 5 separated _ rfl (by decide)).mpr rfl

end Dnsmark.Stats
