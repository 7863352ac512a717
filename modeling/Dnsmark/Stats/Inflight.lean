import Dnsmark.Stats.Atomic
import Mathlib.Algebra.Order.Field.Basic

/-!
# The outstanding depth under contention

`record_inflight` of `src/stats/mod.rs`: two `fetch_add`s, then a loop that raises `inflight_max` with
`compare_exchange_weak`.  Any number of workers call it at once, the exchange may fail although nothing
has changed, and the engine may reset the window at any time.

A call returns in one of two ways: it has stored its value, or it has seen a maximum that is no smaller.
Either way the maximum is at least its value at that moment, and only a reset lowers it.  Hence the
maximum is never below a call that has returned since the last reset; and without a reset the three
counters end as if the calls had been made one after the other (`recordInflight`).
-/

namespace Dnsmark.Stats.Depth

open AtomicOp

/-- Where a worker is inside of a call with the value `v`. -/
inductive CallPc where
  /-- Between two calls. -/
  | idle
  /-- Before the `fetch_add` on `inflight_count`. -/
  | addCount (v : ℕ)
  /-- Before the load of `inflight_max`. -/
  | load (v : ℕ)
  /-- `old` is smaller: before the exchange. -/
  | exchange (v old : ℕ)
deriving DecidableEq, Repr

/-- A worker with the calls it has still to begin. -/
structure Recorder where
  pc : CallPc
  todo : List ℕ
deriving DecidableEq, Repr

inductive RecordAct where
  | addSum
  | addCount
  | load
  /-- `compare_exchange_weak`; a spurious failure leaves the value alone. -/
  | exchange (spurious : Bool)
deriving DecidableEq, Repr

/-- The collector, and the values of the calls that have returned since `inflight_max` was cleared. -/
structure Shared where
  stats : StatsCollector
  returned : List ℕ

/-- The test of `while v > old`, with the value just read. -/
def Shared.look (m : Shared) (v : ℕ) (todo : List ℕ) : Recorder × Shared :=
  if m.stats.inflightMax < v then (⟨.exchange v m.stats.inflightMax, todo⟩, m)
  else (⟨.idle, todo⟩, { m with returned := v :: m.returned })

/-- One atomic operation of a worker. -/
def Recorder.step (t : Recorder) (m : Shared) (a : RecordAct) : Option (Recorder × Shared) :=
  match t.pc, t.todo, a with
  | .idle, v :: todo, .addSum =>
    some (⟨.addCount v, todo⟩, { m with stats := (fetchAdd .inflightSum v).exec m.stats })
  | .addCount v, todo, .addCount =>
    some (⟨.load v, todo⟩, { m with stats := (fetchAdd .inflightCount 1).exec m.stats })
  | .load v, todo, .load => some (m.look v todo)
  | .exchange v old, todo, .exchange spurious =>
    if m.stats.inflightMax = old ∧ spurious = false then
      some (⟨.idle, todo⟩, { stats := m.stats.set .inflightMax v, returned := v :: m.returned })
    else some (m.look v todo)
  | _, _, _ => none

/-- The counters of `record_inflight`. -/
def depthCounters : List Counter := [.inflightSum, .inflightCount, .inflightMax]

/-- What the rest of the program does to the collector: it clears these counters, or leaves them alone. -/
def Shared.other (m : Shared) (op : AtomicOp) : Option Shared :=
  if ∀ c ∈ depthCounters, op.adds c = 0 then
    some ⟨op.exec m.stats, if op = .clear .inflightMax then [] else m.returned⟩
  else none

/-- The workers, indexed by `ι`. -/
def recorders (ι : Type) : Threads ι Recorder Shared RecordAct AtomicOp where
  step _ t m a := t.step m a
  env _ m op := m.other op

abbrev State (ι : Type) := Threads.State ι Recorder Shared

/-- Before the first call. -/
def start {ι : Type} (calls : ι → List ℕ) : State ι := ⟨fun i => ⟨.idle, calls i⟩, ⟨.new, []⟩⟩

/-- What a step of a worker can be. -/
inductive Stepped (m : Shared) : Recorder → RecordAct → Recorder → Shared → Prop
  | addSum (v : ℕ) (todo : List ℕ) :
      Stepped m ⟨.idle, v :: todo⟩ .addSum ⟨.addCount v, todo⟩
        { m with stats := (fetchAdd .inflightSum v).exec m.stats }
  | addCount (v : ℕ) (todo : List ℕ) :
      Stepped m ⟨.addCount v, todo⟩ .addCount ⟨.load v, todo⟩
        { m with stats := (fetchAdd .inflightCount 1).exec m.stats }
  /-- The loop goes on. -/
  | retry (v : ℕ) (pc : CallPc) (todo : List ℕ) (a : RecordAct)
      (hpc : pc = .load v ∨ ∃ old, pc = .exchange v old) (hlt : m.stats.inflightMax < v) :
      Stepped m ⟨pc, todo⟩ a ⟨.exchange v m.stats.inflightMax, todo⟩ m
  /-- The maximum is no smaller. -/
  | covered (v : ℕ) (pc : CallPc) (todo : List ℕ) (a : RecordAct)
      (hpc : pc = .load v ∨ ∃ old, pc = .exchange v old) (hle : v ≤ m.stats.inflightMax) :
      Stepped m ⟨pc, todo⟩ a ⟨.idle, todo⟩ { m with returned := v :: m.returned }
  /-- The exchange succeeds. -/
  | stored (v : ℕ) (todo : List ℕ) (a : RecordAct) :
      Stepped m ⟨.exchange v m.stats.inflightMax, todo⟩ a ⟨.idle, todo⟩
        { stats := m.stats.set .inflightMax v, returned := v :: m.returned }

/-- A look at the maximum ends the call or leads to an exchange. -/
theorem look_cases {m m' : Shared} {t' : Recorder} {v : ℕ} {pc : CallPc} {todo : List ℕ} {a : RecordAct}
    (hpc : pc = .load v ∨ ∃ old, pc = .exchange v old) (h : m.look v todo = (t', m')) :
    Stepped m ⟨pc, todo⟩ a t' m' := by
  unfold Shared.look at h
  split at h
  · rename_i hlt
    obtain ⟨rfl, rfl⟩ := Prod.mk.inj h
    exact .retry v pc todo a hpc hlt
  · rename_i hlt
    obtain ⟨rfl, rfl⟩ := Prod.mk.inj h
    exact .covered v pc todo a hpc (Nat.le_of_not_lt hlt)

theorem step_cases {t t' : Recorder} {m m' : Shared} {a : RecordAct} (h : t.step m a = some (t', m')) :
    Stepped m t a t' m' := by
  obtain ⟨pc, todo⟩ := t
  unfold Recorder.step at h
  split at h
  · rename_i hpc htodo
    obtain ⟨rfl, rfl⟩ := Prod.mk.inj (Option.some.inj h)
    simp only at hpc htodo
    subst hpc htodo
    exact .addSum _ _
  · rename_i hpc
    obtain ⟨rfl, rfl⟩ := Prod.mk.inj (Option.some.inj h)
    simp only at hpc
    subst hpc
    exact .addCount _ _
  · rename_i hpc
    exact look_cases (.inl hpc) (Option.some.inj h)
  · rename_i v old spurious hpc
    split at h
    · rename_i hequal
      obtain ⟨rfl, rfl⟩ := Prod.mk.inj (Option.some.inj h)
      simp only at hpc
      subst hpc
      obtain ⟨rfl, -⟩ := hequal
      exact .stored _ _ _
    · exact look_cases (.inr ⟨old, hpc⟩) (Option.some.inj h)
  · cases h

/-- What the rest of the program can do. -/
theorem other_cases {m m' : Shared} {op : AtomicOp} (h : m.other op = some m') :
    (∀ c ∈ depthCounters, op.adds c = 0) ∧
      m' = ⟨op.exec m.stats, if op = .clear .inflightMax then [] else m.returned⟩ := by
  unfold Shared.other at h
  split at h
  · exact ⟨‹_›, (Option.some.inj h).symm⟩
  · cases h

/-! ## The maximum -/

/-- The value of the call a worker is in. -/
def CallPc.value : CallPc → List ℕ
  | .idle => []
  | .addCount v => [v]
  | .load v => [v]
  | .exchange v _ => [v]

theorem CallPc.value_of_loop {pc : CallPc} {v : ℕ} (h : pc = .load v ∨ ∃ old, pc = .exchange v old) :
    pc.value = [v] := by
  rcases h with rfl | ⟨old, rfl⟩ <;> rfl

/-- The calls of a worker that have not returned. -/
def Recorder.left (t : Recorder) : List ℕ := t.pc.value ++ t.todo

/-- A worker in front of an exchange has seen a smaller maximum. -/
def Recorder.Ascending (t : Recorder) : Prop := ∀ v old, t.pc = .exchange v old → old < v

/-- What holds of the maximum at any time. -/
structure Inv {ι : Type} (calls : ι → List ℕ) (s : State ι) : Prop where
  ascending : ∀ i, (s.threads i).Ascending
  left : ∀ i, (s.threads i).left ⊆ calls i
  le_max : ∀ v ∈ s.shared.returned, v ≤ s.shared.stats.inflightMax
  max_mem : s.shared.stats.inflightMax = 0 ∨ ∃ i, s.shared.stats.inflightMax ∈ calls i

section Steps

variable {m m' : Shared} {t t' : Recorder} {a : RecordAct}

theorem Stepped.ascending (h : Stepped m t a t' m') : t'.Ascending := by
  intro v old hpc
  cases h with
  | retry v' pc todo a' hpc' hlt =>
    obtain ⟨rfl, rfl⟩ := CallPc.exchange.inj hpc
    exact hlt
  | addSum | addCount | covered | stored => cases hpc

theorem Stepped.left_subset (h : Stepped m t a t' m') : t'.left ⊆ t.left := by
  cases h with
  | addSum v todo => exact List.Subset.refl _
  | addCount v todo => exact List.Subset.refl _
  | retry v pc todo a hpc hlt =>
    rw [Recorder.left, Recorder.left, CallPc.value_of_loop hpc]
    exact List.Subset.refl _
  | covered v pc todo a hpc hle => exact List.subset_append_right _ _
  | stored v todo a => exact List.subset_append_right _ _

/-- A step raises the maximum to the value of its call, or leaves it; a call that returns is covered. -/
theorem Stepped.max (h : Stepped m t a t' m') (ht : t.Ascending)
    (hle : ∀ v ∈ m.returned, v ≤ m.stats.inflightMax) :
    (m'.stats.inflightMax = m.stats.inflightMax ∨ m'.stats.inflightMax ∈ t.left) ∧
      ∀ v ∈ m'.returned, v ≤ m'.stats.inflightMax := by
  cases h with
  | addSum | addCount | retry => exact ⟨.inl rfl, hle⟩
  | covered v pc todo a hpc hle' => exact ⟨.inl rfl, List.forall_mem_cons.mpr ⟨hle', hle⟩⟩
  | stored v todo a =>
    have hlt : m.stats.inflightMax < v := ht v _ rfl
    refine ⟨.inr List.mem_cons_self, List.forall_mem_cons.mpr ⟨le_refl v, fun u hu => ?_⟩⟩
    exact (hle u hu).trans hlt.le

end Steps

variable {ι : Type} {calls : ι → List ℕ} {s s' : State ι}

theorem Inv.start (calls : ι → List ℕ) : Inv calls (start calls) where
  ascending i v old hpc := by cases hpc
  left i := List.Subset.refl _
  le_max v hv := by cases hv
  max_mem := .inl rfl

theorem Inv.step [DecidableEq ι] (h : Inv calls s) {e : Threads.Event ι RecordAct AtomicOp}
    (hstep : (recorders ι).machine.step s e = some s') : Inv calls s' := by
  obtain ⟨i, a, t', m', -, hp, rfl⟩ | ⟨op, m', -, hk, rfl⟩ := (recorders ι).machine_step_cases hstep
  · have hp := step_cases hp
    obtain ⟨hmax, hle⟩ := hp.max (h.ascending i) h.le_max
    refine ⟨?_, ?_, hle, ?_⟩
    · exact (Function.forall_update_iff s.threads fun _ t => t.Ascending).mpr
        ⟨hp.ascending, fun j _ => h.ascending j⟩
    · exact (Function.forall_update_iff s.threads fun j t => t.left ⊆ calls j).mpr
        ⟨List.Subset.trans hp.left_subset (h.left i), fun j _ => h.left j⟩
    · rcases hmax with hsame | hmem
      · exact hsame ▸ h.max_mem
      · exact .inr ⟨i, h.left i hmem⟩
  · obtain ⟨hadds, rfl⟩ := other_cases hk
    have hexec : (op.exec s.shared.stats).inflightMax
        = if op = .clear .inflightMax then 0 else s.shared.stats.inflightMax := by
      have hget := get_exec .inflightMax op s.shared.stats
      rwa [hadds .inflightMax (by decide), Nat.add_zero] at hget
    refine ⟨h.ascending, h.left, ?_, ?_⟩
    · show ∀ v ∈ (if op = .clear .inflightMax then [] else s.shared.returned),
        v ≤ (op.exec s.shared.stats).inflightMax
      rw [hexec]
      split
      · exact fun v hv => absurd hv List.not_mem_nil
      · exact h.le_max
    · show (op.exec s.shared.stats).inflightMax = 0 ∨ ∃ i, (op.exec s.shared.stats).inflightMax ∈ calls i
      rw [hexec]
      split
      · exact .inl rfl
      · exact h.max_mem

/-! ## The account, while nothing is cleared -/

/-- How many calls of a worker are not counted yet. -/
def Recorder.uncounted (t : Recorder) : ℕ :=
  t.todo.length +
    match t.pc with
    | .addCount _ => 1
    | _ => 0

/-- A step of a worker passes its values on. -/
theorem Stepped.account {m m' : Shared} {t t' : Recorder} {a : RecordAct} (h : Stepped m t a t' m') :
    (m'.returned : Multiset ℕ) + t'.left = m.returned + t.left ∧
      m'.stats.inflightSum + t'.todo.sum = m.stats.inflightSum + t.todo.sum ∧
      m'.stats.inflightCount + t'.uncounted = m.stats.inflightCount + t.uncounted := by
  -- a call that returns moves its value
  have hreturn : ∀ (v : ℕ) (todo : List ℕ),
      ((v :: m.returned : List ℕ) : Multiset ℕ) + todo = m.returned + ([v] ++ todo : List ℕ) := by
    intro v todo
    rw [Multiset.coe_add, Multiset.coe_add]
    exact Multiset.coe_eq_coe.mpr List.perm_middle.symm
  have hloop : ∀ {pc : CallPc} {v : ℕ} (todo : List ℕ), (pc = .load v ∨ ∃ old, pc = .exchange v old) →
      Recorder.uncounted ⟨pc, todo⟩ = todo.length := by
    rintro pc v todo (rfl | ⟨old, rfl⟩) <;> rfl
  cases h with
  | addSum v todo =>
    refine ⟨rfl, ?_, rfl⟩
    show m.stats.inflightSum + v + todo.sum = m.stats.inflightSum + (v :: todo).sum
    rw [List.sum_cons, Nat.add_assoc]
  | addCount v todo =>
    refine ⟨rfl, rfl, ?_⟩
    show m.stats.inflightCount + 1 + (todo.length + 0) = m.stats.inflightCount + (todo.length + 1)
    omega
  | retry v pc todo a hpc hlt =>
    rw [Recorder.left, Recorder.left, CallPc.value_of_loop hpc, hloop todo hpc]
    exact ⟨rfl, rfl, rfl⟩
  | covered v pc todo a hpc hle =>
    rw [Recorder.left, Recorder.left, CallPc.value_of_loop hpc, hloop todo hpc]
    exact ⟨hreturn v todo, rfl, rfl⟩
  | stored v todo a => exact ⟨hreturn v todo, rfl, rfl⟩

/-- No counter of `record_inflight` is cleared. -/
def KeepsDepth (_ : State ι) (e : Threads.Event ι RecordAct AtomicOp) : Prop :=
  ∀ op, e = .env op → ∀ c ∈ depthCounters, op ≠ .clear c

variable [Fintype ι]

/-- Every call is on its way or in the counters. -/
structure Account (calls : ι → List ℕ) (s : State ι) : Prop where
  returned : (s.shared.returned : Multiset ℕ) + ∑ i, ((s.threads i).left : Multiset ℕ)
    = ∑ i, (calls i : Multiset ℕ)
  sum : s.shared.stats.inflightSum + ∑ i, (s.threads i).todo.sum = ∑ i, (calls i).sum
  count : s.shared.stats.inflightCount + ∑ i, (s.threads i).uncounted = ∑ i, (calls i).length

theorem Account.start (calls : ι → List ℕ) : Account calls (start calls) where
  returned := zero_add _
  sum := zero_add _
  count := zero_add _

theorem Account.step [DecidableEq ι] (h : Account calls s) {e : Threads.Event ι RecordAct AtomicOp}
    (hkeeps : KeepsDepth s e) (hstep : (recorders ι).machine.step s e = some s') : Account calls s' := by
  obtain ⟨i, a, t', m', -, hp, rfl⟩ | ⟨op, m', rfl, hk, rfl⟩ := (recorders ι).machine_step_cases hstep
  · obtain ⟨hreturned, hsum, hcount⟩ := (step_cases hp).account
    exact ⟨(Threads.sum_exchange (w := fun t => (t.left : Multiset ℕ)) s.threads i hreturned).trans
        h.returned,
      (Threads.sum_exchange (w := fun t => t.todo.sum) s.threads i hsum).trans h.sum,
      (Threads.sum_exchange (w := Recorder.uncounted) s.threads i hcount).trans h.count⟩
  · obtain ⟨hadds, rfl⟩ := other_cases hk
    have hsame : ∀ c ∈ depthCounters, (op.exec s.shared.stats).get c = s.shared.stats.get c := by
      intro c hc
      rw [get_exec, if_neg (hkeeps op rfl c hc), hadds c hc, Nat.add_zero]
    have hmax := hkeeps op rfl .inflightMax (by decide)
    have hsum : (op.exec s.shared.stats).inflightSum = s.shared.stats.inflightSum :=
      hsame .inflightSum (by decide)
    have hcount : (op.exec s.shared.stats).inflightCount = s.shared.stats.inflightCount :=
      hsame .inflightCount (by decide)
    refine ⟨?_, hsum ▸ h.sum, hcount ▸ h.count⟩
    simp only [if_neg hmax]
    exact h.returned

/-- Once all calls have returned, the counters are those of the values that returned. -/
theorem Account.of_done (h : Account calls s) (hdone : ∀ i, s.threads i = ⟨.idle, []⟩) :
    (s.shared.returned : Multiset ℕ) = ∑ i, (calls i : Multiset ℕ) ∧
      s.shared.stats.inflightSum = s.shared.returned.sum ∧
      s.shared.stats.inflightCount = s.shared.returned.length := by
  obtain ⟨hreturned, hsum, hcount⟩ := h
  have hleft : ∑ i, ((s.threads i).left : Multiset ℕ) = 0 :=
    Finset.sum_eq_zero fun i _ => by rw [hdone i]; rfl
  have htodo : ∑ i, (s.threads i).todo.sum = 0 := Finset.sum_eq_zero fun i _ => by rw [hdone i]; rfl
  have huncounted : ∑ i, (s.threads i).uncounted = 0 :=
    Finset.sum_eq_zero fun i _ => by rw [hdone i]; rfl
  rw [hleft, add_zero] at hreturned
  rw [htodo, Nat.add_zero] at hsum
  rw [huncounted, Nat.add_zero] at hcount
  have htotal := congrArg Multiset.sumAddMonoidHom hreturned
  have hcard := congrArg Multiset.card hreturned
  rw [map_sum] at htotal
  rw [Multiset.card_sum] at hcard
  exact ⟨hreturned, hsum.trans htotal.symm, hcount.trans hcard.symm⟩

omit [Fintype ι] in
/-- The counters after some calls in a row. -/
theorem foldl_recordInflight (vs : List ℕ) (st : StatsCollector) :
    (vs.foldl .recordInflight st).inflightSum = st.inflightSum + vs.sum ∧
      (vs.foldl .recordInflight st).inflightCount = st.inflightCount + vs.length ∧
      ∀ b, (vs.foldl .recordInflight st).inflightMax ≤ b ↔ st.inflightMax ≤ b ∧ ∀ v ∈ vs, v ≤ b := by
  induction vs generalizing st with
  | nil => simp
  | cons v vs ih =>
    obtain ⟨hsum, hcount, hmax⟩ := ih (st.recordInflight v)
    refine ⟨?_, ?_, fun b => ?_⟩
    · rw [List.foldl_cons, hsum, List.sum_cons, ← Nat.add_assoc]
      rfl
    · rw [List.foldl_cons, hcount, List.length_cons, Nat.add_comm vs.length, ← Nat.add_assoc]
      rfl
    · rw [List.foldl_cons, hmax, List.forall_mem_cons, ← and_assoc]
      exact and_congr_left fun _ => max_le_iff

/-- In every interleaving of any calls of any workers, with weak exchanges and with resets: `inflight_max`
is 0 or a value that some call was made with, and never below the value of a call that has returned since
it was last cleared.  If nothing was cleared and all calls have returned, the three counters are as if the
calls had been made one after the other, in any order, and the printed mean does not exceed the maximum. -/
theorem record_inflight_linearizes [DecidableEq ι] (calls : ι → List ℕ)
    (es : List (Threads.Event ι RecordAct AtomicOp)) (s : State ι)
    (hrun : (recorders ι).machine.run (start calls) es = some s) :
    (s.shared.stats.inflightMax = 0 ∨ ∃ i, s.shared.stats.inflightMax ∈ calls i) ∧
    (∀ v ∈ s.shared.returned, v ≤ s.shared.stats.inflightMax) ∧
    ((∀ op, .env op ∈ es → ∀ c ∈ depthCounters, op ≠ .clear c) → (∀ i, s.threads i = ⟨.idle, []⟩) →
      (∀ vs : List ℕ, (vs : Multiset ℕ) = ∑ i, (calls i : Multiset ℕ) →
        s.shared.stats.inflightSum = (vs.foldl .recordInflight StatsCollector.new).inflightSum ∧
        s.shared.stats.inflightCount = (vs.foldl .recordInflight StatsCollector.new).inflightCount ∧
        s.shared.stats.inflightMax = (vs.foldl .recordInflight StatsCollector.new).inflightMax) ∧
      ∀ summary elapsedSecs, (s.shared.stats.snapshot summary elapsedSecs).inflightMean
        ≤ (s.shared.stats.snapshot summary elapsedSecs).inflightMax) := by
  have hinv : Inv calls s := (recorders ι).machine.run_invariant (fun _ _ _ h hstep => h.step hstep)
    (Inv.start calls) hrun
  refine ⟨hinv.max_mem, hinv.le_max, fun hclear hdone => ?_⟩
  have hkeeps : (recorders ι).machine.Meets KeepsDepth (start calls) es :=
    (recorders ι).machine.meets_of_forall_mem
      (fun e he _ op (hop : e = .env op) => hclear op (hop ▸ he)) _
  have hacc : Account calls s := (recorders ι).machine.run_invariant_of_meets
    (fun _ _ _ h hC hstep => h.step hC hstep) (Account.start calls) hkeeps hrun
  obtain ⟨hreturned, hsum, hcount⟩ := hacc.of_done hdone
  refine ⟨fun vs hvs => ?_, fun summary elapsedSecs => ?_⟩
  · obtain ⟨hsum', hcount', hmax'⟩ := foldl_recordInflight vs .new
    have hperm : vs.Perm s.shared.returned := Multiset.coe_eq_coe.mp (hvs.trans hreturned.symm)
    refine ⟨?_, ?_, eq_of_forall_ge_iff fun b => ?_⟩
    · rw [hsum, hsum', hperm.sum_eq]
      exact (Nat.zero_add _).symm
    · rw [hcount, hcount', hperm.length_eq]
      exact (Nat.zero_add _).symm
    · rw [hmax']
      refine ⟨fun hb => ⟨Nat.zero_le b, fun v hv => ?_⟩, fun hb => ?_⟩
      · exact (hinv.le_max v (hperm.mem_iff.mp hv)).trans hb
      · rcases hinv.max_mem with hzero | ⟨i, hi⟩
        · rw [hzero]
          exact Nat.zero_le b
        · refine hb.2 _ (hperm.mem_iff.mpr (Multiset.mem_coe.mp ?_))
          rw [hreturned]
          exact Multiset.mem_sum.mpr ⟨i, Finset.mem_univ i, hi⟩
  · show (if 0 < s.shared.stats.inflightCount then
        (s.shared.stats.inflightSum / s.shared.stats.inflightCount : ℚ) else 0)
      ≤ s.shared.stats.inflightMax
    split
    · rename_i hpos
      have hle : s.shared.stats.inflightSum
          ≤ s.shared.stats.inflightMax * s.shared.stats.inflightCount := by
        rw [hsum, hcount, Nat.mul_comm]
        exact List.sum_le_card_nsmul _ _ hinv.le_max
      rw [div_le_iff₀ (Nat.cast_pos.mpr hpos)]
      exact_mod_cast hle
    · exact Nat.cast_nonneg _

/-- One worker records 3, the other 5. -/
def twoDepths : Fin 2 → List ℕ := ![[3], [5]]

/-- The first has loaded the maximum when the second raises it: its exchange fails and it is done. -/
def contended : List (Threads.Event (Fin 2) RecordAct AtomicOp) :=
  [.thread 0 .addSum, .thread 0 .addCount, .thread 0 .load, .thread 1 .addSum, .thread 1 .addCount,
    .thread 1 .load, .thread 1 (.exchange true), .thread 1 (.exchange false), .thread 0 (.exchange false)]

/-- The maximum is that of the two calls. -/
theorem record_inflight_linearizes_contended :
    ∃ s, (recorders (Fin 2)).machine.run (start twoDepths) contended = some s ∧
      s.shared.stats.inflightMax = ([3, 5].foldl .recordInflight StatsCollector.new).inflightMax := by
  refine ⟨_, rfl, ((((record_inflight_linearizes twoDepths contended _ rfl).2.2 ?_ ?_).1 [3, 5] ?_).2).2⟩
  · intro op hop
    simp [contended] at hop
  · decide
  · rw [Fin.sum_univ_two]
    rfl

end Dnsmark.Stats.Depth
