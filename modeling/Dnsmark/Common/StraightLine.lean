import Dnsmark.Common.Machine

/-!
# Threads without branches

Several threads, each with a fixed list of atomic operations to execute, in every interleaving.  An
event names the thread that moves and the operation it executes, so the events of a run are a trace of
operations, and the shared memory at the end is that trace executed in order (`shared_eq_foldl`).

What the order cannot change is how much there is of everything: a sum over the operations that were
executed and those that are left is the sum over all of them (`sum_trace_add_rest`).
-/

namespace StraightLine

variable {ι op μ : Type*} [DecidableEq ι] [DecidableEq op] (exec : op → μ → μ)

/-- The next operation of each thread, executed on the shared memory. -/
def threads : Threads ι (List op) μ op Empty where
  step _ rest mem a :=
    match rest with
    | [] => none
    | b :: rest => if a = b then some (rest, exec a mem) else none
  env _ _ k := nomatch k

/-- The operations of a run, in the order they were executed. -/
def trace (es : List (Threads.Event ι op Empty)) : List op :=
  es.map fun
    | .thread _ a => a
    | .env k => nomatch k

variable {exec} {s s' : Threads.State ι (List op) μ} {es : List (Threads.Event ι op Empty)}

/-- What a step does. -/
theorem step_cases {e : Threads.Event ι op Empty} (h : (threads exec).machine.step s e = some s') :
    ∃ i a rest, e = .thread i a ∧ s.threads i = a :: rest ∧
      s' = ⟨Function.update s.threads i rest, exec a s.shared⟩ := by
  obtain ⟨i, a, rest, mem, rfl, hstep, rfl⟩ | ⟨k, -⟩ := (threads exec).machine_step_cases h
  · refine ⟨i, a, rest, rfl, ?_⟩
    cases hthread : s.threads i with
    | nil =>
      rw [hthread] at hstep
      exact nomatch hstep
    | cons b rest' =>
      rw [hthread] at hstep
      obtain ⟨rfl, ⟨⟩⟩ := Option.ite_none_right_eq_some.mp hstep
      exact ⟨rfl, rfl⟩
  · exact k.elim

/-- The memory after a run is the trace, executed. -/
theorem shared_eq_foldl (h : (threads exec).machine.run s es = some s') :
    s'.shared = (trace es).foldl (fun mem a => exec a mem) s.shared := by
  induction es generalizing s with
  | nil =>
    obtain rfl := Option.some.inj h
    rfl
  | cons e es ih =>
    obtain ⟨t, hstep, hrun⟩ := (threads exec).machine.run_cons_eq_some.mp h
    obtain ⟨i, a, rest, rfl, -, rfl⟩ := step_cases hstep
    exact ih hrun

/-- Whatever the order, what was executed and what is left make up the threads. -/
theorem sum_trace_add_rest [Fintype ι] (w : op → ℕ)
    (h : (threads exec).machine.run s es = some s') :
    ((trace es).map w).sum + ∑ i, ((s'.threads i).map w).sum = ∑ i, ((s.threads i).map w).sum := by
  induction es generalizing s with
  | nil =>
    obtain rfl := Option.some.inj h
    exact zero_add _
  | cons e es ih =>
    obtain ⟨t, hstep, hrun⟩ := (threads exec).machine.run_cons_eq_some.mp h
    obtain ⟨i, a, rest, rfl, hthread, rfl⟩ := step_cases hstep
    have hupdate := Threads.sum_update_add s.threads (fun l => (l.map w).sum) i rest
    rw [hthread, List.map_cons, List.sum_cons] at hupdate
    have hrest := ih hrun
    simp only at hrest
    change w a + ((trace es).map w).sum + _ = _
    omega

end StraightLine
