import Dnsmark.Common.Machine

/-!
# Counters that threads flush in batches

Threads that count events in a local accumulator, and now and then move the accumulator into a
counter they share.  `Batched` names the three quantities and carries the one law every thread step
obeys: what is shared and pending grows by what the thread counts.

A *window* is opened by setting the shared counter to zero.  What the counter holds later is what
was counted in the window, less what is still pending, plus what was pending when the window opened
(`Window`).  So once every thread has flushed, the counter is exact if and only if nothing was
pending at the opening.
-/

namespace Threads

variable {ι τ μ ε κ : Type*}

/-- A shared counter `read` that threads add to in batches, as long as their locals are `Valid`. -/
structure Batched (T : Threads ι τ μ ε κ) (Valid : τ → Prop) (read : μ → ℕ) where
  /-- What a thread has counted and not flushed. -/
  pending : τ → ℕ
  /-- What a thread has counted since it started. -/
  counted : τ → ℕ
  /-- A step flushes what it takes from the accumulator, and counts what it adds to it. -/
  step_eq : ∀ {i t mem a t' mem'}, Valid t → T.step i t mem a = some (t', mem') →
    read mem' + pending t' + counted t = read mem + pending t + counted t'

namespace Batched

variable {T : Threads ι τ μ ε κ} {Valid : τ → Prop} {read : μ → ℕ} (B : T.Batched Valid read)
  [Fintype ι]

/-- The counter of a window that was opened when the threads were at `opened`. -/
def Window (s : State ι τ μ) (opened : ι → τ) : Prop :=
  read s.shared + ∑ i, B.pending (s.threads i) + ∑ i, B.counted (opened i)
    = ∑ i, B.pending (opened i) + ∑ i, B.counted (s.threads i)

/-- Setting the counter to zero opens a window. -/
theorem window_open {s : State ι τ μ} (h : read s.shared = 0) : B.Window s s.threads := by
  unfold Window
  rw [h, Nat.zero_add]

/-- What leaves the counter alone leaves the window as it is. -/
theorem window_of_read_eq {s : State ι τ μ} {opened : ι → τ} {mem' : μ} (h : B.Window s opened)
    (hread : read mem' = read s.shared) : B.Window ⟨s.threads, mem'⟩ opened := by
  unfold Window at h ⊢
  rwa [hread]

/-- A step of a thread keeps the window. -/
theorem window_thread [DecidableEq ι] {s : State ι τ μ} {opened : ι → τ} (h : B.Window s opened) {i : ι}
    {a : ε} {t' : τ} {mem' : μ} (hvalid : Valid (s.threads i))
    (hstep : T.step i (s.threads i) s.shared a = some (t', mem')) :
    B.Window ⟨Function.update s.threads i t', mem'⟩ opened := by
  have hlaw := B.step_eq hvalid hstep
  have hpending := sum_update_add s.threads B.pending i t'
  have hcounted := sum_update_add s.threads B.counted i t'
  unfold Window at h ⊢
  simp only
  omega

/-- When every thread has flushed, the counter is what was counted in the window if and only if no
thread had anything pending at its opening. -/
theorem exact_iff_of_flushed {s : State ι τ μ} {opened : ι → τ} (h : B.Window s opened)
    (hflushed : ∀ i, B.pending (s.threads i) = 0) :
    read s.shared + ∑ i, B.counted (opened i) = ∑ i, B.counted (s.threads i) ↔
      ∀ i, B.pending (opened i) = 0 := by
  have hnone : ∑ i, B.pending (s.threads i) = 0 := Finset.sum_eq_zero fun i _ => hflushed i
  have hiff : ∑ i, B.pending (opened i) = 0 ↔ ∀ i, B.pending (opened i) = 0 := by
    simp [Finset.sum_eq_zero_iff]
  unfold Window at h
  rw [← hiff]
  omega

end Batched

end Threads
