import Mathlib.Algebra.BigOperators.Fin
import Mathlib.Algebra.Order.BigOperators.Group.Finset
import Mathlib.Tactic.Abel
import Mathlib.Tactic.Ring

/-!
# Guarded machines, runs and interleavings

A `Machine` is a partial step function on labelled events: `step s e` is the state after event `e`,
and `none` when the guard of `e` does not hold in `s`.  Runs are lists of events, so "every run of
any length" is a quantifier over lists.

`Always P` says that every state a run visits satisfies `P`; `Meets C` says that every step of a run
satisfies the condition `C` in the state before it.  The two are tied together by a *drift*, a
potential that stays put at the steps that meet `C` and grows at the others
(`always_drift_eq_iff`).

`Threads` is the machine of several threads over one shared memory.  Any thread may move at any
time, so a list of its events is one interleaving.  A quantity that is a sum over the threads plus a
part of the shared memory changes, in one step, only by what the moving thread does
(`Threads.total_thread`); this is the one rule every accounting law below is derived from.  Where the
thread's part of it never shrinks, the total is a drift of the interleaving (`Threads.total_run`).
-/

/-- A machine with guarded, labelled steps. -/
structure Machine (σ ε : Type*) where
  /-- The state after an event, or `none` when the event is not possible. -/
  step : σ → ε → Option σ

namespace Machine

variable {σ ε : Type*} (m : Machine σ ε)

/-- Execute a list of events, first event first. -/
def run (s : σ) : List ε → Option σ
  | [] => some s
  | e :: es => (m.step s e).bind fun s' => run s' es

/-- Every state the run visits, its start included, satisfies `P`. -/
def Always (P : σ → Prop) (s : σ) : List ε → Prop
  | [] => P s
  | e :: es => P s ∧ ∀ s', m.step s e = some s' → Always P s' es

/-- Every step of the run satisfies `C` in the state before it. -/
def Meets (C : σ → ε → Prop) (s : σ) : List ε → Prop
  | [] => True
  | e :: es => C s e ∧ ∀ s', m.step s e = some s' → Meets C s' es

/-! ## Runs -/

@[simp] theorem run_nil (s : σ) : m.run s [] = some s := rfl

theorem run_cons (s : σ) (e : ε) (es : List ε) :
    m.run s (e :: es) = (m.step s e).bind fun s' => m.run s' es := rfl

/-- The first step of a successful run, and the run after it. -/
theorem run_cons_eq_some {s s' : σ} {e : ε} {es : List ε} :
    m.run s (e :: es) = some s' ↔ ∃ t, m.step s e = some t ∧ m.run t es = some s' := by
  rw [run_cons, Option.bind_eq_some_iff]

theorem run_append (s : σ) (es es' : List ε) :
    m.run s (es ++ es') = (m.run s es).bind fun t => m.run t es' := by
  induction es generalizing s with
  | nil => rfl
  | cons e es ih =>
    rw [List.cons_append, run_cons, run_cons, Option.bind_assoc]
    exact congrArg (Option.bind (m.step s e)) (funext fun t => ih t)

/-- Two runs in a row. -/
theorem run_trans {s t u : σ} {es es' : List ε} (h : m.run s es = some t)
    (h' : m.run t es' = some u) : m.run s (es ++ es') = some u := by
  rw [run_append, h, Option.bind_some, h']

/-- One step is a run. -/
theorem run_single {s t : σ} {e : ε} (h : m.step s e = some t) : m.run s [e] = some t := by
  rw [run_cons, h, Option.bind_some, run_nil]

/-- The same event `n` times. -/
theorem run_replicate {f : ℕ → σ} {e : ε} {n : ℕ} (h : ∀ k < n, m.step (f k) e = some (f (k + 1))) :
    m.run (f 0) (List.replicate n e) = some (f n) := by
  induction n with
  | zero => rfl
  | succ n ih =>
    rw [List.replicate_succ']
    exact m.run_trans (ih fun k hk => h k (hk.trans n.lt_succ_self)) (m.run_single (h n n.lt_succ_self))

/-- A simulation maps runs to runs. -/
theorem run_map {τ δ : Type*} (m' : Machine τ δ) (f : σ → τ) (g : ε → δ)
    (hstep : ∀ s e s', m.step s e = some s' → m'.step (f s) (g e) = some (f s'))
    {s s' : σ} {es : List ε} (h : m.run s es = some s') : m'.run (f s) (es.map g) = some (f s') := by
  induction es generalizing s with
  | nil =>
    obtain rfl : s = s' := by simpa using h
    rfl
  | cons e es ih =>
    obtain ⟨t, ht, hrun⟩ := m.run_cons_eq_some.mp h
    exact m'.run_cons_eq_some.mpr ⟨f t, hstep s e t ht, ih hrun⟩

/-- A property that one event establishes and no other event changes holds after a run exactly when
it held before or the event occurred. -/
theorem run_iff_mem (P : σ → Prop) (e₀ : ε) (hmake : ∀ s s', m.step s e₀ = some s' → P s')
    (hother : ∀ s e s', e ≠ e₀ → m.step s e = some s' → (P s' ↔ P s))
    {s s' : σ} {es : List ε} (h : m.run s es = some s') : P s' ↔ P s ∨ e₀ ∈ es := by
  induction es generalizing s with
  | nil =>
    obtain rfl : s = s' := by simpa using h
    simp
  | cons e es ih =>
    obtain ⟨t, ht, hrun⟩ := m.run_cons_eq_some.mp h
    rw [ih hrun, List.mem_cons]
    by_cases he : e = e₀
    · subst he
      exact iff_of_true (.inl (hmake s t ht)) (.inr (.inl rfl))
    · rw [hother s e t he ht]
      exact or_congr_right ⟨.inr, fun hmem => hmem.resolve_left fun heq => he heq.symm⟩

/-! ## Invariants -/

/-- A property kept by every step is kept by every run. -/
theorem run_invariant {I : σ → Prop} (hstep : ∀ s e s', I s → m.step s e = some s' → I s')
    {s s' : σ} {es : List ε} (hs : I s) (h : m.run s es = some s') : I s' := by
  induction es generalizing s with
  | nil =>
    obtain rfl : s = s' := by simpa using h
    exact hs
  | cons e es ih =>
    obtain ⟨t, ht, hrun⟩ := m.run_cons_eq_some.mp h
    exact ih (hstep s e t hs ht) hrun

/-- Under an invariant, a run has only events that a step from it can have. -/
theorem forall_mem_of_run {I : σ → Prop} {P : ε → Prop}
    (hstep : ∀ s e s', I s → m.step s e = some s' → I s' ∧ P e)
    {s s' : σ} {es : List ε} (hs : I s) (h : m.run s es = some s') : ∀ e ∈ es, P e := by
  induction es generalizing s with
  | nil => exact fun e he => absurd he List.not_mem_nil
  | cons e es ih =>
    obtain ⟨t, ht, hrun⟩ := m.run_cons_eq_some.mp h
    obtain ⟨hI, hP⟩ := hstep s e t hs ht
    exact List.forall_mem_cons.mpr ⟨hP, ih hI hrun⟩

/-- A property kept by every step that meets `C` is kept by every run that meets `C`. -/
theorem run_invariant_of_meets {I : σ → Prop} {C : σ → ε → Prop}
    (hstep : ∀ s e s', I s → C s e → m.step s e = some s' → I s')
    {s s' : σ} {es : List ε} (hs : I s) (hC : m.Meets C s es) (h : m.run s es = some s') :
    I s' := by
  induction es generalizing s with
  | nil =>
    obtain rfl : s = s' := by simpa using h
    exact hs
  | cons e es ih =>
    obtain ⟨t, ht, hrun⟩ := m.run_cons_eq_some.mp h
    exact ih (hstep s e t hs hC.1 ht) (hC.2 t ht) hrun

/-- An invariant holds in every state a run visits. -/
theorem always_of_invariant {I : σ → Prop} (hstep : ∀ s e s', I s → m.step s e = some s' → I s')
    {s : σ} (hs : I s) (es : List ε) : m.Always I s es := by
  induction es generalizing s with
  | nil => exact hs
  | cons e es ih => exact ⟨hs, fun t ht => ih (hstep s e t hs ht)⟩

/-- The first state of a run. -/
theorem Always.head {P : σ → Prop} {s : σ} {es : List ε} (h : m.Always P s es) : P s := by
  cases es with
  | nil => exact h
  | cons e es => exact h.1

theorem Always.mono {P Q : σ → Prop} (hPQ : ∀ s, P s → Q s) {s : σ} {es : List ε}
    (h : m.Always P s es) : m.Always Q s es := by
  induction es generalizing s with
  | nil => exact hPQ s h
  | cons e es ih => exact ⟨hPQ s h.1, fun t ht => ih (h.2 t ht)⟩

/-- Under an invariant that makes `P` and `Q` the same, a run is always `P` when it is always
`Q`. -/
theorem always_congr {I P Q : σ → Prop} (hstep : ∀ s e s', I s → m.step s e = some s' → I s')
    (hPQ : ∀ s, I s → (P s ↔ Q s)) {s : σ} (hs : I s) (es : List ε) :
    m.Always P s es ↔ m.Always Q s es := by
  induction es generalizing s with
  | nil => exact hPQ s hs
  | cons e es ih =>
    exact and_congr (hPQ s hs) (forall₂_congr fun t ht => ih (hstep s e t hs ht))

/-- A step that meets `C`, before a run that does. -/
theorem meets_cons {C : σ → ε → Prop} {s t : σ} {e : ε} {es : List ε} (h : m.step s e = some t)
    (hC : C s e) (hrest : m.Meets C t es) : m.Meets C s (e :: es) := by
  refine ⟨hC, fun u hu => ?_⟩
  obtain rfl : t = u := Option.some.inj (h.symm.trans hu)
  exact hrest

/-- A condition that the events of a run meet in any state. -/
theorem meets_of_forall_mem {C : σ → ε → Prop} {es : List ε} (h : ∀ e ∈ es, ∀ s, C s e) (s : σ) :
    m.Meets C s es := by
  induction es generalizing s with
  | nil => trivial
  | cons e es ih =>
    exact ⟨h e List.mem_cons_self s, fun t _ => ih (fun e' he' => h e' (List.mem_cons_of_mem _ he')) t⟩

/-- Whether a run meets a condition can be computed along the run. -/
instance decidableMeets (C : σ → ε → Prop) [∀ s e, Decidable (C s e)] :
    (s : σ) → (es : List ε) → Decidable (m.Meets C s es)
  | _, [] => .isTrue trivial
  | s, e :: es =>
    match h : m.step s e with
    | some t =>
      letI := decidableMeets C t es
      decidable_of_iff (C s e ∧ m.Meets C t es)
        ⟨fun hC => m.meets_cons h hC.1 hC.2, fun hmeets => ⟨hmeets.1, hmeets.2 t h⟩⟩
    | none =>
      decidable_of_iff (C s e)
        ⟨fun hC => ⟨hC, fun _ ht => absurd (h.symm.trans ht) nofun⟩, fun hmeets => hmeets.1⟩

/-- A property that a run keeps as long as its steps meet `C` and loses at the first step that does
not: it holds in every visited state exactly when every step meets `C`. -/
theorem always_iff_meets {I P : σ → Prop} {C : σ → ε → Prop} (hIP : ∀ s, I s → P s)
    (hkeep : ∀ s e s', I s → m.step s e = some s' → C s e → I s')
    (hbreak : ∀ s e s', I s → m.step s e = some s' → ¬ C s e → ¬ P s')
    {s s' : σ} {es : List ε} (hs : I s) (h : m.run s es = some s') :
    m.Always P s es ↔ m.Meets C s es := by
  induction es generalizing s with
  | nil => exact iff_of_true (hIP s hs) trivial
  | cons e es ih =>
    obtain ⟨t, ht, hrun⟩ := m.run_cons_eq_some.mp h
    constructor
    · rintro ⟨-, hall⟩
      have hPt : P t := (hall t ht).head
      have hC : C s e := by
        by_contra hC
        exact hbreak s e t hs ht hC hPt
      refine ⟨hC, fun u hu => ?_⟩
      obtain rfl : t = u := Option.some.inj (ht.symm.trans hu)
      exact (ih (hkeep s e t hs ht hC) hrun).mp (hall t ht)
    · rintro ⟨hC, hrest⟩
      refine ⟨hIP s hs, fun u hu => ?_⟩
      obtain rfl : t = u := Option.some.inj (ht.symm.trans hu)
      exact (ih (hkeep s e t hs ht hC) hrun).mpr (hrest t ht)

/-! ## Bounded steps -/

/-- A fuel that no step raises and that the steps marked by `p` lower bounds the number of these
steps. -/
theorem countP_add_fuel_le {I : σ → Prop} {p : ε → Bool} {fuel : σ → ℕ}
    (hI : ∀ s e s', I s → m.step s e = some s' → I s')
    (hfuel : ∀ s e s', I s → m.step s e = some s' → fuel s' + (p e).toNat ≤ fuel s)
    {s s' : σ} {es : List ε} (hs : I s) (h : m.run s es = some s') :
    es.countP p + fuel s' ≤ fuel s := by
  induction es generalizing s with
  | nil =>
    obtain rfl : s = s' := by simpa using h
    simp
  | cons e es ih =>
    obtain ⟨t, ht, hrun⟩ := m.run_cons_eq_some.mp h
    have hrest := ih (hI s e t hs ht) hrun
    have hstep := hfuel s e t hs ht
    rw [List.countP_cons]
    cases hp : p e <;> simp [hp] at hstep ⊢ <;> omega

/-! ## Counted steps -/

/-- The number of steps of the run that are marked by `p` in the state before them. -/
def tally (p : σ → ε → Bool) (s : σ) : List ε → ℕ
  | [] => 0
  | e :: es => (p s e).toNat + (m.step s e).elim 0 fun s' => tally p s' es

/-- A potential that the marked steps raise by one, and the others leave alone, counts them. -/
theorem drift_eq_add_tally {I : σ → Prop} {p : σ → ε → Bool} {d : σ → ℕ}
    (hI : ∀ s e s', I s → m.step s e = some s' → I s')
    (hd : ∀ s e s', I s → m.step s e = some s' → d s' = d s + (p s e).toNat)
    {s s' : σ} {es : List ε} (hs : I s) (h : m.run s es = some s') : d s' = d s + m.tally p s es := by
  induction es generalizing s with
  | nil =>
    obtain rfl : s = s' := by simpa using h
    rfl
  | cons e es ih =>
    obtain ⟨t, ht, hrun⟩ := m.run_cons_eq_some.mp h
    rw [ih (hI s e t hs ht) hrun, hd s e t hs ht, tally, ht, Option.elim_some, Nat.add_assoc]

/-! ## Steps that occur -/

/-- Some step of the run satisfies `C` in the state before it. -/
def Sometimes (C : σ → ε → Prop) (s : σ) (es : List ε) : Prop :=
  ¬ m.Meets (fun s e => ¬ C s e) s es

instance (C : σ → ε → Prop) [∀ s e, Decidable (C s e)] (s : σ) (es : List ε) :
    Decidable (m.Sometimes C s es) := inferInstanceAs (Decidable (¬ _))

/-- What a run brings about, a step has brought about. -/
theorem sometimes_of_run {P : σ → Prop} {C : σ → ε → Prop}
    (hnew : ∀ s e s', m.step s e = some s' → P s' → P s ∨ C s e)
    {s s' : σ} {es : List ε} (hs : ¬ P s) (h : m.run s es = some s') (hP : P s') :
    m.Sometimes C s es := by
  intro hmeets
  refine m.run_invariant_of_meets (I := fun s => ¬ P s) ?_ hs hmeets h hP
  intro s e s' hs hC hstep hP
  exact (hnew s e s' hstep hP).elim hs hC

/-- What a step brings about and no later step undoes, the run brings about. -/
theorem run_of_sometimes {Q : σ → Prop} {C : σ → ε → Prop}
    (hmake : ∀ s e s', m.step s e = some s' → C s e → Q s')
    (hkeep : ∀ s e s', Q s → m.step s e = some s' → Q s')
    {s s' : σ} {es : List ε} (hC : m.Sometimes C s es) (h : m.run s es = some s') : Q s' := by
  by_contra hQ
  apply hC
  clear hC
  induction es generalizing s with
  | nil => trivial
  | cons e es ih =>
    obtain ⟨t, ht, hrun⟩ := m.run_cons_eq_some.mp h
    refine m.meets_cons ht (fun hC => hQ ?_) (ih hrun)
    exact m.run_invariant hkeep (hmake s e t ht hC) hrun

/-! ## Drift

A drift is a potential `d` that a step leaves alone exactly when it meets `C` and increases
otherwise.  It then stays at its first value if and only if the run never breaks `C`. -/

section Drift

variable {α : Type*} [Preorder α] {I : σ → Prop} {C : σ → ε → Prop} {d : σ → α}

/-- A potential that no step decreases is not decreased by a run. -/
theorem drift_le_run (hI : ∀ s e s', I s → m.step s e = some s' → I s')
    (hd : ∀ s e s', I s → m.step s e = some s' → d s ≤ d s')
    {s s' : σ} {es : List ε} (hs : I s) (h : m.run s es = some s') : d s ≤ d s' := by
  induction es generalizing s with
  | nil =>
    obtain rfl : s = s' := by simpa using h
    exact le_refl _
  | cons e es ih =>
    obtain ⟨t, ht, hrun⟩ := m.run_cons_eq_some.mp h
    exact (hd s e t hs ht).trans (ih (hI s e t hs ht) hrun)

/-- The drift is unchanged by a run exactly when every step of the run meets `C`. -/
theorem drift_eq_iff_meets (hI : ∀ s e s', I s → m.step s e = some s' → I s')
    (hkeep : ∀ s e s', I s → m.step s e = some s' → C s e → d s' = d s)
    (hgrow : ∀ s e s', I s → m.step s e = some s' → ¬ C s e → d s < d s')
    {s s' : σ} {es : List ε} (hs : I s) (h : m.run s es = some s') :
    d s' = d s ↔ m.Meets C s es := by
  have hd : ∀ s e s', I s → m.step s e = some s' → d s ≤ d s' := by
    intro s e s' hs hstep
    by_cases hC : C s e
    · exact (hkeep s e s' hs hstep hC).ge
    · exact (hgrow s e s' hs hstep hC).le
  induction es generalizing s with
  | nil =>
    obtain rfl : s = s' := by simpa using h
    exact iff_of_true rfl trivial
  | cons e es ih =>
    obtain ⟨t, ht, hrun⟩ := m.run_cons_eq_some.mp h
    have hle := m.drift_le_run hI hd (hI s e t hs ht) hrun
    constructor
    · intro heq
      have hC : C s e := by
        by_contra hC
        exact absurd (hgrow s e t hs ht hC) (hle.trans heq.le).not_gt
      refine ⟨hC, fun u hu => ?_⟩
      obtain rfl : t = u := Option.some.inj (ht.symm.trans hu)
      exact (ih (hI s e t hs ht) hrun).mp (heq.trans (hkeep s e t hs ht hC).symm)
    · rintro ⟨hC, hrest⟩
      rw [(ih (hI s e t hs ht) hrun).mpr (hrest t ht), hkeep s e t hs ht hC]

/-- The drift keeps its first value in every visited state exactly when every step of the run meets
`C`. -/
theorem always_drift_eq_iff (hI : ∀ s e s', I s → m.step s e = some s' → I s')
    (hkeep : ∀ s e s', I s → m.step s e = some s' → C s e → d s' = d s)
    (hgrow : ∀ s e s', I s → m.step s e = some s' → ¬ C s e → d s < d s')
    {s s' : σ} {es : List ε} {a : α} (hs : I s) (h0 : d s = a) (h : m.run s es = some s') :
    m.Always (fun t => d t = a) s es ↔ m.Meets C s es := by
  refine m.always_iff_meets (I := fun t => I t ∧ d t = a) (fun t ht => ht.2) ?_ ?_ ⟨hs, h0⟩ h
  · exact fun s e s' hs ht hC => ⟨hI s e s' hs.1 ht, (hkeep s e s' hs.1 ht hC).trans hs.2⟩
  · intro s e s' hs ht hC heq
    exact (hgrow s e s' hs.1 ht hC).ne (hs.2.trans heq.symm)

end Drift

end Machine

/-! ## Threads over a shared memory -/

-- named once, so that the threads `0` and `1` of an example are the same term in every module
instance Threads.neZero_one : NeZero 1 := ⟨by decide⟩
instance Threads.neZero_two : NeZero 2 := ⟨by decide⟩

/-- Threads indexed by `ι`, each with a local state `τ`, over a shared memory `μ`.  An event `ε` of
one thread is one atomic step; `env` is what the surroundings do to the memory, possibly looking at
the threads. -/
structure Threads (ι τ μ ε κ : Type*) where
  /-- One atomic step of one thread. -/
  step : ι → τ → μ → ε → Option (τ × μ)
  /-- One step of the surroundings. -/
  env : (ι → τ) → μ → κ → Option μ

namespace Threads

/-- The local states of all threads, and the memory they share. -/
structure State (ι τ μ : Type*) where
  threads : ι → τ
  shared : μ

/-- Which thread moves, and how; or a move of the surroundings. -/
inductive Event (ι ε κ : Type*) where
  | thread (i : ι) (e : ε)
  | env (k : κ)

variable {ι τ μ ε κ : Type*} [DecidableEq ι] (T : Threads ι τ μ ε κ)

/-- The machine whose runs are the interleavings of the threads. -/
def machine : Machine (State ι τ μ) (Event ι ε κ) where
  step s
    | .thread i e => (T.step i (s.threads i) s.shared e).map fun p =>
        ⟨Function.update s.threads i p.1, p.2⟩
    | .env k => (T.env s.threads s.shared k).map fun μ' => ⟨s.threads, μ'⟩

/-- A step of one thread is a step of the interleaving. -/
theorem machine_step_thread {s : State ι τ μ} {i : ι} {e : ε} {t' : τ} {μ' : μ}
    (h : T.step i (s.threads i) s.shared e = some (t', μ')) :
    T.machine.step s (.thread i e) = some ⟨Function.update s.threads i t', μ'⟩ :=
  congrArg (Option.map _) h

/-- So is a step of the surroundings. -/
theorem machine_step_env {threads : ι → τ} {mem mem' : μ} {k : κ} (h : T.env threads mem k = some mem') :
    T.machine.step ⟨threads, mem⟩ (.env k) = some ⟨threads, mem'⟩ :=
  congrArg (Option.map _) h

/-- One thread, moving alone. -/
def alone (i : ι) : Machine (τ × μ) ε := ⟨fun p e => T.step i p.1 p.2 e⟩

omit [DecidableEq ι] in
theorem alone_single {i : ι} {t t' : τ} {mem mem' : μ} {e : ε}
    (h : T.step i t mem e = some (t', mem')) : (T.alone i).run (t, mem) [e] = some (t', mem') :=
  (T.alone i).run_single h

/-- What a thread can do alone is an interleaving. -/
theorem run_alone {s : State ι τ μ} {i : ι} {es : List ε} {p : τ × μ}
    (h : (T.alone i).run (s.threads i, s.shared) es = some p) :
    T.machine.run s (es.map (.thread i)) = some ⟨Function.update s.threads i p.1, p.2⟩ := by
  induction es generalizing s with
  | nil =>
    obtain rfl := Option.some.inj h
    rw [Function.update_eq_self]
    rfl
  | cons e es ih =>
    obtain ⟨⟨t, mem⟩, hstep, hrun⟩ := (T.alone i).run_cons_eq_some.mp h
    refine T.machine.run_cons_eq_some.mpr ⟨_, T.machine_step_thread hstep, ?_⟩
    rw [ih (by simpa using hrun), Function.update_idem]

/-- Thread `j` comes in between two parts of what thread `i` does. -/
theorem run_interrupted {s : State ι τ μ} {i j : ι} (hne : j ≠ i) {es es' es'' : List ε} {t t' u : τ}
    {mem mem' mem'' : μ} (h : (T.alone i).run (s.threads i, s.shared) es = some (t, mem))
    (h' : (T.alone j).run (s.threads j, mem) es' = some (u, mem'))
    (h'' : (T.alone i).run (t, mem') es'' = some (t', mem'')) :
    T.machine.run s (es.map (.thread i) ++ es'.map (.thread j) ++ es''.map (.thread i))
      = some ⟨Function.update (Function.update s.threads j u) i t', mem''⟩ := by
  have hj : Function.update s.threads i t j = s.threads j := Function.update_of_ne hne ..
  have hi : Function.update (Function.update s.threads i t) j u i = t :=
    (Function.update_of_ne hne.symm ..).trans (Function.update_self ..)
  have hfirst := T.run_alone (s := s) h
  have hsecond := T.run_alone (s := ⟨Function.update s.threads i t, mem⟩) (hj.symm ▸ h')
  have hthird := T.run_alone (s := ⟨Function.update (Function.update s.threads i t) j u, mem'⟩)
    (hi.symm ▸ h'')
  rw [T.machine.run_trans (T.machine.run_trans hfirst hsecond) hthird, Function.update_comm hne.symm,
    Function.update_idem]

/-- The threads move one after the other, each alone.  `I done` is what holds of the memory once the threads
of `done` have moved, and `J i` what becomes of thread `i`. -/
theorem exists_run_in_turn [Fintype ι] {s : State ι τ μ} {I : Finset ι → μ → Prop} {J : ι → τ → Prop}
    (hstart : I ∅ s.shared)
    (hturn : ∀ i done mem, i ∉ done → I done mem → ∃ es t' mem',
      (T.alone i).run (s.threads i, mem) es = some (t', mem') ∧ I (insert i done) mem' ∧ J i t') :
    ∃ es s', T.machine.run s es = some s' ∧ I Finset.univ s'.shared ∧ ∀ i, J i (s'.threads i) := by
  have hdone : ∀ done : Finset ι, ∃ es s', T.machine.run s es = some s' ∧ I done s'.shared ∧
      (∀ i ∈ done, J i (s'.threads i)) ∧ ∀ i ∉ done, s'.threads i = s.threads i := by
    intro done
    induction done using Finset.induction_on with
    | empty => exact ⟨[], s, rfl, hstart, fun i hi => absurd hi (Finset.notMem_empty i), fun _ _ => rfl⟩
    | insert i done hi ih =>
      obtain ⟨es, s', hrun, hI, hJ, hrest⟩ := ih
      obtain ⟨es', t', mem', hturn, hI', hJ'⟩ := hturn i done s'.shared hi hI
      rw [← hrest i hi] at hturn
      refine ⟨_, _, T.machine.run_trans hrun (T.run_alone hturn), hI', fun j hj => ?_, fun j hj => ?_⟩
      · obtain rfl | hj := Finset.mem_insert.mp hj
        · simpa using hJ'
        · have hne : j ≠ i := fun heq => hi (heq ▸ hj)
          simpa [hne] using hJ j hj
      · rw [Finset.mem_insert, not_or] at hj
        simpa [hj.1] using hrest j hj.2
  obtain ⟨es, s', hrun, hI, hJ, -⟩ := hdone Finset.univ
  exact ⟨es, s', hrun, hI, fun i => hJ i (Finset.mem_univ i)⟩

/-- What one step of an interleaving can be. -/
theorem machine_step_cases {s s' : State ι τ μ} {e : Event ι ε κ}
    (h : T.machine.step s e = some s') :
    (∃ i a t' μ', e = .thread i a ∧ T.step i (s.threads i) s.shared a = some (t', μ') ∧
      s' = ⟨Function.update s.threads i t', μ'⟩) ∨
    (∃ k μ', e = .env k ∧ T.env s.threads s.shared k = some μ' ∧ s' = ⟨s.threads, μ'⟩) := by
  cases e with
  | thread i a =>
    obtain ⟨⟨t', μ'⟩, hp, rfl⟩ := Option.map_eq_some_iff.mp h
    exact .inl ⟨i, a, t', μ', rfl, hp, rfl⟩
  | env k =>
    obtain ⟨μ', hp, rfl⟩ := Option.map_eq_some_iff.mp h
    exact .inr ⟨k, μ', rfl, hp, rfl⟩

/-- A property of every thread's local state, kept by the threads' own steps, is an invariant. -/
theorem forall_threads_invariant {J : ι → τ → Prop}
    (hstep : ∀ i t mem a t' mem', J i t → T.step i t mem a = some (t', mem') → J i t')
    (s : State ι τ μ) (e : Event ι ε κ) (s' : State ι τ μ)
    (hs : ∀ i, J i (s.threads i)) (h : T.machine.step s e = some s') :
    ∀ i, J i (s'.threads i) := by
  obtain ⟨i, a, t', μ', -, hp, rfl⟩ | ⟨k, μ', -, -, rfl⟩ := T.machine_step_cases h
  · exact (Function.forall_update_iff s.threads J).mpr
      ⟨hstep i _ _ a t' μ' (hs i) hp, fun j _ => hs j⟩
  · exact hs

section Total

variable [Fintype ι]

/-- A quantity with one part in every thread and one part in the shared memory. -/
def total (W : μ → ℤ) (w : τ → ℤ) (s : State ι τ μ) : ℤ := W s.shared + ∑ i, w (s.threads i)

/-- Replacing one thread's local state exchanges that thread's part of a sum over the threads. -/
theorem sum_update_add {M : Type*} [AddCommMonoid M] (f : ι → τ) (w : τ → M) (i : ι) (t : τ) :
    ∑ j, w (Function.update f i t j) + w (f i) = ∑ j, w (f j) + w t := by
  have hpart : ∀ g : ι → τ, ∑ j, w (g j) = w (g i) + ∑ j ∈ Finset.univ.erase i, w (g j) :=
    fun g => (Finset.add_sum_erase _ _ (Finset.mem_univ i)).symm
  have hrest : ∑ j ∈ Finset.univ.erase i, w (Function.update f i t j)
      = ∑ j ∈ Finset.univ.erase i, w (f j) := by
    refine Finset.sum_congr rfl fun j hj => ?_
    rw [Function.update_of_ne (Finset.ne_of_mem_erase hj)]
  rw [hpart, hpart f, hrest, Function.update_self]
  abel

/-- The same as a difference. -/
theorem sum_update {M : Type*} [AddCommGroup M] (f : ι → τ) (w : τ → M) (i : ι) (t : τ) :
    ∑ j, w (Function.update f i t j) = ∑ j, w (f j) + (w t - w (f i)) := by
  rw [← add_sub_assoc, ← sum_update_add f w i t, add_sub_cancel_right]

/-- What thread `i` hands to the memory, or takes from it, is still held by all of them together. -/
theorem sum_exchange {M : Type*} [AddCancelCommMonoid M] {W W' : M} {w : τ → M} (f : ι → τ) (i : ι) {t' : τ}
    (h : W' + w t' = W + w (f i)) : W' + ∑ j, w (Function.update f i t' j) = W + ∑ j, w (f j) := by
  apply add_right_cancel (b := w (f i))
  calc W' + ∑ j, w (Function.update f i t' j) + w (f i)
      = W' + (∑ j, w (f j) + w t') := by rw [add_assoc, sum_update_add]
    _ = (W' + w t') + ∑ j, w (f j) := by abel
    _ = (W + w (f i)) + ∑ j, w (f j) := by rw [h]
    _ = W + ∑ j, w (f j) + w (f i) := by abel

/-- What every step passes between a thread and the memory, and nowhere else, is conserved.  `I` is what
the memory must keep for that. -/
theorem sum_conserved {M : Type*} [AddCancelCommMonoid M] {W : μ → M} {w : τ → M} {I : μ → Prop}
    (hthread : ∀ i t mem a t' mem', I mem → T.step i t mem a = some (t', mem') →
      W mem' + w t' = W mem + w t)
    (henv : ∀ th mem k mem', I mem → T.env th mem k = some mem' → W mem' = W mem)
    {s s' : State ι τ μ} {e : Event ι ε κ} (hI : I s.shared) (h : T.machine.step s e = some s') :
    W s'.shared + ∑ i, w (s'.threads i) = W s.shared + ∑ i, w (s.threads i) := by
  obtain ⟨i, a, t', mem', -, hstep, rfl⟩ | ⟨k, mem', -, hk, rfl⟩ := T.machine_step_cases h
  · exact sum_exchange s.threads i (hthread i _ _ a t' mem' hI hstep)
  · rw [henv _ _ k mem' hI hk]

/-- By how much a step of one thread lets a total grow. -/
def growth (W : μ → ℤ) (w : τ → ℤ) (t t' : τ) (mem mem' : μ) : ℤ := (W mem' + w t') - (W mem + w t)

/-- A step of thread `i` changes a total by what it changes in the memory and in thread `i`. -/
theorem total_thread (W : μ → ℤ) (w : τ → ℤ) (s : State ι τ μ) (i : ι) (t' : τ) (μ' : μ) :
    total W w ⟨Function.update s.threads i t', μ'⟩
      = total W w s + growth W w (s.threads i) t' s.shared μ' := by
  simp only [total, growth, sum_update]
  ring

section Drift

variable {W : μ → ℤ} {w : τ → ℤ} {L : τ → μ → ε → Prop} {C : State ι τ μ → Event ι ε κ → Prop}

omit [DecidableEq ι] [Fintype ι] in
/-- A step that moves neither part of a total, and misses nothing. -/
theorem growth_silent {t t' : τ} {mem mem' : μ} {P : Prop} (hW : W mem' = W mem) (hw : w t' = w t)
    (hP : P) : 0 ≤ growth W w t t' mem mem' ∧ (growth W w t t' mem mem' = 0 ↔ P) := by
  have hzero : growth W w t t' mem mem' = 0 := by
    rw [growth, hW, hw, sub_self]
  exact ⟨hzero.ge, iff_of_true hzero hP⟩

/-- A total that no step of a thread lets shrink and that grows exactly at the steps that miss `L`, one
step of the interleaving. -/
theorem total_step
    (hthread : ∀ i t mem a t' mem', T.step i t mem a = some (t', mem') →
      0 ≤ growth W w t t' mem mem' ∧ (growth W w t t' mem mem' = 0 ↔ L t mem a))
    (henv : ∀ th mem k mem', T.env th mem k = some mem' → W mem' = W mem)
    (hCthread : ∀ s i a, C s (.thread i a) ↔ L (s.threads i) s.shared a) (hCenv : ∀ s k, C s (.env k))
    {s s' : State ι τ μ} {e : Event ι ε κ} (h : T.machine.step s e = some s') :
    total W w s ≤ total W w s' ∧ (total W w s' = total W w s ↔ C s e) := by
  obtain ⟨i, a, t', mem', rfl, hstep, rfl⟩ | ⟨k, mem', rfl, hk, rfl⟩ := T.machine_step_cases h
  · obtain ⟨hnonneg, hiff⟩ := hthread i _ _ a t' mem' hstep
    rw [total_thread, hCthread, ← hiff]
    omega
  · have heq : total W w ⟨s.threads, mem'⟩ = total W w s := by
      simp only [total, henv _ _ k mem' hk]
    exact ⟨heq.ge, iff_of_true heq (hCenv s k)⟩

/-- The same over a whole interleaving: the total is unchanged exactly when every step meets `C`. -/
theorem total_run
    (hthread : ∀ i t mem a t' mem', T.step i t mem a = some (t', mem') →
      0 ≤ growth W w t t' mem mem' ∧ (growth W w t t' mem mem' = 0 ↔ L t mem a))
    (henv : ∀ th mem k mem', T.env th mem k = some mem' → W mem' = W mem)
    (hCthread : ∀ s i a, C s (.thread i a) ↔ L (s.threads i) s.shared a) (hCenv : ∀ s k, C s (.env k))
    {s s' : State ι τ μ} {es : List (Event ι ε κ)} (h : T.machine.run s es = some s') :
    total W w s ≤ total W w s' ∧ (total W w s' = total W w s ↔ T.machine.Meets C s es) := by
  have hstep := fun s e s' (hs : T.machine.step s e = some s') =>
    T.total_step hthread henv hCthread hCenv hs
  constructor
  · exact T.machine.drift_le_run (I := fun _ => True) (fun _ _ _ _ _ => trivial)
      (fun s e s' _ hs => (hstep s e s' hs).1) trivial h
  · refine T.machine.drift_eq_iff_meets (I := fun _ => True) (fun _ _ _ _ _ => trivial)
      (fun s e s' _ hs => (hstep s e s' hs).2.mpr) ?_ trivial h
    intro s e s' _ hs hC
    obtain ⟨hle, hiff⟩ := hstep s e s' hs
    exact hle.lt_of_ne fun heq => hC (hiff.mp heq.symm)

end Drift

end Total

/-! ### Check, then act

Each thread looks at a shared counter `W`, reserves up to what a cap leaves, and adds what it
reserved later; meanwhile others do the same.  `w` is what a thread has reserved and not yet added,
never more than `b`. -/

section Reservation

variable [Fintype ι] {W : μ → ℕ} {w : τ → ℕ} {cap b : ℕ}

/-- Counter and reservations together exceed the cap by at most one full reservation of every
thread but one. -/
structure Reserved (W : μ → ℕ) (w : τ → ℕ) (cap b : ℕ) (s : State ι τ μ) : Prop where
  each : ∀ i, w (s.threads i) ≤ b
  sum : W s.shared + ∑ i, w (s.threads i) ≤ cap + (Fintype.card ι - 1) * b

/-- What the other threads have reserved. -/
theorem sum_erase_reserved_le {s : State ι τ μ} (h : ∀ i, w (s.threads i) ≤ b) (i : ι) :
    ∑ j ∈ Finset.univ.erase i, w (s.threads j) ≤ (Fintype.card ι - 1) * b := by
  have hsum := Finset.sum_le_card_nsmul (Finset.univ.erase i) (fun j => w (s.threads j)) b
    fun j _ => h j
  rwa [Finset.card_erase_of_mem (Finset.mem_univ i), Finset.card_univ, smul_eq_mul] at hsum

/-- The bound is kept when a step of a thread moves its reservation into the counter or drops it, or
reserves no more than the cap leaves. -/
theorem reserved_step
    (hthread : ∀ i t mem a t' mem', w t ≤ b → T.step i t mem a = some (t', mem') →
      w t' ≤ b ∧ (W mem' + w t' ≤ W mem + w t ∨ W mem' + w t' ≤ cap))
    (henv : ∀ th mem k mem', T.env th mem k = some mem' → W mem' = W mem)
    (s : State ι τ μ) (e : Event ι ε κ) (s' : State ι τ μ) (hs : Reserved W w cap b s)
    (h : T.machine.step s e = some s') : Reserved W w cap b s' := by
  obtain ⟨i, a, t', mem', -, hstep, rfl⟩ | ⟨k, mem', -, hk, rfl⟩ := T.machine_step_cases h
  · obtain ⟨hb, hcases⟩ := hthread i _ _ a t' mem' (hs.each i) hstep
    refine ⟨(Function.forall_update_iff s.threads fun _ t => w t ≤ b).mpr
      ⟨hb, fun j _ => hs.each j⟩, ?_⟩
    have hupdate := sum_update_add s.threads w i t'
    have hsum := hs.sum
    rcases hcases with hless | hcap
    · simp only
      omega
    · have hsplit := Finset.add_sum_erase Finset.univ (fun j => w (s.threads j)) (Finset.mem_univ i)
      have hrest := sum_erase_reserved_le hs.each i
      simp only at hsplit ⊢
      omega
  · refine ⟨hs.each, ?_⟩
    rw [henv _ _ k mem' hk]
    exact hs.sum

end Reservation

end Threads
