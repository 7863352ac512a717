import Dnsmark.Xdp.CorePinning

/-!
# Sharing out the cores of a node

`do_start_xdp_receive_path` gives one core to each queue and stops at the first draw that the core pool
cannot serve.  NICs on one NUMA node draw from one cursor, in whatever order their stacks run, so the order
decides which of them gets the cores.

`worker_counts_iff` says what the order can decide and what it cannot.  The number of workers of a node is
fixed: one for each queue of its NICs, or one for each of its cores if there are fewer (`Drawing` is kept
by every step of every interleaving).  Any way of sharing them out is the outcome of some order, also the
one that leaves a NIC with no worker: first every stack draws its share, then every stack finds the pool
spent (`exists_run_drawing`, `exists_run_leaving`).
-/

namespace Dnsmark.Xdp.Startup

section Shares

variable {ι : Type} [Fintype ι] (host : Host ι)

/-- The NICs that draw from the cursor of NIC `i`. -/
def Host.peers (i : ι) : Finset ι :=
  Finset.univ.filter fun j => (host.nics j).nodeIdx = (host.nics i).nodeIdx

/-- Worker counts that use up the queues or the cores of each node. -/
structure Host.SharesOut (n : ι → ℕ) : Prop where
  le : ∀ i, n i ≤ host.queueCount i
  sum : ∀ i, ∑ j ∈ host.peers i, n j
    = min (∑ j ∈ host.peers i, host.queueCount j) (host.corePool i).length

/-- NICs that draw from one cursor are on one node: all nodes are known and below `MAX_NUMA_NODES`, or none
is known. -/
def Host.NodesKnown {ι : Type} (host : Host ι) : Prop :=
  ∀ i j, (host.nics i).nodeIdx = (host.nics j).nodeIdx → (host.nics i).node = (host.nics j).node

variable {host}

theorem Host.mem_peers {i j : ι} : j ∈ host.peers i ↔ (host.nics j).nodeIdx = (host.nics i).nodeIdx := by
  simp [Host.peers]

omit [Fintype ι] in
theorem Host.NodesKnown.corePool_eq (h : host.NodesKnown) {i j : ι}
    (hidx : (host.nics i).nodeIdx = (host.nics j).nodeIdx) : host.corePool i = host.corePool j := by
  rw [Host.corePool, Host.corePool, h i j hidx]

end Shares

/-! ## What a stack has drawn -/

namespace Statics

variable (st : Statics)

theorem fetchAdd_self (k : Fin maxNumaNodes) :
    (st.fetchAdd k).nodeCoreIdx k = st.nodeCoreIdx k + 1 := Function.update_self ..

theorem fetchAdd_of_ne {k k' : Fin maxNumaNodes} (h : k' ≠ k) :
    (st.fetchAdd k).nodeCoreIdx k' = st.nodeCoreIdx k' := Function.update_of_ne h ..

theorem cursor_le_fetchAdd (k k' : Fin maxNumaNodes) :
    st.nodeCoreIdx k' ≤ (st.fetchAdd k).nodeCoreIdx k' := by
  by_cases hk : k' = k
  · rw [hk, fetchAdd_self]
    exact Nat.le_succ _
  · exact (st.fetchAdd_of_ne hk).ge

end Statics

/-- How many workers a stack has where it is, with `queues` queues, a pool of `cores` cores and a cursor at
`cursor`.  A stack that stops early has drawn behind the pool. -/
def Stack.Progress (queues cores cursor : ℕ) (t : Stack) : Prop :=
  match t.pc with
  | .configuring | .entering => t.workers.length = 0
  | .queue q => t.workers.length = q ∧ q ≤ queues
  | .reserved q _ => t.workers.length = q ∧ q < queues
  | .leaving => t.workers.length ≤ queues ∧ cores < cursor
  | .started => t.workers.length ≤ queues ∧ (t.workers.length = queues ∨ cores < cursor)
  | .failed => True

namespace Stack

variable {queues cores cursor cursor' : ℕ} (t : Stack)

variable {t} in
theorem Progress.mono (h : t.Progress queues cores cursor) (hle : cursor ≤ cursor') :
    t.Progress queues cores cursor' := by
  unfold Progress at h ⊢
  split at h
  · exact h
  · exact h
  · exact h
  · exact h
  · exact ⟨h.1, h.2.trans_le hle⟩
  · exact ⟨h.1, h.2.imp_right fun hlt => hlt.trans_le hle⟩
  · trivial

theorem progress_of_started (hpc : t.pc = .started) : t.Progress queues cores cursor ↔
    t.workers.length ≤ queues ∧ (t.workers.length = queues ∨ cores < cursor) := by
  rw [Progress, hpc]

theorem held_of_not_reserved (hpc : ∀ q gi, t.pc ≠ .reserved q gi) : t.held = t.workers := by
  unfold held
  split
  · rename_i q gi heq
    exact absurd heq (hpc q gi)
  · rfl

theorem held_of_started (hpc : t.pc = .started) : t.held = t.workers :=
  t.held_of_not_reserved fun _ _ heq => by simp [hpc] at heq

end Stack

section Step

variable {ι : Type} {host : Host ι} {i : ι} {t t' : Stack} {st st' : Statics} {e : Event}

/-- The cursors only move forward. -/
theorem Stepped.cursor_le (h : Stepped host i t st e t' st') (k : Fin maxNumaNodes) :
    st.nodeCoreIdx k ≤ st'.nodeCoreIdx k := by
  obtain ⟨hidx, -⟩ | ⟨hidx, -⟩ := h.held
  · exact (congrFun hidx k).ge
  · rw [hidx]
    exact st.cursor_le_fetchAdd _ k

/-- Only the cursor of the stack's own node moves. -/
theorem Stepped.cursor_eq (h : Stepped host i t st e t' st') {k : Fin maxNumaNodes}
    (hk : k ≠ (host.nics i).nodeIdx) : st'.nodeCoreIdx k = st.nodeCoreIdx k := by
  obtain ⟨hidx, -⟩ | ⟨hidx, -⟩ := h.held
  · exact congrFun hidx k
  · exact (congrFun hidx k).trans (st.fetchAdd_of_ne hk)

theorem Stepped.progress (h : Stepped host i t st e t' st')
    (ht : t.Progress (host.queueCount i) (host.corePool i).length
      (st.nodeCoreIdx (host.nics i).nodeIdx)) :
    t'.Progress (host.queueCount i) (host.corePool i).length
      (st'.nodeCoreIdx (host.nics i).nodeIdx) := by
  cases h with
  | configured hpc =>
    rw [Stack.Progress, hpc] at ht
    exact ht
  | entered hpc =>
    rw [Stack.Progress, hpc] at ht
    exact ⟨ht, Nat.zero_le _⟩
  | spent q hpc hq hspent =>
    rw [Stack.Progress, hpc] at ht
    refine ⟨ht.1.trans_le hq.le, ?_⟩
    rw [Statics.fetchAdd_self]
    exact Nat.lt_succ_of_le hspent
  | reserved q hpc hq _ =>
    rw [Stack.Progress, hpc] at ht
    exact ⟨ht.1, hq⟩
  | spawned q gi hpc =>
    rw [Stack.Progress, hpc] at ht
    rw [Stack.Progress, Stack.spawn_pc, Stack.spawn_workers]
    exact ⟨congrArg (· + 1) ht.1, ht.2⟩
  | failed _ _ _ _ _ => trivial
  | left hpc =>
    obtain hpc | hpc := hpc
    · rw [Stack.Progress, hpc] at ht
      refine ⟨ht.1, .inr (ht.2.trans_le (le_of_eq ?_))⟩
      split <;> rfl
    · rw [Stack.Progress, hpc] at ht
      exact ⟨ht.1.le, .inl ht.1⟩
  | ran socket hpc _ =>
    have hpc' := (t.runTask_pc host.xdpTx st socket).trans hpc
    have hheld := t.held_runTask host.xdpTx st socket
    rw [t.held_of_started hpc, Stack.held_of_started _ hpc'] at hheld
    rw [t.progress_of_started hpc] at ht
    rwa [Stack.progress_of_started _ hpc', hheld]

/-- A step that does not fail gives the stack a slot exactly when its cursor moves within the pool. -/
theorem Stepped.length_held (h : Stepped host i t st e t' st') (hok : t'.pc ≠ .failed) :
    t'.held.length + min (st.nodeCoreIdx (host.nics i).nodeIdx) (host.corePool i).length
      = t.held.length + min (st'.nodeCoreIdx (host.nics i).nodeIdx) (host.corePool i).length := by
  cases h with
  | configured hpc =>
    rw [t.held_of_not_reserved (by simp [hpc]), Stack.held_of_not_reserved _ (by simp)]
    split <;> rfl
  | entered hpc =>
    rw [t.held_of_not_reserved (by simp [hpc]), Stack.held_of_not_reserved _ (by simp)]
  | spent q hpc hq hspent =>
    rw [t.held_of_not_reserved (by simp [hpc]), Stack.held_of_not_reserved _ (by simp),
      Statics.fetchAdd_self, min_eq_right hspent, min_eq_right (Nat.le_succ_of_le hspent)]
  | reserved q hpc hq hroom =>
    rw [t.held_of_not_reserved (by simp [hpc]), Stack.held_of_reserved _ rfl, Statics.fetchAdd_self,
      min_eq_left hroom.le, min_eq_left hroom]
    exact Nat.succ_add_eq_add_succ ..
  | spawned q gi hpc =>
    rw [t.held_spawn, t.held_of_reserved hpc, Stack.raise_nodeCoreIdx]
  | failed _ _ _ _ _ => exact absurd rfl hok
  | left hpc =>
    have hheld : t.held = t.workers := by
      apply t.held_of_not_reserved
      obtain hpc | hpc := hpc <;> simp [hpc]
    rw [hheld, Stack.held_of_started _ rfl]
    split <;> rfl
  | ran socket hpc _ => rw [t.held_runTask]

end Step

/-! ## What all of them have drawn -/

section Run

variable {ι : Type} [Fintype ι] {host : Host ι}

/-- As long as no stack has failed, each cursor has given one slot for each draw within the pool. -/
structure Drawing (host : Host ι) (s : Threads.State ι Stack Statics) : Prop where
  progress : ∀ i, (s.threads i).Progress (host.queueCount i) (host.corePool i).length
    (s.shared.nodeCoreIdx (host.nics i).nodeIdx)
  sum : ∀ i, ∑ j ∈ host.peers i, (s.threads j).held.length
    = min (s.shared.nodeCoreIdx (host.nics i).nodeIdx) (host.corePool i).length

theorem drawing_start (host : Host ι) : Drawing host (start ι) := by
  refine ⟨fun i => rfl, fun i => ?_⟩
  simp [start, Stack.held]

variable [DecidableEq ι]

/-- What every step keeps. -/
theorem Drawing.step (hnodes : host.NodesKnown) {s s' : Threads.State ι Stack Statics}
    {e : Threads.Event ι Event Empty} (hs : Drawing host s)
    (h : (stackThreads host).machine.step s e = some s') (hok : ∀ i, (s'.threads i).pc ≠ .failed) :
    Drawing host s' := by
  obtain ⟨i, a, t', st', rfl, hstep, rfl⟩ := machine_stepped h
  have hok' : t'.pc ≠ .failed := by simpa using hok i
  constructor
  · apply (Function.forall_update_iff s.threads fun j t => t.Progress (host.queueCount j)
      (host.corePool j).length (st'.nodeCoreIdx (host.nics j).nodeIdx)).mpr
    exact ⟨hstep.progress (hs.progress i), fun j _ => (hs.progress j).mono (hstep.cursor_le _)⟩
  · intro j
    have hheld : (fun k => (Function.update s.threads i t' k).held.length)
        = Function.update (fun k => (s.threads k).held.length) i t'.held.length :=
      funext fun k => Function.apply_update (fun _ t => Stack.held t |>.length) s.threads i t' k
    simp only [hheld]
    by_cases hi : i ∈ host.peers j
    · -- the stack that moved is one of them
      have hidx := Host.mem_peers.mp hi
      have hpool := congrArg List.length (hnodes.corePool_eq hidx)
      have hlength := hstep.length_held hok'
      have hsum := hs.sum j
      rw [← Finset.add_sum_erase _ _ hi] at hsum
      rw [hidx, hpool] at hlength
      rw [Finset.sum_update_of_mem hi, Finset.sdiff_singleton_eq_erase]
      omega
    · have hidx : (host.nics j).nodeIdx ≠ (host.nics i).nodeIdx :=
        fun heq => hi (Host.mem_peers.mpr heq.symm)
      rw [Finset.sum_update_of_notMem hi, hs.sum j, hstep.cursor_eq hidx]

omit [Fintype ι] in
/-- A stack that failed stays failed. -/
theorem not_failed_of_step {s s' : Threads.State ι Stack Statics} {e : Threads.Event ι Event Empty}
    (h : (stackThreads host).machine.step s e = some s') (hok : ∀ i, (s'.threads i).pc ≠ .failed) :
    ∀ i, (s.threads i).pc ≠ .failed := by
  obtain ⟨i, a, t', st', rfl, hstep, rfl⟩ := machine_stepped h
  intro j
  by_cases hj : j = i
  · subst hj
    exact hstep.not_failed
  · have := hok j
    simpa [hj] using this

theorem Drawing.of_run (hnodes : host.NodesKnown) {s : Threads.State ι Stack Statics}
    {es : List (Threads.Event ι Event Empty)}
    (h : (stackThreads host).machine.run (start ι) es = some s)
    (hok : ∀ i, (s.threads i).pc ≠ .failed) : Drawing host s := by
  refine (stackThreads host).machine.run_invariant
    (I := fun s => (∀ i, (s.threads i).pc ≠ .failed) → Drawing host s) ?_
    (fun _ => drawing_start host) h hok
  intro s e s' hs hstep hok'
  exact (hs (not_failed_of_step hstep hok')).step hnodes hstep hok'

omit [DecidableEq ι] in
/-- Once all stacks have started, what they have uses up the queues or the cores. -/
theorem Drawing.sharesOut (hnodes : host.NodesKnown) {s : Threads.State ι Stack Statics}
    (hs : Drawing host s) (hstarted : ∀ i, (s.threads i).pc = .started) :
    host.SharesOut fun i => (s.threads i).workers.length := by
  have hprogress := fun i => ((s.threads i).progress_of_started (hstarted i)).mp (hs.progress i)
  refine ⟨fun i => (hprogress i).1, fun i => ?_⟩
  have hsum := hs.sum i
  simp only [Stack.held_of_started _ (hstarted _)] at hsum
  have hle : ∑ j ∈ host.peers i, (s.threads j).workers.length
      ≤ ∑ j ∈ host.peers i, host.queueCount j := Finset.sum_le_sum fun j _ => (hprogress j).1
  by_cases hall : ∀ j ∈ host.peers i, (s.threads j).workers.length = host.queueCount j
  · rw [Finset.sum_congr rfl hall] at hsum ⊢
    exact (min_eq_left (hsum.trans_le (min_le_right ..))).symm
  · -- a stack that stopped early found the pool spent
    push Not at hall
    obtain ⟨j, hj, hne⟩ := hall
    have hidx := Host.mem_peers.mp hj
    have hspent := (hprogress j).2.resolve_left hne
    rw [hidx, hnodes.corePool_eq hidx] at hspent
    omega

end Run

/-! ## Every way of sharing out comes about -/

section Alone

variable {ι : Type} {host : Host ι} {i : ι} {t : Stack} {q : ℕ}

theorem step_reserve_spent (st : Statics) (hpc : t.pc = .queue q) (hq : q < host.queueCount i)
    (hspent : (host.corePool i).length ≤ st.nodeCoreIdx (host.nics i).nodeIdx) :
    (stackThreads host).step i t st .reserve =
      some ({ t with pc := .leaving }, st.fetchAdd (host.nics i).nodeIdx) := by
  simp only [stackThreads, Stack.step, hpc, hq, if_true]
  rw [if_pos hspent]

theorem step_leave (st : Statics) (hpc : t.pc = .leaving ∨ t.pc = .queue (host.queueCount i)) :
    (stackThreads host).step i t st .leave = some ({ t with pc := .started },
      if 0 < t.txStates then { st with xdpTxStates := true } else st) := if_pos hpc

/-- A stack that moves alone goes from `p` to `p'`, with `m` more workers and its cursor `m` further. -/
structure Drew (host : Host ι) (i : ι) (m : ℕ) (p p' : Stack × Statics) : Prop where
  run : ∃ es, ((stackThreads host).alone i).run p es = some p'
  workers : p'.1.workers.length = p.1.workers.length + m
  nodeCoreIdx : p'.2.nodeCoreIdx = Function.update p.2.nodeCoreIdx (host.nics i).nodeIdx
    (p.2.nodeCoreIdx (host.nics i).nodeIdx + m)

theorem Drew.trans {m n : ℕ} {p p' p'' : Stack × Statics} (h : Drew host i m p p')
    (h' : Drew host i n p' p'') : Drew host i (m + n) p p'' := by
  obtain ⟨es, hrun⟩ := h.run
  obtain ⟨es', hrun'⟩ := h'.run
  refine ⟨⟨_, ((stackThreads host).alone i).run_trans hrun hrun'⟩, ?_, ?_⟩
  · rw [h'.workers, h.workers, Nat.add_assoc]
  · rw [h'.nodeCoreIdx, h.nodeCoreIdx, Function.update_idem, Function.update_self, Nat.add_assoc]

variable (host i)

/-- The way into the queue loop. -/
theorem exists_drew_enter {p : Stack × Statics} (hpc : p.1.pc = .configuring) :
    ∃ p', Drew host i 0 p p' ∧ p'.1.pc = .queue 0 := by
  have hconfigure := (stackThreads host).alone_single (i := i) (step_configure p.2 hpc)
  refine ⟨_, ⟨⟨_, ((stackThreads host).alone i).run_trans hconfigure
    ((stackThreads host).alone_single (step_enter _ rfl))⟩, rfl, ?_⟩, rfl⟩
  rw [Nat.add_zero, Function.update_eq_self]
  split <;> rfl

/-- One turn of the loop. -/
theorem exists_drew_queue {p : Stack × Statics} (hpc : p.1.pc = .queue q) (hq : q < host.queueCount i)
    (hroom : p.2.nodeCoreIdx (host.nics i).nodeIdx < (host.corePool i).length) :
    ∃ p', Drew host i 1 p p' ∧ p'.1.pc = .queue (q + 1) := by
  have hreserve := (stackThreads host).alone_single (step_reserve p.2 hpc hq hroom)
  refine ⟨_, ⟨⟨_, ((stackThreads host).alone i).run_trans hreserve
    ((stackThreads host).alone_single (step_spawn _ rfl))⟩, ?_, ?_⟩, Stack.spawn_pc ..⟩
  · rw [Stack.spawn_workers]
    rfl
  · rw [Stack.raise_nodeCoreIdx]
    rfl

/-- The next `m` turns of the loop. -/
theorem exists_drew_queues (m : ℕ) {p : Stack × Statics} (hpc : p.1.pc = .queue q)
    (hq : q + m ≤ host.queueCount i)
    (hroom : p.2.nodeCoreIdx (host.nics i).nodeIdx + m ≤ (host.corePool i).length) :
    ∃ p', Drew host i m p p' ∧ p'.1.pc = .queue (q + m) := by
  induction m generalizing p q with
  | zero => exact ⟨p, ⟨⟨[], rfl⟩, rfl, (Function.update_eq_self ..).symm⟩, hpc⟩
  | succ m ih =>
    obtain ⟨p', hone, hpc'⟩ := exists_drew_queue host i hpc (by omega) (by omega)
    have hcursor := congrFun hone.nodeCoreIdx (host.nics i).nodeIdx
    rw [Function.update_self] at hcursor
    obtain ⟨p'', hrest, hpc''⟩ := ih hpc' (by omega) (by omega)
    refine ⟨p'', Nat.add_comm 1 m ▸ hone.trans hrest, ?_⟩
    rw [hpc'', Nat.add_right_comm, Nat.add_assoc]

/-- From its start, a stack that moves alone draws for its first `m` queues. -/
theorem exists_drew_first (m : ℕ) {p : Stack × Statics} (hpc : p.1.pc = .configuring)
    (hm : m ≤ host.queueCount i)
    (hroom : p.2.nodeCoreIdx (host.nics i).nodeIdx + m ≤ (host.corePool i).length) :
    ∃ p', Drew host i m p p' ∧ p'.1.pc = .queue m := by
  obtain ⟨p', henter, hpc'⟩ := exists_drew_enter host i hpc
  have hcursor := congrFun henter.nodeCoreIdx (host.nics i).nodeIdx
  rw [Function.update_self] at hcursor
  obtain ⟨p'', hrest, hpc''⟩ := exists_drew_queues host i m hpc' (by omega) (by omega)
  exact ⟨p'', Nat.zero_add m ▸ henter.trans hrest, by rw [hpc'', Nat.zero_add]⟩

/-- A stack at the head of its loop leaves it if its queues are done or the pool is spent. -/
theorem exists_run_last {st : Statics} (hpc : t.pc = .queue q) (hq : q ≤ host.queueCount i)
    (hspent : q < host.queueCount i →
      (host.corePool i).length ≤ st.nodeCoreIdx (host.nics i).nodeIdx) :
    ∃ es t' st', ((stackThreads host).alone i).run (t, st) es = some (t', st') ∧
      t'.pc = .started ∧ t'.workers = t.workers ∧
      ∀ k, st.nodeCoreIdx k ≤ st'.nodeCoreIdx k := by
  by_cases hlt : q < host.queueCount i
  · have hreserve := (stackThreads host).alone_single
      (step_reserve_spent st hpc hlt (hspent hlt))
    have hleave := (stackThreads host).alone_single (i := i)
      (step_leave (t := { t with pc := .leaving }) (st.fetchAdd (host.nics i).nodeIdx) (.inl rfl))
    refine ⟨_, _, _, ((stackThreads host).alone i).run_trans hreserve hleave, rfl, rfl, fun k => ?_⟩
    refine (st.cursor_le_fetchAdd (host.nics i).nodeIdx k).trans (le_of_eq ?_)
    split <;> rfl
  · obtain rfl : q = host.queueCount i := by omega
    have hleave := (stackThreads host).alone_single (i := i) (step_leave st (.inr hpc))
    refine ⟨_, _, _, hleave, rfl, rfl, fun k => le_of_eq ?_⟩
    split <;> rfl

end Alone

section Outcome

variable {ι : Type} [Fintype ι] [DecidableEq ι] {host : Host ι} {n : ι → ℕ}

/-- Each cursor stands at what the stacks of `done` are to draw from it. -/
def Host.AtShares (host : Host ι) (n : ι → ℕ) (done : Finset ι) (st : Statics) : Prop :=
  ∀ i, st.nodeCoreIdx (host.nics i).nodeIdx = ∑ j ∈ host.peers i ∩ done, n j

theorem Host.AtShares.sum_insert {done : Finset ι} {st : Statics} (h : host.AtShares n done st) {i j : ι}
    (hi : i ∉ done) (hj : i ∈ host.peers j) :
    ∑ k ∈ host.peers j ∩ insert i done, n k = st.nodeCoreIdx (host.nics j).nodeIdx + n i := by
  rw [Finset.inter_insert_of_mem hj, Finset.sum_insert fun hmem => hi (Finset.mem_inter.mp hmem).2, h j,
    Nat.add_comm]

/-- A stack's turn to draw what it is to have. -/
theorem exists_run_share (hn : host.SharesOut n) {i : ι} {done : Finset ι} {st : Statics}
    (hi : i ∉ done) (hst : host.AtShares n done st) :
    ∃ es t' st', ((stackThreads host).alone i).run ((start ι).threads i, st) es = some (t', st') ∧
      host.AtShares n (insert i done) st' ∧ t'.pc = .queue (n i) ∧ t'.workers.length = n i := by
  have hroom : st.nodeCoreIdx (host.nics i).nodeIdx + n i ≤ (host.corePool i).length := by
    rw [← hst.sum_insert hi (Host.mem_peers.mpr rfl)]
    calc ∑ k ∈ host.peers i ∩ insert i done, n k
        ≤ ∑ k ∈ host.peers i, n k := Finset.sum_le_sum_of_subset Finset.inter_subset_left
      _ ≤ (host.corePool i).length := (hn.sum i).trans_le (min_le_right ..)
  obtain ⟨⟨t', st'⟩, hdrew, hpc⟩ :=
    exists_drew_first host i (n i) (p := (({} : Stack), st)) rfl (hn.le i) hroom
  obtain ⟨es, hrun⟩ := hdrew.run
  refine ⟨es, t', st', hrun, fun j => ?_, hpc, by simpa using hdrew.workers⟩
  have hidx := congrFun hdrew.nodeCoreIdx (host.nics j).nodeIdx
  by_cases hj : i ∈ host.peers j
  · rw [hst.sum_insert hi hj, ← Host.mem_peers.mp hj]
    rw [← Host.mem_peers.mp hj, Function.update_self] at hidx
    exact hidx
  · rw [Finset.inter_insert_of_notMem hj, ← hst j]
    rw [Function.update_of_ne fun h => hj (Host.mem_peers.mpr h.symm)] at hidx
    exact hidx

/-- The stacks draw what they are to have, one after the other. -/
theorem exists_run_drawing (hn : host.SharesOut n) :
    ∃ es s, (stackThreads host).machine.run (start ι) es = some s ∧
      host.AtShares n Finset.univ s.shared ∧
      ∀ i, (s.threads i).pc = .queue (n i) ∧ (s.threads i).workers.length = n i :=
  (stackThreads host).exists_run_in_turn (s := start ι) (I := host.AtShares n)
    (J := fun i t => t.pc = .queue (n i) ∧ t.workers.length = n i) (fun i => by simp [start])
    fun _ _ _ hi hst => exists_run_share hn hi hst

/-- Then they leave the loop: their queues are done, or the pool is spent. -/
theorem exists_run_leaving (hn : host.SharesOut n) {s : Threads.State ι Stack Statics}
    (hidx : host.AtShares n Finset.univ s.shared)
    (hs : ∀ i, (s.threads i).pc = .queue (n i) ∧ (s.threads i).workers.length = n i) :
    ∃ es s', (stackThreads host).machine.run s es = some s' ∧
      ∀ i, (s'.threads i).pc = .started ∧ (s'.threads i).workers.length = n i := by
  have hspent : ∀ i, n i < host.queueCount i →
      (host.corePool i).length ≤ s.shared.nodeCoreIdx (host.nics i).nodeIdx := by
    intro i hlt
    have hsum : ∑ j ∈ host.peers i, n j < ∑ j ∈ host.peers i, host.queueCount j :=
      Finset.sum_lt_sum (fun j _ => hn.le j) ⟨i, Host.mem_peers.mpr rfl, hlt⟩
    have hmin := hn.sum i
    rw [hidx i, Finset.inter_univ]
    omega
  -- the cursors only move on, so the pool stays spent
  obtain ⟨es, s', hrun, -, hs'⟩ := (stackThreads host).exists_run_in_turn (s := s)
    (I := fun _ st => ∀ k, s.shared.nodeCoreIdx k ≤ st.nodeCoreIdx k)
    (J := fun i t => t.pc = .started ∧ t.workers.length = n i) (fun _ => le_refl _)
    (fun i _ st _ hst => by
      obtain ⟨es, t', st', hrun, hpc, hworkers, hle⟩ := exists_run_last host i (hs i).1 (hn.le i)
        fun hlt => (hspent i hlt).trans (hst _)
      exact ⟨es, t', st', hrun, fun k => (hst k).trans (hle k), hpc, by rw [hworkers, (hs i).2]⟩)
  exact ⟨es, s', hrun, hs'⟩

/-- The worker counts that a start-up without failures can end with are the ways of sharing out the cores
of each node among the queues of its NICs. -/
theorem worker_counts_iff (host : Host ι) (hnodes : host.NodesKnown) (n : ι → ℕ) :
    (∃ es s, (stackThreads host).machine.run (start ι) es = some s ∧
      ∀ i, (s.threads i).pc = .started ∧ (s.threads i).workers.length = n i) ↔ host.SharesOut n := by
  constructor
  · rintro ⟨es, s, hrun, hs⟩
    have hok : ∀ i, (s.threads i).pc ≠ .failed := fun i => by simp [(hs i).1]
    have hshares := (Drawing.of_run hnodes hrun hok).sharesOut hnodes fun i => (hs i).1
    rwa [show (fun i => (s.threads i).workers.length) = n from funext fun i => (hs i).2] at hshares
  · intro hn
    obtain ⟨es, s, hrun, hidx, hs⟩ := exists_run_drawing hn
    obtain ⟨es', s', hrun', hs'⟩ := exists_run_leaving hn hidx hs
    exact ⟨es ++ es', s', (stackThreads host).machine.run_trans hrun hrun', hs'⟩

end Outcome

theorem nodup_threeCores : [0, 1, 2].Nodup := by decide

/-- Three cores on one node, and two NICs with three queues each on the same node. -/
def crowdedNode : Host (Fin 2) where
  topo := ⟨[0, 1, 2], nodup_threeCores, fun _ => some 0⟩
  nics i := if i = 0 then ⟨"eth0", "eth0", some 0, true, 1⟩ else ⟨"eth1", "eth1", some 0, true, 1⟩
  hwQueueCount _ := 3
  xdpTx := true

/-- The cores can all go to the first NIC, and never does each NIC get two. -/
theorem worker_counts_crowdedNode :
    crowdedNode.NodesKnown ∧
      (∃ es s, (stackThreads crowdedNode).machine.run (start (Fin 2)) es = some s ∧
        ∀ i, (s.threads i).pc = .started ∧ (s.threads i).workers.length = ![3, 0] i) ∧
      ¬ ∃ es s, (stackThreads crowdedNode).machine.run (start (Fin 2)) es = some s ∧
        ∀ i, (s.threads i).pc = .started ∧ (s.threads i).workers.length = ![2, 2] i := by
  have hnodes : crowdedNode.NodesKnown := by unfold Host.NodesKnown; decide
  refine ⟨hnodes, (worker_counts_iff crowdedNode hnodes ![3, 0]).mpr ⟨by decide, by decide⟩, ?_⟩
  rw [worker_counts_iff crowdedNode hnodes ![2, 2]]
  exact fun h => absurd (h.sum 0) (by decide)

end Dnsmark.Xdp.Startup
