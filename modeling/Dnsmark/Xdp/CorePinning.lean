import Dnsmark.Common.Tickets
import Dnsmark.Xdp.Startup

/-!
# One core, one worker

The stacks draw slots from the cursor of their NIC's node and take the core at that slot of their core
pool.  NICs of one node share the cursor and the pool, and NICs of two nodes have disjoint pools.  A NIC
whose node is not known has all cores for a pool and draws from the cursor of node 0.

So the cores are distinct (`Tickets.Issued`, through `slot_eq`) unless a NIC without a node meets one with
a node: the two walk over different lists, on different cursors or on the same one.
-/

namespace Dnsmark.Xdp.Startup

/-- The slots a stack has: those of its workers, and the one it is setting up. -/
def Stack.held (t : Stack) : List ℕ :=
  match t.pc with
  | .reserved _ gi => gi :: t.workers
  | _ => t.workers

/-- `assigned_core` of each worker of stack `i`. -/
def assignedCores {ι : Type} (host : Host ι) (s : Threads.State ι Stack Statics) (i : ι) :
    List (Option ℕ) :=
  (s.threads i).workers.map fun gi => (host.corePool i)[gi]?

/-- No core has two workers. -/
structure CoresDistinct {ι : Type} (host : Host ι) (s : Threads.State ι Stack Statics) : Prop where
  nodup : ∀ i, (assignedCores host s i).Nodup
  disjoint : ∀ i j, i ≠ j → (assignedCores host s i).Disjoint (assignedCores host s j)

/-- Beside a NIC without a node, a NIC's node has no cores, or it is node 0 and its cores are the first
ones. -/
def NodesApart (topo : Topology) (nic nic' : Nic) : Prop :=
  ∀ n, nic.node = none → nic'.node = some n →
    topo.corePool (some n) = [] ∨ n = 0 ∧ topo.corePool (some n) <+: topo.physicalCores

/-! ## Core pools -/

namespace Topology

variable (topo : Topology)

theorem corePool_none : topo.corePool none = topo.physicalCores := rfl

theorem corePool_some (n : ℕ) :
    topo.corePool (some n) = topo.physicalCores.filter fun c => topo.numaNodeForCpu c = some n := by
  simp only [corePool, physicalCoresNumaSorted, Option.isSome_some, if_true, List.filter_append,
    List.filter_filter]
  simp

theorem corePool_sublist (node : Option ℕ) : (topo.corePool node).Sublist topo.physicalCores := by
  cases node with
  | none => exact List.Sublist.refl _
  | some n =>
    rw [corePool_some]
    exact List.filter_sublist

theorem nodup_corePool (node : Option ℕ) : (topo.corePool node).Nodup :=
  topo.nodup.sublist (topo.corePool_sublist node)

end Topology

/-- A list that does not begin with the elements a filter keeps has one of them at a later position than
the filter has it. -/
theorem exists_later_of_not_prefix {α : Type*} {p : α → Bool} {l : List α} (h : ¬ l.filter p <+: l) :
    ∃ (b a : ℕ) (c : α), b < a ∧ l[a]? = some c ∧ (l.filter p)[b]? = some c := by
  induction l with
  | nil => exact absurd (List.prefix_refl _) h
  | cons x l ih =>
    by_cases hx : p x = true
    · rw [List.filter_cons_of_pos hx] at h ⊢
      obtain ⟨b, a, c, hlt, ha, hb⟩ := ih fun hprefix => h ((List.prefix_cons_inj x).mpr hprefix)
      exact ⟨b + 1, a + 1, c, Nat.succ_lt_succ hlt, ha, hb⟩
    · -- the filter's first element stands behind `x`
      rw [List.filter_cons_of_neg hx] at h ⊢
      cases hfilter : l.filter p with
      | nil =>
        rw [hfilter] at h
        exact absurd List.nil_prefix h
      | cons c cs =>
        have hmem : c ∈ l := List.mem_of_mem_filter (p := p) (by simp [hfilter])
        obtain ⟨a, ha⟩ := List.getElem?_of_mem hmem
        exact ⟨0, a + 1, c, Nat.succ_pos a, ha, rfl⟩

/-! ## Slots and cores -/

theorem Nic.nodeIdx_congr {nic nic' : Nic} (h : nic.node = nic'.node) : nic.nodeIdx = nic'.nodeIdx := by
  simp only [Nic.nodeIdx, h]

/-- A core that a NIC without a node and a NIC with one can both be given is on one slot of one cursor. -/
theorem slot_eq_of_none {topo : Topology} {nic nic' : Nic} {n g h c : ℕ}
    (hapart : NodesApart topo nic nic') (hnone : nic.node = none) (hsome : nic'.node = some n)
    (hg : (topo.corePool nic.node)[g]? = some c) (hh : (topo.corePool nic'.node)[h]? = some c) :
    nic.nodeIdx = nic'.nodeIdx ∧ g = h := by
  rw [hnone, topo.corePool_none] at hg
  rw [hsome] at hh
  obtain hnil | ⟨rfl, hprefix⟩ := hapart n hnone hsome
  · rw [hnil] at hh
    cases hh
  · refine ⟨by simp only [Nic.nodeIdx, hnone, hsome, Option.getD_none, Option.getD_some], ?_⟩
    obtain ⟨rest, hrest⟩ := hprefix
    have hh' : topo.physicalCores[h]? = some c := by
      rw [← hrest, List.getElem?_append_left (List.getElem?_eq_some_iff.mp hh).1, hh]
    exact (List.getElem?_inj (List.getElem?_eq_some_iff.mp hg).1 topo.nodup).mp (hg.trans hh'.symm)

/-- A core that two NICs can be given is on one slot of one cursor. -/
theorem slot_eq {topo : Topology} {nic nic' : Nic} {g h c : ℕ} (hapart : NodesApart topo nic nic')
    (hapart' : NodesApart topo nic' nic) (hg : (topo.corePool nic.node)[g]? = some c)
    (hh : (topo.corePool nic'.node)[h]? = some c) : nic.nodeIdx = nic'.nodeIdx ∧ g = h := by
  have hsame : nic.node = nic'.node → nic.nodeIdx = nic'.nodeIdx ∧ g = h := by
    intro hnode
    refine ⟨Nic.nodeIdx_congr hnode, ?_⟩
    rw [← hnode] at hh
    exact (List.getElem?_inj (List.getElem?_eq_some_iff.mp hg).1 (topo.nodup_corePool _)).mp
      (hg.trans hh.symm)
  cases hnode : nic.node with
  | none =>
    cases hnode' : nic'.node with
    | none => exact hsame (hnode.trans hnode'.symm)
    | some n => exact slot_eq_of_none hapart hnode hnode' hg hh
  | some n =>
    cases hnode' : nic'.node with
    | none =>
      obtain ⟨hidx, hslot⟩ := slot_eq_of_none hapart' hnode' hnode hh hg
      exact ⟨hidx.symm, hslot.symm⟩
    | some m =>
      -- the core is on one node
      have hcore : topo.numaNodeForCpu c = some n := by
        rw [hnode, topo.corePool_some] at hg
        simpa using (List.mem_filter.mp (List.mem_of_getElem? hg)).2
      have hcore' : topo.numaNodeForCpu c = some m := by
        rw [hnode', topo.corePool_some] at hh
        simpa using (List.mem_filter.mp (List.mem_of_getElem? hh)).2
      exact hsame (hnode.trans (hcore.symm.trans hcore') |>.trans hnode'.symm)

/-! ## Every interleaving draws tickets -/

namespace Stack

variable (t : Stack)

theorem workers_sublist_held : t.workers.Sublist t.held := by
  unfold held
  split
  · exact List.sublist_cons_self _ _
  · exact List.Sublist.refl _

theorem held_of_reserved {q gi : ℕ} (hpc : t.pc = .reserved q gi) : t.held = gi :: t.workers := by
  rw [held, hpc]

theorem held_spawn (nic : Nic) (q gi : ℕ) : (t.spawn nic q gi).held = gi :: t.workers := by
  rw [held, spawn_pc, spawn_workers]

theorem held_runTask (xdpTx : Bool) (st : Statics) (socket : Bool) :
    (t.runTask xdpTx st socket).held = t.held := by
  unfold runTask
  split
  · rfl
  · split <;> rfl

end Stack

section Step

variable {ι : Type} {host : Host ι} {i : ι} {t t' : Stack} {st st' : Statics} {e : Event}

/-- A step draws from the cursor of the stack's node and keeps the slot if the pool has it, or leaves the
cursors alone; other slots it does not get. -/
theorem Stepped.held (h : Stepped host i t st e t' st') :
    st'.nodeCoreIdx = st.nodeCoreIdx ∧ t'.held.Sublist t.held ∨
      st'.nodeCoreIdx = (st.fetchAdd (host.nics i).nodeIdx).nodeCoreIdx ∧
        (t'.held.Sublist t.held ∨ st.nodeCoreIdx (host.nics i).nodeIdx < (host.corePool i).length ∧
          t'.held = st.nodeCoreIdx (host.nics i).nodeIdx :: t.held) := by
  cases h with
  | configured hpc =>
    refine .inl ⟨?_, t.workers_sublist_held⟩
    split <;> rfl
  | entered hpc => exact .inl ⟨rfl, t.workers_sublist_held⟩
  | spent q hpc _ _ => exact .inr ⟨rfl, .inl t.workers_sublist_held⟩
  | reserved q hpc _ hroom =>
    have hheld : t.held = t.workers := by rw [Stack.held, hpc]
    exact .inr ⟨rfl, .inr ⟨hroom, by rw [hheld]; rfl⟩⟩
  | spawned q gi hpc =>
    refine .inl ⟨Stack.raise_nodeCoreIdx .., ?_⟩
    rw [t.held_spawn, t.held_of_reserved hpc]
  | failed _ _ _ hpc hst => exact .inl ⟨hst, t.workers_sublist_held⟩
  | left hpc =>
    refine .inl ⟨?_, t.workers_sublist_held⟩
    split <;> rfl
  | ran socket hpc _ =>
    refine .inl ⟨rfl, ?_⟩
    rw [t.held_runTask]

end Step

/-- The slots of all stacks were drawn from their cursors, and are slots of their pools. -/
structure SlotsIssued {ι : Type} (host : Host ι) (s : Threads.State ι Stack Statics) : Prop where
  issued : Tickets.Issued (fun i => (host.nics i).nodeIdx) s.shared.nodeCoreIdx
    fun i => (s.threads i).held
  lt : ∀ i, ∀ g ∈ (s.threads i).held, g < (host.corePool i).length

theorem slotsIssued_start {ι : Type} (host : Host ι) : SlotsIssued host (start ι) :=
  ⟨Tickets.Issued.nil _ _, fun _ _ hmem => absurd hmem List.not_mem_nil⟩

section Run

variable {ι : Type} [DecidableEq ι] {host : Host ι}

/-- What every step keeps. -/
theorem SlotsIssued.step {s s' : Threads.State ι Stack Statics} {e : Threads.Event ι Event Empty}
    (hs : SlotsIssued host s) (h : (stackThreads host).machine.step s e = some s') :
    SlotsIssued host s' := by
  obtain ⟨i, a, t', st', rfl, hstep, rfl⟩ := machine_stepped h
  constructor
  · have hheld : (fun j => (Function.update s.threads i t' j).held)
        = Function.update (fun j => (s.threads j).held) i t'.held :=
      funext fun j => Function.apply_update (fun _ t => Stack.held t) s.threads i t' j
    simp only [hheld]
    obtain ⟨hidx, hsub⟩ | ⟨hidx, hsub | ⟨-, heq⟩⟩ := hstep.held
    · rw [hidx]
      exact hs.issued.shrink hsub
    · rw [hidx, ← Function.update_idem]
      exact (hs.issued.draw i).shrink (by simpa using hsub.cons _)
    · rw [hidx, heq]
      exact hs.issued.draw i
  · apply (Function.forall_update_iff s.threads
      fun j t => ∀ g ∈ t.held, g < (host.corePool j).length).mpr
    refine ⟨?_, fun j _ => hs.lt j⟩
    obtain ⟨-, hsub⟩ | ⟨-, hsub | ⟨hroom, heq⟩⟩ := hstep.held
    · exact fun g hg => hs.lt i g (hsub.subset hg)
    · exact fun g hg => hs.lt i g (hsub.subset hg)
    · rw [heq, List.forall_mem_cons]
      exact ⟨hroom, hs.lt i⟩

end Run

theorem SlotsIssued.coresDistinct {ι : Type} {host : Host ι} {s : Threads.State ι Stack Statics}
    (hs : SlotsIssued host s)
    (hapart : ∀ i j, NodesApart host.topo (host.nics i) (host.nics j)) : CoresDistinct host s := by
  have hworkers := hs.issued.of_sublist fun i => (s.threads i).workers_sublist_held
  have hlt : ∀ i, ∀ g ∈ (s.threads i).workers, g < (host.corePool i).length :=
    fun i g hg => hs.lt i g ((s.threads i).workers_sublist_held.subset hg)
  constructor
  · intro i
    apply List.Nodup.map_on _ (hworkers.nodup i)
    intro g hg h _ heq
    exact (List.getElem?_inj (hlt i g hg) (host.topo.nodup_corePool _)).mp heq
  · intro i j hne c hi hj
    obtain ⟨g, hg, hgc⟩ := List.mem_map.mp hi
    obtain ⟨h, hh, hhc⟩ := List.mem_map.mp hj
    rw [List.getElem?_eq_getElem (hlt i g hg)] at hgc
    subst hgc
    obtain ⟨hkey, rfl⟩ := slot_eq (hapart i j) (hapart j i)
      (List.getElem?_eq_getElem (hlt i g hg)) hhc
    exact hworkers.disjoint i j hne hkey hg hh

/-! ## Stacks that take slots -/

section Take

variable {ι : Type} {host : Host ι} {i : ι} {t : Stack} (st : Statics) {q : ℕ}

theorem step_configure (hpc : t.pc = .configuring) :
    (stackThreads host).step i t st .configure =
      some ({ t with pc := .entering },
        if host.xdpTx then st.setUnifiedCfg (host.nics i).iface else st) := if_pos hpc

theorem step_enter (hpc : t.pc = .entering) :
    (stackThreads host).step i t st .enter =
      some ({ t with pc := .queue 0, unifiedCfg := st.unifiedCfgFor (host.nics i).bound }, st) :=
  if_pos hpc

theorem step_reserve (hpc : t.pc = .queue q) (hq : q < host.queueCount i)
    (hroom : st.nodeCoreIdx (host.nics i).nodeIdx < (host.corePool i).length) :
    (stackThreads host).step i t st .reserve =
      some ({ t with pc := .reserved q (st.nodeCoreIdx (host.nics i).nodeIdx) },
        st.fetchAdd (host.nics i).nodeIdx) := by
  simp only [stackThreads, Stack.step, hpc, hq, if_true]
  rw [if_neg (Nat.not_le_of_lt hroom)]

theorem step_spawn {gi : ℕ} (hpc : t.pc = .reserved q gi) :
    (stackThreads host).step i t st .spawn =
      some (t.spawn (host.nics i) q gi, t.raise (host.nics i) st) := by
  simp only [stackThreads, Stack.step, hpc]

/-- A stack that moves alone can go from `p` to `p'` and take the next `m` slots of its cursor. -/
structure Took (host : Host ι) (i : ι) (m : ℕ) (p p' : Stack × Statics) : Prop where
  run : ∃ es, ((stackThreads host).alone i).run p es = some p'
  nodeCoreIdx : p'.2.nodeCoreIdx = Function.update p.2.nodeCoreIdx (host.nics i).nodeIdx
    (p.2.nodeCoreIdx (host.nics i).nodeIdx + m)
  old : ∀ g ∈ p.1.workers, g ∈ p'.1.workers
  new : ∀ g, p.2.nodeCoreIdx (host.nics i).nodeIdx ≤ g →
    g < p.2.nodeCoreIdx (host.nics i).nodeIdx + m → g ∈ p'.1.workers

variable {m n : ℕ} {p p' p'' : Stack × Statics}

theorem Took.cursor (h : Took host i m p p') : p'.2.nodeCoreIdx (host.nics i).nodeIdx
    = p.2.nodeCoreIdx (host.nics i).nodeIdx + m := by
  rw [h.nodeCoreIdx, Function.update_self]

theorem Took.trans (h : Took host i m p p') (h' : Took host i n p' p'') : Took host i (m + n) p p'' := by
  obtain ⟨es, hrun⟩ := h.run
  obtain ⟨es', hrun'⟩ := h'.run
  have hcursor := h.cursor
  constructor
  · exact ⟨_, ((stackThreads host).alone i).run_trans hrun hrun'⟩
  · rw [h'.nodeCoreIdx, hcursor, h.nodeCoreIdx, Function.update_idem, Nat.add_assoc]
  · exact fun g hg => h'.old g (h.old g hg)
  · intro g hle hlt
    by_cases hg : g < p.2.nodeCoreIdx (host.nics i).nodeIdx + m
    · exact h'.old g (h.new g hle hg)
    · exact h'.new g (by omega) (by omega)

variable (host i)

/-- A step that leaves the cursors and the workers as they are. -/
theorem took_zero {t' : Stack} {st' : Statics} {e : Event}
    (hstep : (stackThreads host).step i t st e = some (t', st'))
    (hidx : st'.nodeCoreIdx = st.nodeCoreIdx) (hworkers : t'.workers = t.workers) :
    Took host i 0 (t, st) (t', st') := by
  refine ⟨⟨[e], (stackThreads host).alone_single hstep⟩, ?_, ?_, fun g hle hlt => ?_⟩
  · rw [Nat.add_zero, Function.update_eq_self, hidx]
  · rw [hworkers]
    exact fun g hg => hg
  · omega

/-- The way into the queue loop takes no slot. -/
theorem took_enter (hpc : p.1.pc = .configuring) :
    ∃ p', Took host i 0 p p' ∧ p'.1.pc = .queue 0 := by
  have hconfigure := took_zero host i p.2 (step_configure p.2 hpc) (by split <;> rfl) rfl
  exact ⟨_, hconfigure.trans (took_zero host i _ (step_enter _ rfl) rfl rfl), rfl⟩

/-- One turn of the loop takes a slot. -/
theorem took_queue (hpc : p.1.pc = .queue q) (hq : q < host.queueCount i)
    (hroom : p.2.nodeCoreIdx (host.nics i).nodeIdx < (host.corePool i).length) :
    ∃ p', Took host i 1 p p' ∧ p'.1.pc = .queue (q + 1) := by
  have hreserve := (stackThreads host).alone_single (step_reserve p.2 hpc hq hroom)
  refine ⟨_, ⟨⟨_, ((stackThreads host).alone i).run_trans hreserve
    ((stackThreads host).alone_single (step_spawn _ rfl))⟩, ?_, ?_, ?_⟩, Stack.spawn_pc ..⟩
  · rw [Stack.raise_nodeCoreIdx]
    rfl
  · intro g hg
    rw [Stack.spawn_workers]
    exact List.mem_cons_of_mem _ hg
  · intro g hle hlt
    rw [Stack.spawn_workers]
    exact List.mem_cons.mpr (.inl (by omega))

/-- The turns up to a slot of the pool. -/
theorem took_queues (m : ℕ) (hpc : p.1.pc = .queue q) (hq : q + m ≤ host.queueCount i)
    (hroom : p.2.nodeCoreIdx (host.nics i).nodeIdx + m ≤ (host.corePool i).length) :
    ∃ p', Took host i m p p' := by
  induction m generalizing p q with
  | zero =>
    refine ⟨p, ⟨[], rfl⟩, ?_, fun _ hg => hg, fun g hle hlt => ?_⟩
    · rw [Nat.add_zero, Function.update_eq_self]
    · omega
  | succ m ih =>
    obtain ⟨p', hone, hpc'⟩ := took_queue host i hpc (by omega) (by omega)
    have hcursor := hone.cursor
    obtain ⟨p'', hrest⟩ := ih hpc' (by omega) (by omega)
    exact ⟨p'', Nat.add_comm m 1 ▸ hone.trans hrest⟩

/-- A stack with enough queues can take every slot of its pool up to `g`. -/
theorem took_upto (hpc : p.1.pc = .configuring) (hqueues : (host.corePool i).length ≤ host.queueCount i)
    {g : ℕ} (hle : p.2.nodeCoreIdx (host.nics i).nodeIdx ≤ g) (hg : g < (host.corePool i).length) :
    ∃ p', Took host i (g + 1 - p.2.nodeCoreIdx (host.nics i).nodeIdx) p p' ∧ g ∈ p'.1.workers := by
  obtain ⟨p', henter, hpc'⟩ := took_enter host i hpc
  have hcursor := henter.cursor
  obtain ⟨p'', hqueue⟩ := took_queues host i (g + 1 - p.2.nodeCoreIdx (host.nics i).nodeIdx) hpc'
    (by omega) (by omega)
  refine ⟨p'', Nat.zero_add (g + 1 - _) ▸ henter.trans hqueue, ?_⟩
  exact hqueue.new g (by omega) (by omega)

end Take

/-- With enough queues, one stack can take its pool up to slot `b` and then another one up to slot `a`, if
the two draw from different cursors or `a` comes later. -/
theorem exists_run_taking {ι : Type} [DecidableEq ι] (host : Host ι) {i j : ι} (hne : i ≠ j)
    (hqueues : ∀ k, (host.corePool k).length ≤ host.queueCount k) {a b : ℕ}
    (ha : a < (host.corePool i).length) (hb : b < (host.corePool j).length)
    (hfree : (host.nics i).nodeIdx ≠ (host.nics j).nodeIdx ∨ b < a) :
    ∃ es s, (stackThreads host).machine.run (start ι) es = some s ∧
      a ∈ (s.threads i).workers ∧ b ∈ (s.threads j).workers := by
  obtain ⟨p, hj, hbmem⟩ := took_upto host j (p := ((start ι).threads j, (start ι).shared)) rfl
    (hqueues j) (Nat.zero_le b) hb
  obtain ⟨es, hrun⟩ := hj.run
  have hcursor : p.2.nodeCoreIdx (host.nics i).nodeIdx ≤ a := by
    rw [hj.nodeCoreIdx]
    by_cases hkey : (host.nics i).nodeIdx = (host.nics j).nodeIdx
    · rw [hkey, Function.update_self]
      show 0 + (b + 1 - 0) ≤ a
      have hlt := hfree.resolve_left (not_not.mpr hkey)
      omega
    · rw [Function.update_of_ne hkey]
      exact Nat.zero_le a
  obtain ⟨p', hi, hamem⟩ := took_upto host i (p := ((start ι).threads i, p.2)) rfl (hqueues i) hcursor ha
  obtain ⟨es', hrun'⟩ := hi.run
  rw [← Function.update_of_ne hne p.1 (start ι).threads] at hrun'
  refine ⟨_, _, (stackThreads host).machine.run_trans ((stackThreads host).run_alone hrun)
    ((stackThreads host).run_alone hrun'), ?_, ?_⟩
  · simpa using hamem
  · simpa [hne.symm] using hbmem

/-- Where two NICs are not apart, both pools have a core on slots that can both be taken. -/
theorem exists_slots {topo : Topology} {n : ℕ} (h : ¬ (topo.corePool (some n) = [] ∨
    n = 0 ∧ topo.corePool (some n) <+: topo.physicalCores)) :
    ∃ (b a c : ℕ), (n ≠ 0 ∨ b < a) ∧ topo.physicalCores[a]? = some c ∧
      (topo.corePool (some n))[b]? = some c := by
  rw [not_or] at h
  by_cases hn : n = 0
  · have hprefix : ¬ topo.corePool (some n) <+: topo.physicalCores := fun hp => h.2 ⟨hn, hp⟩
    rw [topo.corePool_some] at hprefix ⊢
    obtain ⟨b, a, c, hlt, ha, hb⟩ := exists_later_of_not_prefix hprefix
    exact ⟨b, a, c, .inr hlt, ha, hb⟩
  · obtain ⟨c, cs, hpool⟩ := List.exists_cons_of_ne_nil h.1
    have hmem : c ∈ topo.physicalCores :=
      (topo.corePool_sublist (some n)).subset (by rw [hpool]; exact List.mem_cons_self)
    obtain ⟨a, ha⟩ := List.getElem?_of_mem hmem
    exact ⟨0, a, c, .inl hn, ha, by rw [hpool]; rfl⟩

theorem nodeIdx_ne {nic nic' : Nic} {n : ℕ} (hnone : nic.node = none) (hsome : nic'.node = some n)
    (hn : n ≠ 0) : nic.nodeIdx ≠ nic'.nodeIdx := by
  intro heq
  have hval := congrArg Fin.val heq
  simp only [Nic.nodeIdx, hnone, hsome, Option.getD_none, Option.getD_some, maxNumaNodes] at hval
  omega

/-- With as many queues as cores, two NICs that are not apart can be given the same core. -/
theorem exists_run_colliding {ι : Type} [DecidableEq ι] (host : Host ι) {i j : ι}
    (hqueues : ∀ k, host.hwQueueCount k = host.topo.physicalCores.length)
    (h : ¬ NodesApart host.topo (host.nics i) (host.nics j)) :
    ∃ es s, (stackThreads host).machine.run (start ι) es = some s ∧ ¬ CoresDistinct host s := by
  simp only [NodesApart, not_forall] at h
  obtain ⟨n, hnone, hsome, hnot⟩ := h
  obtain ⟨b, a, c, hfree, ha, hb⟩ := exists_slots hnot
  have hne : i ≠ j := by
    rintro rfl
    rw [hnone] at hsome
    cases hsome
  have hcount : ∀ k, (host.corePool k).length ≤ host.queueCount k := by
    intro k
    have hle := (host.topo.corePool_sublist (host.nics k).node).length_le
    rw [Host.queueCount, hqueues]
    exact (le_min hle le_rfl).trans (le_max_left _ _)
  have hi : (host.corePool i)[a]? = some c := by
    rwa [Host.corePool, hnone, Topology.corePool_none]
  have hj : (host.corePool j)[b]? = some c := by
    rwa [Host.corePool, hsome]
  obtain ⟨es, s, hrun, hamem, hbmem⟩ := exists_run_taking host hne hcount
    (List.getElem?_eq_some_iff.mp hi).1 (List.getElem?_eq_some_iff.mp hj).1
    (hfree.imp (nodeIdx_ne hnone hsome) id)
  refine ⟨es, s, hrun, fun hdistinct => ?_⟩
  exact hdistinct.disjoint i j hne (List.mem_map.mpr ⟨a, hamem, hi⟩) (List.mem_map.mpr ⟨b, hbmem, hj⟩)

/-- For every topology and every set of NICs: whatever the queue counts and the interleaving of the
stacks, no core is given to two workers, exactly when each NIC without a node and each NIC on a node are
apart. -/
theorem cores_distinct_iff_apart {ι : Type} [DecidableEq ι] (topo : Topology) (nics : ι → Nic)
    (xdpTx : Bool) :
    (∀ (hwQueueCount : ι → ℕ) (es : List (Threads.Event ι Event Empty))
        (s : Threads.State ι Stack Statics),
        (stackThreads ⟨topo, nics, hwQueueCount, xdpTx⟩).machine.run (start ι) es = some s →
          CoresDistinct ⟨topo, nics, hwQueueCount, xdpTx⟩ s) ↔
      ∀ i j, NodesApart topo (nics i) (nics j) := by
  constructor
  · intro hlaw i j
    by_contra hnot
    obtain ⟨es, s, hrun, hcollide⟩ := exists_run_colliding
      ⟨topo, nics, fun _ => topo.physicalCores.length, xdpTx⟩ (fun _ => rfl) hnot
    exact hcollide (hlaw _ es s hrun)
  · intro hapart hwQueueCount es s hrun
    have hissued := (stackThreads ⟨topo, nics, hwQueueCount, xdpTx⟩).machine.run_invariant
      (fun _ _ _ hs hstep => SlotsIssued.step hs hstep) (slotsIssued_start _) hrun
    exact hissued.coresDistinct hapart

/-- A core on each of two nodes, a NIC on node 1 and a NIC whose node is not known. -/
def mixedNics : Host (Fin 2) where
  topo := ⟨[0, 1], nodup_twoCores, fun c => some c⟩
  nics i := if i = 0 then ⟨"eth0", "eth0", some 1, true, 1⟩ else ⟨"eth1", "eth1", none, true, 1⟩
  hwQueueCount _ := 2
  xdpTx := true

/-- Both stacks start, one after the other. -/
def bothStacks : List (Threads.Event (Fin 2) Event Empty) :=
  [.thread 0 .configure, .thread 0 .enter, .thread 0 .reserve, .thread 0 .spawn, .thread 0 .leave,
    .thread 1 .configure, .thread 1 .enter, .thread 1 .reserve, .thread 1 .spawn, .thread 1 .reserve,
    .thread 1 .spawn, .thread 1 .leave]

/-- Both return `Ok`, and a unified worker of each is on core 1. -/
theorem cores_of_mixedNics :
    ∃ s, (stackThreads mixedNics).machine.run (start (Fin 2)) bothStacks = some s ∧
      (s.threads 0).nUnified = 1 ∧ (s.threads 1).nUnified = 2 ∧
      assignedCores mixedNics s 0 = [some 1] ∧ assignedCores mixedNics s 1 = [some 1, some 0] ∧
      ¬ CoresDistinct mixedNics s := by
  refine ⟨_, rfl, rfl, rfl, rfl, rfl, fun hdistinct => ?_⟩
  exact hdistinct.disjoint 0 1 (by decide) (List.mem_singleton_self _) List.mem_cons_self

end Dnsmark.Xdp.Startup
