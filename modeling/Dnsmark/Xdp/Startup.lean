import Dnsmark.Common.Machine
import Mathlib.Data.List.Basic

/-!
# The start-up of the AF_XDP datapath

With several targets `run_multi_nic` of `src/engine/multi_nic.rs` runs one engine for each NIC, all in one
process.  This module is the part of such a stack that leads to workers: `set_unified_cfg`, the call of
`do_start_xdp_receive_path` and the tasks of `run_xdp_sender_worker`, all of
`src/transport/xdp/receiver.rs`.

The stacks meet in four statics: the core cursors of the NUMA nodes, the configurations by interface, the
flag that unified workers exist, and the TX rings of the split path.  An event is one access to them, or
one call that can fail; whatever the system answers is part of the event.
-/

namespace Dnsmark.Xdp.Startup

/-- `MAX_NUMA_NODES`. -/
def maxNumaNodes : ℕ := 8

/-- `physical_cores`, in its order, and the node each core is on. -/
structure Topology where
  physicalCores : List ℕ
  nodup : physicalCores.Nodup
  numaNodeForCpu : ℕ → Option ℕ

/-- The cores of the small hosts below. -/
theorem nodup_twoCores : [0, 1].Nodup := by decide

namespace Topology

/-- `physical_cores_numa_sorted`: the cores of the preferred node first. -/
def physicalCoresNumaSorted (topo : Topology) : Option ℕ → List ℕ
  | none => topo.physicalCores
  | some preferred =>
    topo.physicalCores.filter (fun c => topo.numaNodeForCpu c = some preferred)
      ++ topo.physicalCores.filter (fun c => ¬ topo.numaNodeForCpu c = some preferred)

/-- `core_pool`: the cores of the NIC's node, or all cores if its node is not known. -/
def corePool (topo : Topology) (nicNode : Option ℕ) : List ℕ :=
  let physSorted := topo.physicalCoresNumaSorted nicNode
  if nicNode.isSome then physSorted.filter fun c => topo.numaNodeForCpu c = nicNode else physSorted

end Topology

/-- What a stack finds out about its NIC. -/
structure Nic where
  /-- The interface the engine registers a configuration for. -/
  iface : String
  /-- The interface the sockets are bound to: the parent, if `iface` is virtual or a VLAN. -/
  bound : String
  /-- `numa_node_for_iface`. -/
  node : Option ℕ
  /-- Whether a frame header could be built: IPv4, with all addresses resolved. -/
  hdr : Bool
  /-- The sender tasks of the stack. -/
  concurrent : ℕ
deriving DecidableEq, Repr

theorem min_lt_maxNumaNodes (n : ℕ) : min n (maxNumaNodes - 1) < maxNumaNodes :=
  (Nat.min_le_right ..).trans_lt (by decide)

/-- `node_idx`: which cursor the NIC draws from. -/
def Nic.nodeIdx (nic : Nic) : Fin maxNumaNodes :=
  ⟨min (nic.node.getD 0) (maxNumaNodes - 1), min_lt_maxNumaNodes _⟩

/-- The host, its NICs, and `DNSMARK_XDP_TX`. -/
structure Host (ι : Type) where
  topo : Topology
  nics : ι → Nic
  /-- `get_rx_queue_count`. -/
  hwQueueCount : ι → ℕ
  xdpTx : Bool

namespace Host

variable {ι : Type} (host : Host ι)

/-- `core_pool` of a stack. -/
def corePool (i : ι) : List ℕ := host.topo.corePool (host.nics i).node

/-- `queue_count`. -/
def queueCount (i : ι) : ℕ := max (min (host.hwQueueCount i) (host.corePool i).length) 1

end Host

/-- The statics. -/
structure Statics where
  /-- `NODE_CORE_IDX`. -/
  nodeCoreIdx : Fin maxNumaNodes → ℕ := fun _ => 0
  /-- The interfaces in `UNIFIED_CFGS`. -/
  unifiedCfgs : List String := []
  /-- `XDP_UNIFIED`. -/
  xdpUnified : Bool := false
  /-- `XDP_TX_STATES` is set. -/
  xdpTxStates : Bool := false
deriving DecidableEq

namespace Statics

/-- `set_unified_cfg`. -/
def setUnifiedCfg (st : Statics) (iface : String) : Statics :=
  { st with unifiedCfgs := st.unifiedCfgs.insert iface }

/-- `unified_cfg_for`, if it finds one: that of the interface, or the only one there is. -/
def unifiedCfgFor (st : Statics) (iface : String) : Bool :=
  iface ∈ st.unifiedCfgs || st.unifiedCfgs.length == 1

/-- `NODE_CORE_IDX[node_idx].fetch_add(1)`. -/
def fetchAdd (st : Statics) (k : Fin maxNumaNodes) : Statics :=
  { st with nodeCoreIdx := Function.update st.nodeCoreIdx k (st.nodeCoreIdx k + 1) }

end Statics

/-- Where a stack is. -/
inductive Pc where
  /-- Before `set_unified_cfg`. -/
  | configuring
  /-- In `do_start_xdp_receive_path`, before it looks its configuration up. -/
  | entering
  /-- At the head of the queue loop. -/
  | queue (q : ℕ)
  /-- With a slot of the core pool, setting the queue's socket up. -/
  | reserved (q gi : ℕ)
  /-- Out of the loop because the pool is spent. -/
  | leaving
  /-- Returned `Ok`. -/
  | started
  /-- Returned `Err`. -/
  | failed
deriving DecidableEq, Repr

inductive Event where
  | configure
  | enter
  | reserve
  /-- The socket is bound and registered, and the worker's thread is spawned. -/
  | spawn
  /-- The program cannot be loaded, or the socket not be bound or registered. -/
  | fail
  /-- The worker's thread cannot be spawned. -/
  | spawnFail
  | leave
  /-- A sender task starts; `socket` says whether it could open a UDP socket. -/
  | task (socket : Bool)
deriving DecidableEq, Repr

/-- One stack. -/
structure Stack where
  pc : Pc := .configuring
  /-- Whether a configuration was found. -/
  unifiedCfg : Bool := false
  nUnified : ℕ := 0
  /-- The length of `tx_states`. -/
  txStates : ℕ := 0
  /-- The slots of the workers that were spawned. -/
  workers : List ℕ := []
  /-- The sender tasks that have started. -/
  tasks : ℕ := 0
  /-- Those of them that did not return at once. -/
  senders : ℕ := 0
deriving DecidableEq, Repr

namespace Stack

/-- A worker that sends and receives on its core, in place of the split path. -/
def Unified (t : Stack) (nic : Nic) : Prop := t.unifiedCfg = true ∧ nic.hdr = true

instance (t : Stack) (nic : Nic) : Decidable (t.Unified nic) := inferInstanceAs (Decidable (_ ∧ _))

/-- The worker of queue `q`, on slot `gi`. -/
def spawn (t : Stack) (nic : Nic) (q gi : ℕ) : Stack :=
  if t.Unified nic then
    { t with pc := .queue (q + 1), nUnified := t.nUnified + 1, workers := gi :: t.workers }
  else
    { t with
      pc := .queue (q + 1)
      txStates := if nic.hdr then t.txStates + 1 else t.txStates
      workers := gi :: t.workers }

/-- The flag is stored before the thread is spawned. -/
def raise (t : Stack) (nic : Nic) (st : Statics) : Statics :=
  if t.Unified nic then { st with xdpUnified := true } else st

/-- The head of `run_xdp_sender_worker`: with unified workers about the task returns; otherwise it sends
over a TX ring or a UDP socket. -/
def runTask (t : Stack) (xdpTx : Bool) (st : Statics) (socket : Bool) : Stack :=
  if st.xdpUnified then { t with tasks := t.tasks + 1 }
  else if xdpTx && st.xdpTxStates || socket then
    { t with tasks := t.tasks + 1, senders := t.senders + 1 }
  else { t with tasks := t.tasks + 1 }

/-- One step of stack `i`. -/
def step {ι : Type} (host : Host ι) (i : ι) (t : Stack) (st : Statics) :
    Event → Option (Stack × Statics)
  | .configure =>
    if t.pc = .configuring then
      some ({ t with pc := .entering },
        if host.xdpTx then st.setUnifiedCfg (host.nics i).iface else st)
    else none
  | .enter =>
    if t.pc = .entering then
      some ({ t with pc := .queue 0, unifiedCfg := st.unifiedCfgFor (host.nics i).bound }, st)
    else none
  | .reserve =>
    match t.pc with
    | .queue q =>
      if q < host.queueCount i then
        let gi := st.nodeCoreIdx (host.nics i).nodeIdx
        let st := st.fetchAdd (host.nics i).nodeIdx
        if (host.corePool i).length ≤ gi then some ({ t with pc := .leaving }, st)
        else some ({ t with pc := .reserved q gi }, st)
      else none
    | _ => none
  | .spawn =>
    match t.pc with
    | .reserved q gi => some (t.spawn (host.nics i) q gi, t.raise (host.nics i) st)
    | _ => none
  | .fail =>
    match t.pc with
    | .entering | .reserved _ _ => some ({ t with pc := .failed }, st)
    | _ => none
  | .spawnFail =>
    match t.pc with
    | .reserved _ _ => some ({ t with pc := .failed }, t.raise (host.nics i) st)
    | _ => none
  | .leave =>
    if t.pc = .leaving ∨ t.pc = .queue (host.queueCount i) then
      some ({ t with pc := .started }, if 0 < t.txStates then { st with xdpTxStates := true } else st)
    else none
  | .task socket =>
    if t.pc = .started ∧ t.tasks < (host.nics i).concurrent then
      some (t.runTask host.xdpTx st socket, st)
    else none

end Stack

/-- The stacks of a host in every interleaving. -/
def stackThreads {ι : Type} (host : Host ι) : Threads ι Stack Statics Event Empty where
  step := Stack.step host
  env _ _ k := nomatch k

/-- The process before any stack has started. -/
def start (ι : Type) : Threads.State ι Stack Statics := ⟨fun _ => {}, {}⟩

/-! ## What a step does -/

/-- What a step of stack `i` can be. -/
inductive Stepped {ι : Type} (host : Host ι) (i : ι) (t : Stack) (st : Statics) :
    Event → Stack → Statics → Prop
  | configured (hpc : t.pc = .configuring) :
      Stepped host i t st .configure { t with pc := .entering }
        (if host.xdpTx then st.setUnifiedCfg (host.nics i).iface else st)
  | entered (hpc : t.pc = .entering) :
      Stepped host i t st .enter
        { t with pc := .queue 0, unifiedCfg := st.unifiedCfgFor (host.nics i).bound } st
  | spent (q : ℕ) (hpc : t.pc = .queue q) (hq : q < host.queueCount i)
      (hspent : (host.corePool i).length ≤ st.nodeCoreIdx (host.nics i).nodeIdx) :
      Stepped host i t st .reserve { t with pc := .leaving } (st.fetchAdd (host.nics i).nodeIdx)
  | reserved (q : ℕ) (hpc : t.pc = .queue q) (hq : q < host.queueCount i)
      (hroom : st.nodeCoreIdx (host.nics i).nodeIdx < (host.corePool i).length) :
      Stepped host i t st .reserve
        { t with pc := .reserved q (st.nodeCoreIdx (host.nics i).nodeIdx) }
        (st.fetchAdd (host.nics i).nodeIdx)
  | spawned (q gi : ℕ) (hpc : t.pc = .reserved q gi) :
      Stepped host i t st .spawn (t.spawn (host.nics i) q gi) (t.raise (host.nics i) st)
  | failed (e : Event) (st' : Statics) (he : e = .fail ∨ e = .spawnFail)
      (hpc : t.pc = .entering ∨ ∃ q gi, t.pc = .reserved q gi)
      (hst : st'.nodeCoreIdx = st.nodeCoreIdx) :
      Stepped host i t st e { t with pc := .failed } st'
  | left (hpc : t.pc = .leaving ∨ t.pc = .queue (host.queueCount i)) :
      Stepped host i t st .leave { t with pc := .started }
        (if 0 < t.txStates then { st with xdpTxStates := true } else st)
  | ran (socket : Bool) (hpc : t.pc = .started) (htasks : t.tasks < (host.nics i).concurrent) :
      Stepped host i t st (.task socket) (t.runTask host.xdpTx st socket) st

namespace Stack

variable (t : Stack) (nic : Nic)

@[simp] theorem spawn_pc (q gi : ℕ) : (t.spawn nic q gi).pc = .queue (q + 1) := by
  unfold spawn
  split <;> rfl

@[simp] theorem spawn_workers (q gi : ℕ) : (t.spawn nic q gi).workers = gi :: t.workers := by
  unfold spawn
  split <;> rfl

@[simp] theorem raise_nodeCoreIdx (st : Statics) :
    (t.raise nic st).nodeCoreIdx = st.nodeCoreIdx := by
  unfold raise
  split <;> rfl

/-- A sender task leaves the stack where it is. -/
theorem runTask_pc (xdpTx : Bool) (st : Statics) (socket : Bool) :
    (t.runTask xdpTx st socket).pc = t.pc := by
  unfold runTask
  split
  · rfl
  · split <;> rfl

end Stack

section Step

variable {ι : Type} {host : Host ι} {i : ι} {t t' : Stack} {st st' : Statics} {e : Event}

theorem step_stepped (h : (stackThreads host).step i t st e = some (t', st')) :
    Stepped host i t st e t' st' := by
  cases e with
  | configure =>
    obtain ⟨hpc, ⟨⟩⟩ := Option.ite_none_right_eq_some.mp h
    exact .configured hpc
  | enter =>
    obtain ⟨hpc, ⟨⟩⟩ := Option.ite_none_right_eq_some.mp h
    exact .entered hpc
  | reserve =>
    simp only [stackThreads, Stack.step] at h
    split at h
    · rename_i q hpc
      obtain ⟨hq, h⟩ := Option.ite_none_right_eq_some.mp h
      split at h
      · rename_i hspent
        cases h
        exact .spent q hpc hq hspent
      · rename_i hroom
        cases h
        exact .reserved q hpc hq (Nat.lt_of_not_le hroom)
    · exact nomatch h
  | spawn =>
    simp only [stackThreads, Stack.step] at h
    split at h
    · rename_i q gi hpc
      cases h
      exact .spawned q gi hpc
    · exact nomatch h
  | fail =>
    simp only [stackThreads, Stack.step] at h
    split at h
    · rename_i hpc
      cases h
      exact .failed _ _ (.inl rfl) (.inl hpc) rfl
    · rename_i q gi hpc
      cases h
      exact .failed _ _ (.inl rfl) (.inr ⟨q, gi, hpc⟩) rfl
    · exact nomatch h
  | spawnFail =>
    simp only [stackThreads, Stack.step] at h
    split at h
    · rename_i q gi hpc
      cases h
      exact .failed _ _ (.inr rfl) (.inr ⟨q, gi, hpc⟩) (Stack.raise_nodeCoreIdx ..)
    · exact nomatch h
  | leave =>
    obtain ⟨hpc, ⟨⟩⟩ := Option.ite_none_right_eq_some.mp h
    exact .left hpc
  | task socket =>
    obtain ⟨⟨hpc, htasks⟩, ⟨⟩⟩ := Option.ite_none_right_eq_some.mp h
    exact .ran socket hpc htasks

/-- A stack that failed makes no step. -/
theorem Stepped.not_failed (h : Stepped host i t st e t' st') : t.pc ≠ .failed := by
  cases h with
  | configured hpc => simp [hpc]
  | entered hpc => simp [hpc]
  | spent q hpc _ _ => simp [hpc]
  | reserved q hpc _ _ => simp [hpc]
  | spawned q gi hpc => simp [hpc]
  | failed _ _ _ hpc _ => obtain hpc | ⟨q, gi, hpc⟩ := hpc <;> simp [hpc]
  | left hpc => obtain hpc | hpc := hpc <;> simp [hpc]
  | ran _ hpc _ => simp [hpc]

/-- A step of the process is a step of one stack. -/
theorem machine_stepped [DecidableEq ι] {s s' : Threads.State ι Stack Statics}
    {e : Threads.Event ι Event Empty} (h : (stackThreads host).machine.step s e = some s') :
    ∃ i a t' st', e = .thread i a ∧ Stepped host i (s.threads i) s.shared a t' st' ∧
      s' = ⟨Function.update s.threads i t', st'⟩ := by
  obtain ⟨i, a, t', st', rfl, hstep, rfl⟩ | ⟨k, -⟩ := (stackThreads host).machine_step_cases h
  · exact ⟨i, a, t', st', rfl, step_stepped hstep, rfl⟩
  · exact k.elim

end Step

end Dnsmark.Xdp.Startup
