import Dnsmark.Xdp.Startup

/-!
# Which stacks send

A stack that returned `Ok` sends if it spawned a unified worker, or if one of its sender tasks did not
return at once.  The two are decided in different places: a worker is spawned if the cursor of the node
leaves the stack a core, and a task returns if *any* stack has spawned a unified worker.  So a stack that
comes after another one on its node can return `Ok` and never send a query.
-/

namespace Dnsmark.Xdp.Startup

namespace Stack

/-- The stack has returned `Ok`, and all its tasks have started. -/
def Settled (t : Stack) (nic : Nic) : Prop := t.pc = .started ∧ t.tasks = nic.concurrent

instance (t : Stack) (nic : Nic) : Decidable (t.Settled nic) := inferInstanceAs (Decidable (_ ∧ _))

/-- Something sends queries on the NIC. -/
def Generates (t : Stack) : Prop := 0 < t.nUnified ∨ 0 < t.senders

instance (t : Stack) : Decidable t.Generates := inferInstanceAs (Decidable (_ ∨ _))

/-- Something does, or the worker that will is being set up. -/
def Promises (t : Stack) (nic : Nic) : Prop :=
  t.Generates ∨ (∃ q gi, t.pc = .reserved q gi) ∧ t.Unified nic

end Stack

/-- What lets a stack send: a core is left when it reserves one for a unified worker, or a task of its
own starts while no stack has a unified worker, and finds a TX ring or opens a socket. -/
def Supplies {ι : Type} (host : Host ι) (i : ι) (t : Stack) (st : Statics) : Event → Prop
  | .reserve => t.Unified (host.nics i) ∧
      st.nodeCoreIdx (host.nics i).nodeIdx < (host.corePool i).length
  | .task socket => st.xdpUnified = false ∧ (host.xdpTx && st.xdpTxStates || socket) = true
  | _ => False

instance {ι : Type} (host : Host ι) (i : ι) (t : Stack) (st : Statics) :
    (e : Event) → Decidable (Supplies host i t st e)
  | .reserve => inferInstanceAs (Decidable (_ ∧ _))
  | .task _ => inferInstanceAs (Decidable (_ ∧ _))
  | .configure | .enter | .spawn | .fail | .spawnFail | .leave => .isFalse id

/-- A step of the process that lets stack `i` send. -/
def SuppliesAt {ι : Type} (host : Host ι) (i : ι) (s : Threads.State ι Stack Statics) :
    Threads.Event ι Event Empty → Prop
  | .thread j e => j = i ∧ Supplies host i (s.threads i) s.shared e
  | .env k => nomatch k

instance {ι : Type} [DecidableEq ι] (host : Host ι) (i : ι) (s : Threads.State ι Stack Statics) :
    (e : Threads.Event ι Event Empty) → Decidable (SuppliesAt host i s e)
  | .thread _ _ => inferInstanceAs (Decidable (_ ∧ _))
  | .env k => nomatch k

/-! ## One stack -/

section Step

variable {ι : Type} {host : Host ι} {i : ι} {t t' : Stack} {st st' : Statics} {e : Event}

/-- A stack that does not fail comes to send by a step that lets it, and only so. -/
theorem Stepped.promises_iff (h : Stepped host i t st e t' st') (hok : t'.pc ≠ .failed) :
    t'.Promises (host.nics i) ↔ t.Promises (host.nics i) ∨ Supplies host i t st e := by
  cases h with
  | configured hpc => simp [Stack.Promises, Stack.Generates, Supplies, hpc]
  | entered hpc => simp [Stack.Promises, Stack.Generates, Supplies, hpc]
  | spent q hpc _ hspent =>
    simp [Stack.Promises, Stack.Generates, Supplies, hpc, Nat.not_lt.mpr hspent]
  | reserved q hpc _ hroom =>
    simp [Stack.Promises, Stack.Generates, Stack.Unified, Supplies, hpc, hroom]
  | spawned q gi hpc =>
    -- the reserved slot becomes a worker
    by_cases hunified : t.Unified (host.nics i)
    · simp [Stack.Promises, Stack.Generates, Supplies, Stack.spawn, hunified, hpc]
    · simp [Stack.Promises, Stack.Generates, Supplies, Stack.spawn, hunified]
  | failed _ _ _ _ _ => exact absurd rfl hok
  | left hpc =>
    obtain hpc | hpc := hpc <;> simp [Stack.Promises, Stack.Generates, Supplies, hpc]
  | ran socket hpc _ =>
    simp only [Stack.runTask]
    split
    · rename_i hflag
      simp [Stack.Promises, Stack.Generates, Supplies, hpc, hflag]
    · rename_i hflag
      split
      · rename_i hroute
        simp [Stack.Promises, Stack.Generates, Supplies, hpc, hflag, hroute]
      · rename_i hroute
        simp [Stack.Promises, Stack.Generates, Supplies, hpc, hroute]

end Step

/-! ## All stacks -/

section Machine

variable {ι : Type} [DecidableEq ι] {host : Host ι} {i : ι} {s s' : Threads.State ι Stack Statics}
  {e : Threads.Event ι Event Empty}

/-- Seen from stack `i`, a step of the process is its own step or none. -/
theorem step_at (h : (stackThreads host).machine.step s e = some s') (i : ι) :
    (∃ a, e = .thread i a ∧ Stepped host i (s.threads i) s.shared a (s'.threads i) s'.shared) ∨
      s'.threads i = s.threads i ∧ ¬ SuppliesAt host i s e := by
  obtain ⟨j, a, t', st', rfl, hstep, rfl⟩ := machine_stepped h
  by_cases hj : j = i
  · subst hj
    exact .inl ⟨a, rfl, by simpa using hstep⟩
  · refine .inr ⟨?_, fun hsupplies => hj hsupplies.1⟩
    exact Function.update_of_ne (Ne.symm hj) _ _

theorem promises_of_step (h : (stackThreads host).machine.step s e = some s')
    (hok : (s'.threads i).pc ≠ .failed) (hnew : (s'.threads i).Promises (host.nics i)) :
    ((s.threads i).pc ≠ .failed ∧ (s.threads i).Promises (host.nics i)) ∨ SuppliesAt host i s e := by
  obtain ⟨a, rfl, hstep⟩ | ⟨hsame, -⟩ := step_at h i
  · obtain hold | hsupplies := (hstep.promises_iff hok).mp hnew
    · exact .inl ⟨hstep.not_failed, hold⟩
    · exact .inr ⟨rfl, hsupplies⟩
  · rw [hsame] at hok hnew
    exact .inl ⟨hok, hnew⟩

theorem promises_of_supplies (h : (stackThreads host).machine.step s e = some s')
    (hsupplies : SuppliesAt host i s e) :
    (s'.threads i).pc = .failed ∨ (s'.threads i).Promises (host.nics i) := by
  obtain ⟨a, rfl, hstep⟩ | ⟨-, hnot⟩ := step_at h i
  · rw [or_iff_not_imp_left]
    intro hok
    exact (hstep.promises_iff hok).mpr (.inr hsupplies.2)
  · exact absurd hsupplies hnot

theorem promises_kept (h : (stackThreads host).machine.step s e = some s')
    (hold : (s.threads i).pc = .failed ∨ (s.threads i).Promises (host.nics i)) :
    (s'.threads i).pc = .failed ∨ (s'.threads i).Promises (host.nics i) := by
  obtain ⟨a, rfl, hstep⟩ | ⟨hsame, -⟩ := step_at h i
  · rw [or_iff_not_imp_left]
    intro hok
    exact (hstep.promises_iff hok).mpr (.inl (hold.resolve_left hstep.not_failed))
  · rwa [hsame]

end Machine

/-- For every host, whatever its NICs, nodes and queues, and every interleaving of the stacks: a stack
that returned `Ok` and whose tasks have all started sends exactly when, at some point, it reserved a core
for a unified worker while its node had one left, or one of its tasks started before any stack had a
unified worker. -/
theorem generates_iff_supplied {ι : Type} [DecidableEq ι] (host : Host ι)
    (es : List (Threads.Event ι Event Empty)) (s : Threads.State ι Stack Statics)
    (hrun : (stackThreads host).machine.run (start ι) es = some s) (i : ι)
    (hsettled : (s.threads i).Settled (host.nics i)) :
    (s.threads i).Generates ↔
      (stackThreads host).machine.Sometimes (SuppliesAt host i) (start ι) es := by
  have hok : (s.threads i).pc ≠ .failed := by simp [hsettled.1]
  constructor
  · intro hgen
    refine (stackThreads host).machine.sometimes_of_run
      (P := fun s => (s.threads i).pc ≠ .failed ∧ (s.threads i).Promises (host.nics i))
      (fun s e s' hstep hnew => promises_of_step hstep hnew.1 hnew.2) ?_ hrun ⟨hok, .inl hgen⟩
    rintro ⟨-, hgen | ⟨⟨q, gi, hpc⟩, -⟩⟩
    · exact hgen.elim (Nat.lt_irrefl 0) (Nat.lt_irrefl 0)
    · cases hpc
  · intro hsometimes
    have hpromises := (stackThreads host).machine.run_of_sometimes
      (Q := fun s => (s.threads i).pc = .failed ∨ (s.threads i).Promises (host.nics i))
      (fun s e s' => promises_of_supplies) (fun s e s' hold hstep => promises_kept hstep hold)
      hsometimes hrun
    obtain hgen | ⟨⟨q, gi, hpc⟩, -⟩ := hpromises.resolve_left hok
    · exact hgen
    · rw [hsettled.1] at hpc
      cases hpc

/-- Two cores on one node, and two NICs with two queues each on the same node. -/
def twoNicsOneNode : Host (Fin 2) where
  topo := ⟨[0, 1], nodup_twoCores, fun _ => some 0⟩
  nics i := if i = 0 then ⟨"eth0", "eth0", some 0, true, 1⟩ else ⟨"eth1", "eth1", some 0, true, 1⟩
  hwQueueCount _ := 2
  xdpTx := true

/-- The first stack starts and takes both cores. -/
def firstStack : List (Threads.Event (Fin 2) Event Empty) :=
  [.thread 0 .configure, .thread 0 .enter, .thread 0 .reserve, .thread 0 .spawn, .thread 0 .reserve,
    .thread 0 .spawn, .thread 0 .leave, .thread 0 (.task true)]

/-- Then the second one starts. -/
def secondStack : List (Threads.Event (Fin 2) Event Empty) :=
  [.thread 1 .configure, .thread 1 .enter, .thread 1 .reserve, .thread 1 .leave, .thread 1 (.task true)]

/-- The second stack returns `Ok`, has no worker, and its task returns. -/
theorem secondStack_silent :
    ∃ s, (stackThreads twoNicsOneNode).machine.run (start (Fin 2)) (firstStack ++ secondStack)
        = some s ∧
      (s.threads 1).Settled (twoNicsOneNode.nics 1) ∧ (s.threads 1).workers = [] ∧
      (s.threads 1).senders = 0 ∧ ¬ (s.threads 1).Generates := by
  refine ⟨_, rfl, ?_⟩
  decide

/-- The first stack sends. -/
theorem firstStack_generates :
    ∃ s, (stackThreads twoNicsOneNode).machine.run (start (Fin 2)) firstStack = some s ∧
      (s.threads 0).workers = [1, 0] ∧ (s.threads 0).Generates := by
  refine ⟨_, rfl, rfl, ?_⟩
  apply (generates_iff_supplied twoNicsOneNode firstStack _ rfl 0 (by decide)).mpr
  decide

end Dnsmark.Xdp.Startup
