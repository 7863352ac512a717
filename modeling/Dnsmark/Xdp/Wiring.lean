import Dnsmark.Xdp.Startup

/-!
# Whose configuration and whose rings

Two of the statics that the stacks of `Xdp.Startup` meet in hold what belongs to one stack: a
configuration of `UNIFIED_CFGS` has the wire pool and the rate of the stack that set it, and the TX states
of `XDP_TX_STATES` have the sockets and the frame header, hence the server, of the stack that stored them.
`Startup` only says whether something is there.  Here both are kept with their owner, and each stack with
what it took.  Forgetting the owners gives the start-up back (`Agrees`).

The map is looked up by the interface a stack is bound to, which is the parent of the interface it was set
for if that one is a VLAN or otherwise virtual.  The ring list is a `OnceLock`: the first stack that stores it
is the only one.  `wiring` says what follows for every interleaving.
-/

namespace Dnsmark.Xdp.Startup

/-- `UNIFIED_CFGS` and `XDP_TX_STATES`, with the stack each value came from. -/
structure Registry (ι : Type) where
  unifiedCfgs : List (String × ι) := []
  xdpTxStates : Option ι := none
deriving DecidableEq

namespace Registry

variable {ι : Type} (r : Registry ι)

/-- `set_unified_cfg`: an earlier configuration of the interface is replaced. -/
def setUnifiedCfg (iface : String) (i : ι) : Registry ι :=
  { r with unifiedCfgs := (iface, i) :: r.unifiedCfgs.filter fun p => p.1 ≠ iface }

/-- The only configuration, if there is one only. -/
def sole : Option ι :=
  match r.unifiedCfgs with
  | [p] => some p.2
  | _ => none

/-- `unified_cfg_for`. -/
def unifiedCfgFor (iface : String) : Option ι := (r.unifiedCfgs.lookup iface).or r.sole

/-- `XDP_TX_STATES.set(tx_states)`. -/
def setTxStates (i : ι) : Registry ι := { r with xdpTxStates := r.xdpTxStates.or (some i) }

end Registry

/-- What a stack took. -/
structure Link (ι : Type) where
  /-- The owner of the configuration its workers run under. -/
  cfg : Option ι := none
  /-- The owners of the TX rings its sender tasks send over. -/
  rings : List ι := []
deriving DecidableEq

/-- The process with owners. -/
structure Wired (ι : Type) where
  core : Threads.State ι Stack Statics
  registry : Registry ι
  links : ι → Link ι

namespace Wired

variable {ι : Type}

/-- The process before any stack has started. -/
def start (ι : Type) : Wired ι := ⟨Startup.start ι, {}, fun _ => {}⟩

variable (host : Host ι) (w : Wired ι) (i : ι)

/-- What an event of stack `i` does to the statics. -/
def register : Event → Registry ι
  | .configure =>
    if host.xdpTx then w.registry.setUnifiedCfg (host.nics i).iface i else w.registry
  | .leave =>
    if 0 < (w.core.threads i).txStates then w.registry.setTxStates i else w.registry
  | _ => w.registry

/-- The rings a sender task finds: none if unified workers are about, or `DNSMARK_XDP_TX` is 0. -/
def ringsFound : Option ι :=
  if w.core.shared.xdpUnified then none
  else if host.xdpTx then w.registry.xdpTxStates
  else none

/-- What stack `i` takes at an event. -/
def take : Event → Link ι
  | .enter => { w.links i with cfg := w.registry.unifiedCfgFor (host.nics i).bound }
  | .task _ => { w.links i with rings := (ringsFound host w).toList ++ (w.links i).rings }
  | _ => w.links i

/-- One step of the process. -/
def step [DecidableEq ι] (host : Host ι) (w : Wired ι) : Threads.Event ι Event Empty → Option (Wired ι)
  | .thread i e => ((stackThreads host).machine.step w.core (.thread i e)).map fun core =>
      ⟨core, w.register host i e, Function.update w.links i (w.take host i e)⟩
  | .env k => nomatch k

def machine [DecidableEq ι] : Machine (Wired ι) (Threads.Event ι Event Empty) := ⟨step host⟩

end Wired

/-! ## What a step of the start-up does to the statics and to its stack -/

section Step

variable {ι : Type} {host : Host ι} {i : ι} {t t' : Stack} {st st' : Statics} {e : Event}

/-- A failure leaves both statics alone. -/
theorem statics_of_failure (h : (stackThreads host).step i t st e = some (t', st'))
    (he : e = .fail ∨ e = .spawnFail) :
    st'.unifiedCfgs = st.unifiedCfgs ∧ st'.xdpTxStates = st.xdpTxStates := by
  rcases he with rfl | rfl
  · simp only [stackThreads, Stack.step] at h
    split at h <;> cases h <;> exact ⟨rfl, rfl⟩
  · simp only [stackThreads, Stack.step] at h
    split at h <;> cases h
    unfold Stack.raise
    split <;> exact ⟨rfl, rfl⟩

theorem unifiedCfgs_raise (t : Stack) (nic : Nic) (st : Statics) :
    (t.raise nic st).unifiedCfgs = st.unifiedCfgs ∧ (t.raise nic st).xdpTxStates = st.xdpTxStates := by
  unfold Stack.raise
  split <;> exact ⟨rfl, rfl⟩

/-- Only `set_unified_cfg` adds an interface, and only the end of the start-up stores TX states. -/
theorem statics_of_step (h : (stackThreads host).step i t st e = some (t', st')) :
    st'.unifiedCfgs = (if e = .configure ∧ host.xdpTx then st.unifiedCfgs.insert (host.nics i).iface
      else st.unifiedCfgs) ∧
    st'.xdpTxStates = (st.xdpTxStates || decide (e = .leave ∧ 0 < t.txStates)) := by
  cases step_stepped h with
  | configured hpc => by_cases hxdp : host.xdpTx <;> simp [hxdp, Statics.setUnifiedCfg]
  | entered hpc => simp
  | spent q hpc _ _ => simp [Statics.fetchAdd]
  | reserved q hpc _ _ => simp [Statics.fetchAdd]
  | spawned q gi hpc =>
    obtain ⟨hcfgs, hstates⟩ := unifiedCfgs_raise t (host.nics i) st
    simp [hcfgs, hstates]
  | failed _ _ he hpc hst =>
    obtain ⟨hcfgs, hstates⟩ := statics_of_failure h he
    rw [hcfgs, hstates]
    rcases he with rfl | rfl <;> simp
  | left hpc => by_cases htx : 0 < t.txStates <;> simp [htx]
  | ran socket hpc _ => simp

/-- A stack looks its configuration up once, as it enters. -/
theorem unifiedCfg_of_step (h : Stepped host i t st e t' st') :
    t'.unifiedCfg = if e = .enter then st.unifiedCfgFor (host.nics i).bound else t.unifiedCfg := by
  cases h with
  | configured hpc => rfl
  | entered hpc => rfl
  | spent q hpc _ _ => rfl
  | reserved q hpc _ _ => rfl
  | spawned q gi hpc =>
    unfold Stack.spawn
    split <;> rfl
  | failed _ _ he hpc _ => rcases he with rfl | rfl <;> rfl
  | left hpc => rfl
  | ran socket hpc _ =>
    unfold Stack.runTask
    split
    · rfl
    · split <;> rfl

/-- A stack is in its queue loop. -/
def Pc.InLoop : Pc → Prop
  | .queue _ | .reserved _ _ => True
  | _ => False

/-- A stack gets TX states in its queue loop, with a frame header and no configuration. -/
theorem txStates_of_step (h : Stepped host i t st e t' st') (hnew : t.txStates < t'.txStates) :
    (host.nics i).hdr = true ∧ t.unifiedCfg = false ∧ t.pc.InLoop := by
  cases h with
  | spawned q gi hpc =>
    unfold Stack.spawn at hnew
    split at hnew
    · exact absurd hnew (Nat.lt_irrefl _)
    · rename_i hsplit
      by_cases hhdr : (host.nics i).hdr
      · refine ⟨hhdr, ?_, by rw [hpc]; trivial⟩
        rw [Stack.Unified, not_and_or] at hsplit
        exact Bool.eq_false_iff.mpr (hsplit.resolve_right (not_not.mpr hhdr))
      · simp [hhdr] at hnew
  | ran socket hpc _ =>
    unfold Stack.runTask at hnew
    split at hnew
    · exact absurd hnew (Nat.lt_irrefl _)
    · split at hnew <;> exact absurd hnew (Nat.lt_irrefl _)
  | _ => exact absurd hnew (Nat.lt_irrefl _)

/-- A stack configures first, then enters, and then is in its loop. -/
theorem pc_of_step (h : Stepped host i t st e t' st') :
    t'.pc ≠ .configuring ∧ (t.pc = .configuring ↔ e = .configure) ∧ (e = .enter → t.pc = .entering) ∧
      (t'.pc.InLoop → e = .enter ∨ e ≠ .enter ∧ t.pc.InLoop) := by
  cases h with
  | configured hpc => simp [Pc.InLoop, hpc]
  | entered hpc => simp [hpc]
  | spent q hpc _ _ => simp [Pc.InLoop, hpc]
  | reserved q hpc _ _ => simp [Pc.InLoop, hpc]
  | spawned q gi hpc => simp [Pc.InLoop, hpc]
  | failed _ _ he hpc _ =>
    have hne : t.pc ≠ .configuring := by
      obtain hpc | ⟨q, gi, hpc⟩ := hpc <;> simp [hpc]
    rcases he with rfl | rfl <;> simp [Pc.InLoop, hne]
  | left hpc => obtain hpc | hpc := hpc <;> simp [Pc.InLoop, hpc]
  | ran socket hpc _ => simp [Pc.InLoop, t.runTask_pc, hpc]

end Step

/-! ## Forgetting the owners -/

namespace Registry

variable {ι : Type} {r : Registry ι}

/-- The interfaces that have a configuration. -/
def ifaces (r : Registry ι) : List String := r.unifiedCfgs.map Prod.fst

theorem isSome_lookup {l : List (String × ι)} {iface : String} :
    (l.lookup iface).isSome ↔ iface ∈ l.map Prod.fst := by
  induction l with
  | nil => simp
  | cons p l ih =>
    rw [List.lookup_cons, List.map_cons, List.mem_cons]
    by_cases hp : iface = p.1
    · simp [hp]
    · simp [hp, ih, beq_eq_false_iff_ne.mpr hp]

theorem isSome_sole : r.sole.isSome ↔ r.unifiedCfgs.length = 1 := by
  unfold sole
  split
  · rename_i p hp
    simp [hp]
  · rename_i hne
    simp only [Option.isSome_none, Bool.false_eq_true, false_iff]
    intro hlen
    obtain ⟨p, hp⟩ := List.length_eq_one_iff.mp hlen
    exact hne p hp

/-- A configuration is found in the registry exactly when it is found in the statics. -/
theorem isSome_unifiedCfgFor {st : Statics} (h : r.ifaces.Perm st.unifiedCfgs) (iface : String) :
    (r.unifiedCfgFor iface).isSome = st.unifiedCfgFor iface := by
  have hlength : r.unifiedCfgs.length = st.unifiedCfgs.length := by
    rw [← h.length_eq, ifaces, List.length_map]
  rw [Bool.eq_iff_iff, unifiedCfgFor, Option.isSome_or, Bool.or_eq_true, isSome_lookup, isSome_sole,
    Statics.unifiedCfgFor, Bool.or_eq_true, decide_eq_true_iff, beq_iff_eq, hlength, ← h.mem_iff]
  rfl

theorem ifaces_setUnifiedCfg (iface : String) (i : ι) :
    (r.setUnifiedCfg iface i).ifaces = iface :: r.ifaces.filter (· ≠ iface) := by
  simp only [ifaces, setUnifiedCfg, List.map_cons, List.filter_map]
  rfl

/-- The map has one configuration for each interface. -/
theorem nodup_setUnifiedCfg (h : r.ifaces.Nodup) (iface : String) (i : ι) :
    (r.setUnifiedCfg iface i).ifaces.Nodup := by
  rw [ifaces_setUnifiedCfg, List.nodup_cons]
  exact ⟨by simp, h.filter _⟩

theorem perm_setUnifiedCfg {l : List String} (hnodup : r.ifaces.Nodup) (h : r.ifaces.Perm l)
    (iface : String) (i : ι) : (r.setUnifiedCfg iface i).ifaces.Perm (l.insert iface) := by
  rw [ifaces_setUnifiedCfg]
  by_cases hmem : iface ∈ r.ifaces
  · have herase : r.ifaces.filter (· ≠ iface) = r.ifaces.erase iface := by
      rw [hnodup.erase_eq_filter]
      exact List.filter_congr fun a _ => by by_cases ha : a = iface <;> simp [ha]
    rw [List.insert_of_mem (h.mem_iff.mp hmem), herase]
    exact (List.perm_cons_erase hmem).symm.trans h
  · rw [List.insert_of_not_mem fun hin => hmem (h.mem_iff.mpr hin)]
    have hfilter : r.ifaces.filter (· ≠ iface) = r.ifaces :=
      List.filter_eq_self.mpr fun a ha => by simpa using fun heq : a = iface => hmem (heq ▸ ha)
    rw [hfilter]
    exact h.cons iface

end Registry

namespace Wired

section Effects

variable {ι : Type} {host : Host ι} {w : Wired ι}

/-- Without the owners, this is the state of the start-up. -/
structure Agrees (w : Wired ι) : Prop where
  nodup : w.registry.ifaces.Nodup
  ifaces : w.registry.ifaces.Perm w.core.shared.unifiedCfgs
  cfg : ∀ i, (w.links i).cfg.isSome = (w.core.threads i).unifiedCfg
  states : w.registry.xdpTxStates.isSome = w.core.shared.xdpTxStates

theorem agrees_start (ι : Type) : Agrees (start ι) :=
  ⟨List.nodup_nil, List.Perm.refl _, fun _ => rfl, rfl⟩

theorem register_cfgs (host : Host ι) (w : Wired ι) (i : ι) (a : Event) :
    (w.register host i a).unifiedCfgs = if a = .configure ∧ host.xdpTx then
      (w.registry.setUnifiedCfg (host.nics i).iface i).unifiedCfgs else w.registry.unifiedCfgs := by
  cases a with
  | configure => by_cases hxdp : host.xdpTx <;> simp [register, hxdp]
  | leave => by_cases htx : 0 < (w.core.threads i).txStates <;> simp [register, htx, Registry.setTxStates]
  | _ => rfl

theorem register_states (host : Host ι) (w : Wired ι) (i : ι) (a : Event) :
    (w.register host i a).xdpTxStates = if a = .leave ∧ 0 < (w.core.threads i).txStates then
      w.registry.xdpTxStates.or (some i) else w.registry.xdpTxStates := by
  cases a with
  | configure => by_cases hxdp : host.xdpTx <;> simp [register, hxdp, Registry.setUnifiedCfg]
  | leave => by_cases htx : 0 < (w.core.threads i).txStates <;> simp [register, htx, Registry.setTxStates]
  | _ => rfl

theorem take_cfg (host : Host ι) (w : Wired ι) (i : ι) (a : Event) :
    (w.take host i a).cfg = if a = .enter then w.registry.unifiedCfgFor (host.nics i).bound
      else (w.links i).cfg := by
  cases a <;> rfl

/-- The rings a stack has are those it had and those a task finds. -/
theorem mem_take_rings {i o : ι} {a : Event} (h : o ∈ (w.take host i a).rings) :
    o ∈ (w.links i).rings ∨ w.registry.xdpTxStates = some o ∧ host.xdpTx = true := by
  cases a with
  | task socket =>
    obtain hfound | hold := List.mem_append.mp h
    · rw [Option.mem_toList, ringsFound] at hfound
      split at hfound
      · cases hfound
      · split at hfound
        · exact .inr ⟨hfound, ‹_›⟩
        · cases hfound
    · exact .inl hold
  | _ => exact .inl h

/-- The TX states that are stored stay. -/
theorem register_states_of_some {o : ι} (h : w.registry.xdpTxStates = some o) (i : ι) (a : Event) :
    (w.register host i a).xdpTxStates = some o := by
  rw [register_states, h]
  split <;> rfl

end Effects

variable {ι : Type} [DecidableEq ι] {host : Host ι} {w w' : Wired ι}
  {e : Threads.Event ι Event Empty}

/-- A step of the process is a step of one stack in the start-up, and what the stack registers and
takes. -/
theorem step_cases (h : w.step host e = some w') :
    ∃ i a t' st', e = .thread i a ∧
      (stackThreads host).step i (w.core.threads i) w.core.shared a = some (t', st') ∧
      w' = ⟨⟨Function.update w.core.threads i t', st'⟩, w.register host i a,
        Function.update w.links i (w.take host i a)⟩ := by
  cases e with
  | thread i a =>
    obtain ⟨core, hcore, rfl⟩ := Option.map_eq_some_iff.mp h
    obtain ⟨j, b, t', st', heq, hstep, rfl⟩ | ⟨k, -⟩ := (stackThreads host).machine_step_cases hcore
    · cases heq
      exact ⟨i, a, t', st', rfl, hstep, rfl⟩
    · exact k.elim
  | env k => exact k.elim

theorem Agrees.step (hw : Agrees w) (h : w.step host e = some w') : Agrees w' := by
  obtain ⟨i, a, t', st', rfl, hstep, rfl⟩ := step_cases h
  obtain ⟨hcfgs, hstates⟩ := statics_of_step hstep
  have hcfg := unifiedCfg_of_step (step_stepped hstep)
  have hregistered : (w.register host i a).ifaces.Nodup ∧
      (w.register host i a).ifaces.Perm st'.unifiedCfgs := by
    rw [Registry.ifaces, register_cfgs, hcfgs]
    split
    · exact ⟨Registry.nodup_setUnifiedCfg hw.nodup _ i,
        Registry.perm_setUnifiedCfg hw.nodup hw.ifaces _ i⟩
    · exact ⟨hw.nodup, hw.ifaces⟩
  refine ⟨hregistered.1, hregistered.2, fun j => ?_, ?_⟩
  · by_cases hj : j = i
    · subst hj
      simp only [Function.update_self]
      rw [take_cfg, hcfg]
      split
      · exact Registry.isSome_unifiedCfgFor hw.ifaces _
      · exact hw.cfg j
    · simpa [hj] using hw.cfg j
  · rw [register_states, hstates, ← hw.states]
    by_cases hleave : a = .leave ∧ 0 < (w.core.threads i).txStates
    · simp [hleave]
    · simp [hleave]

/-! ## Where the owners come from -/

/-- A stack that can come to the split path with a frame header. -/
structure SplitPath (host : Host ι) (i : ι) : Prop where
  hdr : (host.nics i).hdr = true
  bound_ne : host.xdpTx = true → (host.nics i).bound ≠ (host.nics i).iface

/-- What every state of every interleaving has. -/
structure Sound (host : Host ι) (w : Wired ι) : Prop where
  /-- A configuration is kept under its owner's interface. -/
  owner : ∀ p ∈ w.registry.unifiedCfgs, p.1 = (host.nics p.2).iface
  off : host.xdpTx = false → w.registry.unifiedCfgs = []
  /-- A stack sets its configuration first. -/
  own : host.xdpTx = true → ∀ i, (w.core.threads i).pc ≠ .configuring →
    (host.nics i).iface ∈ w.registry.ifaces
  cfg : ∀ i j, (w.links i).cfg = some j → j = i ∨ (host.nics i).bound = (host.nics j).iface
  none : host.xdpTx = true → ∀ i, (w.core.threads i).pc.InLoop →
    (w.core.threads i).unifiedCfg = false → (host.nics i).bound ≠ (host.nics i).iface
  split : ∀ i, 0 < (w.core.threads i).txStates → SplitPath host i
  states : ∀ o, w.registry.xdpTxStates = some o → SplitPath host o
  rings : ∀ i, ∀ o ∈ (w.links i).rings, w.registry.xdpTxStates = some o ∧ host.xdpTx = true

omit [DecidableEq ι] in
theorem sound_start (host : Host ι) : Sound host (start ι) where
  owner p hp := absurd hp List.not_mem_nil
  off _ := rfl
  own _ i hi := absurd rfl hi
  cfg i j h := by cases h
  none _ i hi := absurd hi id
  split i hi := absurd hi (Nat.lt_irrefl 0)
  states o h := by cases h
  rings i o ho := absurd ho List.not_mem_nil

omit [DecidableEq ι] in
/-- A configuration that is looked up belongs to the interface asked for, or is the only one and then the
stack's own. -/
theorem Sound.lookup (hs : Sound host w) (hifaces : Function.Injective fun i => (host.nics i).iface)
    {i j : ι} (hpc : (w.core.threads i).pc ≠ .configuring)
    (h : w.registry.unifiedCfgFor (host.nics i).bound = some j) :
    j = i ∨ (host.nics i).bound = (host.nics j).iface := by
  rcases Option.or_eq_some_iff.mp h with hfound | ⟨-, hsole⟩
  · obtain ⟨l₁, l₂, hl, -⟩ := List.lookup_eq_some_iff.mp hfound
    exact .inr (hs.owner (_, j) (by rw [hl]; simp))
  · obtain ⟨k, hk⟩ : ∃ k, w.registry.unifiedCfgs = [(k, j)] := by
      unfold Registry.sole at hsole
      split at hsole
      · rename_i p hp
        exact ⟨p.1, by rw [hp, ← Option.some.inj hsole]⟩
      · cases hsole
    have hxdp : host.xdpTx = true := by
      by_contra hoff
      rw [hs.off (Bool.eq_false_iff.mpr hoff)] at hk
      cases hk
    have hown := hs.own hxdp i hpc
    have hj := hs.owner (k, j) (by rw [hk]; simp)
    rw [Registry.ifaces, hk] at hown
    exact .inl (hifaces (hj.symm.trans (List.mem_singleton.mp hown).symm))

omit [DecidableEq ι] in
/-- A stack that finds no configuration is bound to another interface than its own. -/
theorem Sound.bound_ne (hs : Sound host w) (hagrees : Agrees w) (hxdp : host.xdpTx = true) {i : ι}
    (hpc : (w.core.threads i).pc ≠ .configuring)
    (h : w.core.shared.unifiedCfgFor (host.nics i).bound = false) :
    (host.nics i).bound ≠ (host.nics i).iface := by
  intro heq
  rw [Statics.unifiedCfgFor, Bool.or_eq_false_iff, decide_eq_false_iff_not, heq] at h
  exact h.1 (hagrees.ifaces.mem_iff.mp (hs.own hxdp i hpc))

omit [DecidableEq ι] in
/-- The registry after a step. -/
theorem Sound.register (hs : Sound host w) (i : ι) (a : Event) :
    (∀ p ∈ (w.register host i a).unifiedCfgs, p.1 = (host.nics p.2).iface) ∧
      (host.xdpTx = false → (w.register host i a).unifiedCfgs = []) ∧
      (∀ iface ∈ w.registry.ifaces, iface ∈ (w.register host i a).ifaces) ∧
      (host.xdpTx = true → a = .configure → (host.nics i).iface ∈ (w.register host i a).ifaces) := by
  rw [Registry.ifaces, Registry.ifaces, register_cfgs]
  split
  · rename_i hset
    refine ⟨fun p hp => ?_, fun hoff => absurd hset.2 (by simp [hoff]), fun iface hiface => ?_,
      fun _ _ => List.mem_cons_self⟩
    · obtain rfl | hp := List.mem_cons.mp hp
      · rfl
      · exact hs.owner p (List.mem_of_mem_filter hp)
    · show iface ∈ (w.registry.setUnifiedCfg _ i).ifaces
      rw [Registry.ifaces_setUnifiedCfg]
      by_cases heq : iface = (host.nics i).iface
      · exact List.mem_cons.mpr (.inl heq)
      · exact List.mem_cons_of_mem _ (List.mem_filter.mpr ⟨hiface, by simpa using heq⟩)
  · rename_i hset
    exact ⟨hs.owner, hs.off, fun _ h => h, fun hxdp ha => absurd ⟨ha, hxdp⟩ hset⟩

/-- What every step keeps. -/
theorem Sound.step (hs : Sound host w) (hagrees : Agrees w)
    (hifaces : Function.Injective fun i => (host.nics i).iface) (h : w.step host e = some w') :
    Sound host w' := by
  obtain ⟨i, a, t', st', rfl, hstep, rfl⟩ := step_cases h
  have hstepped := step_stepped hstep
  obtain ⟨hpc', hconfigure, henter, hloop⟩ := pc_of_step hstepped
  have hcfg := unifiedCfg_of_step hstepped
  obtain ⟨howner, hoff, hkept, hset⟩ := hs.register i a
  have hsplit : 0 < t'.txStates → SplitPath host i := by
    intro hpos
    by_cases hnew : (w.core.threads i).txStates < t'.txStates
    · obtain ⟨hhdr, hnone, hin⟩ := txStates_of_step hstepped hnew
      exact ⟨hhdr, fun hxdp => hs.none hxdp i hin hnone⟩
    · exact hs.split i (by omega)
  refine ⟨howner, hoff, fun hxdp j => ?_, fun j => ?_, fun hxdp j => ?_, fun j => ?_, ?_, fun j => ?_⟩
  · -- the interface of a stack that has configured
    by_cases hj : j = i
    · subst hj
      intro _
      by_cases ha : a = .configure
      · exact hset hxdp ha
      · exact hkept _ (hs.own hxdp j fun hpc => ha (hconfigure.mp hpc))
    · intro hpc
      exact hkept _ (hs.own hxdp j (by simpa [hj] using hpc))
  · -- the configuration it took
    by_cases hj : j = i
    · subst hj
      simp only [Function.update_self]
      rw [take_cfg]
      split
      · rename_i ha
        exact fun k hk => hs.lookup hifaces (by simp [henter ha]) hk
      · exact hs.cfg j
    · simpa [hj] using hs.cfg j
  · -- and that it did not find
    by_cases hj : j = i
    · subst hj
      simp only [Function.update_self]
      intro hin hnone
      rw [hcfg] at hnone
      obtain rfl | ⟨ha, hbefore⟩ := hloop hin
      · exact hs.bound_ne hagrees hxdp (by simp [henter rfl]) (by simpa using hnone)
      · exact hs.none hxdp j hbefore (by simpa [ha] using hnone)
    · simpa [hj] using hs.none hxdp j
  · by_cases hj : j = i
    · subst hj
      simpa using hsplit
    · simpa [hj] using hs.split j
  · -- the TX states are stored once
    intro o ho
    rw [register_states] at ho
    split at ho
    · rename_i hleave
      obtain hold | ⟨-, hnew⟩ := Option.or_eq_some_iff.mp ho
      · exact hs.states o hold
      · cases hnew
        exact hs.split i hleave.2
    · exact hs.states o ho
  · by_cases hj : j = i
    · subst hj
      intro o ho
      simp only [Function.update_self] at ho
      obtain hold | hfound := mem_take_rings ho
      · obtain ⟨hstates, hxdp⟩ := hs.rings j o hold
        exact ⟨register_states_of_some hstates j a, hxdp⟩
      · exact ⟨register_states_of_some hfound.1 j a, hfound.2⟩
    · intro o ho
      simp only [Function.update_of_ne hj] at ho
      obtain ⟨hstates, hxdp⟩ := hs.rings j o ho
      exact ⟨register_states_of_some hstates i a, hxdp⟩

/-- Every interleaving with owners is an interleaving of the start-up. -/
theorem run_core {es : List (Threads.Event ι Event Empty)} (h : (machine host).run w es = some w') :
    (stackThreads host).machine.run w.core es = some w'.core := by
  have hrun := (machine host).run_map (stackThreads host).machine Wired.core id
    (fun w e w' hstep => ?_) h
  · simpa using hrun
  · obtain ⟨i, a, t', st', rfl, hcore, rfl⟩ := step_cases hstep
    exact (stackThreads host).machine_step_thread hcore

/-- Stack `o` stores its TX states in the empty `OnceLock`. -/
def FillsFirst (o : ι) (w : Wired ι) (e : Threads.Event ι Event Empty) : Prop :=
  e = .thread o .leave ∧ w.registry.xdpTxStates = none ∧ 0 < (w.core.threads o).txStates

/-- The first stack to store its TX states is their owner, -/
theorem states_of_fillsFirst {o : ι} (hfirst : FillsFirst o w e) (h : w.step host e = some w') :
    w'.registry.xdpTxStates = some o := by
  obtain ⟨rfl, hnone, hpos⟩ := hfirst
  obtain ⟨i, a, t', st', heq, -, rfl⟩ := step_cases h
  cases heq
  show (w.register host o .leave).xdpTxStates = some o
  rw [register_states, if_pos ⟨rfl, hpos⟩, hnone]
  rfl

/-- and an owner was the first. -/
theorem fillsFirst_of_states {o : ι} (h : w.step host e = some w')
    (hstates : w'.registry.xdpTxStates = some o) :
    w.registry.xdpTxStates = some o ∨ FillsFirst o w e := by
  obtain ⟨i, a, t', st', rfl, -, rfl⟩ := step_cases h
  rw [register_states] at hstates
  split at hstates
  · rename_i hleave
    obtain ⟨rfl, hpos⟩ := hleave
    obtain hold | ⟨hnone, hnew⟩ := Option.or_eq_some_iff.mp hstates
    · exact .inl hold
    · cases hnew
      exact .inr ⟨rfl, hnone, hpos⟩
  · exact .inl hstates

/-- For every host whose stacks have interfaces of their own and every interleaving of their start-up, a
stack's workers run under its own configuration or under that of a stack whose interface it is bound to.
All sender tasks of all stacks that send over TX rings send over those of one stack.  This stack is bound to
another interface than its own, and it is the one that filled the `OnceLock` first. -/
theorem wiring (host : Host ι) (hifaces : Function.Injective fun i => (host.nics i).iface)
    (es : List (Threads.Event ι Event Empty)) (w : Wired ι)
    (hrun : (machine host).run (start ι) es = some w) :
    (stackThreads host).machine.run (Startup.start ι) es = some w.core ∧ Agrees w ∧
      (∀ i j, (w.links i).cfg = some j → j = i ∨ (host.nics i).bound = (host.nics j).iface) ∧
      (∀ i j o o', o ∈ (w.links i).rings → o' ∈ (w.links j).rings → o = o') ∧
      ∀ i o, o ∈ (w.links i).rings →
        (host.nics o).hdr = true ∧ (host.nics o).bound ≠ (host.nics o).iface ∧
          ∀ o', (machine host).Sometimes (FillsFirst o') (start ι) es ↔ o' = o := by
  obtain ⟨hagrees, hs⟩ := (machine host).run_invariant (I := fun w => Agrees w ∧ Sound host w)
    (fun w e w' hw hstep => ⟨hw.1.step hstep, hw.2.step hw.1 hifaces hstep⟩)
    ⟨agrees_start ι, sound_start host⟩ hrun
  refine ⟨run_core hrun, hagrees, hs.cfg, fun i j o o' ho ho' => ?_, fun i o ho => ?_⟩
  · exact Option.some.inj ((hs.rings i o ho).1.symm.trans (hs.rings j o' ho').1)
  · obtain ⟨hstates, hxdp⟩ := hs.rings i o ho
    refine ⟨(hs.states o hstates).hdr, (hs.states o hstates).bound_ne hxdp, fun o' => ⟨fun hfirst => ?_, ?_⟩⟩
    · have hstored := (machine host).run_of_sometimes
        (Q := fun w => w.registry.xdpTxStates = some o')
        (fun _ _ _ hstep hfirst => states_of_fillsFirst hfirst hstep)
        (fun w e w' hw hstep => by
          obtain ⟨i, a, t', st', rfl, -, rfl⟩ := step_cases hstep
          exact register_states_of_some hw i a)
        hfirst hrun
      exact Option.some.inj (hstored.symm.trans hstates)
    · rintro rfl
      exact (machine host).sometimes_of_run (P := fun w => w.registry.xdpTxStates = some o')
        (fun _ _ _ hstep hw => fillsFirst_of_states hstep hw) nofun hrun hstates

end Wired

/-- A core on each of two nodes, and a VLAN on a NIC of each: tagged frames are sent on the parents. -/
def twoVlans : Host (Fin 2) where
  topo := ⟨[0, 1], nodup_twoCores, fun c => some c⟩
  nics i := if i = 0 then ⟨"eth0.10", "eth0", some 0, true, 1⟩ else ⟨"eth1.20", "eth1", some 1, true, 1⟩
  hwQueueCount _ := 1
  xdpTx := true

/-- Both stacks set their configurations, then the first one starts and then the second. -/
def oneAfterTheOther : List (Threads.Event (Fin 2) Event Empty) :=
  [.thread 0 .configure, .thread 1 .configure,
    .thread 0 .enter, .thread 0 .reserve, .thread 0 .spawn, .thread 0 .leave, .thread 0 (.task true),
    .thread 1 .enter, .thread 1 .reserve, .thread 1 .spawn, .thread 1 .leave, .thread 1 (.task true)]

theorem injective_twoVlans : Function.Injective fun i => (twoVlans.nics i).iface := by decide

/-- The sender task of the second stack sends over the rings of the first, to the first one's server: the
first stack filled the `OnceLock`, and the second did not. -/
theorem wiring_twoVlans :
    ∃ w, (Wired.machine twoVlans).run (Wired.start (Fin 2)) oneAfterTheOther = some w ∧
      (w.links 0).rings = [0] ∧ (w.links 1).rings = [0] ∧
      (Wired.machine twoVlans).Sometimes (Wired.FillsFirst 0) (Wired.start (Fin 2)) oneAfterTheOther ∧
      ¬ (Wired.machine twoVlans).Sometimes (Wired.FillsFirst 1) (Wired.start (Fin 2)) oneAfterTheOther := by
  refine ⟨_, rfl, rfl, rfl, ?_⟩
  obtain ⟨-, -, hfirst⟩ := (Wired.wiring twoVlans injective_twoVlans oneAfterTheOther _ rfl).2.2.2.2 1 0
    List.mem_cons_self
  exact ⟨(hfirst 0).mpr rfl, fun h => absurd ((hfirst 1).mp h) (by decide)⟩

end Dnsmark.Xdp.Startup
