import Dnsmark.Common.Registration
import Dnsmark.Udp.Throughput

/-!
# Registration order in the kernel-UDP flood path

In ramp mode the sender hands a batch to the kernel and only then inserts its ids, with the time it
read before the call.  A `Link` puts a pair of threads in front of a server that answers every query
exactly once, under the same assumptions as `Xdp.Net`: the clock of the pair does not go back, a
reply is received before the horizon of its query, and no id is handed over while it is registered
or about to be.

Again a reply is matched if and only if its id was inserted before; and if that holds of every
reply, no slot expires and no reply counts as too late.
-/

namespace Dnsmark.Udp.Flood

open Dnsmark.Stats Dnsmark.Inflight Registration

/-- The ids the sender has handed to the kernel and not inserted yet. -/
def TxPc.awaiting : TxPc → List QueryId
  | .register ids _ => ids
  | _ => []

/-- The stamp with which the sender inserts what it awaits. -/
def TxPc.stamp : TxPc → ℕ
  | .register _ sendNs => max sendNs 1
  | _ => 0

/-- The ids of `owed` that the sender still has to insert get a stamp that is not late. -/
def TxPc.Timely (late : ℕ → Bool) (owed : Finset QueryId) (pc : TxPc) : Prop :=
  ∀ id ∈ pc.awaiting, id ∈ owed → late pc.stamp = false

instance (late : ℕ → Bool) (owed : Finset QueryId) (pc : TxPc) : Decidable (pc.Timely late owed) :=
  List.decidableBAll (fun id => id ∈ owed → late pc.stamp = false) pc.awaiting

/-- Nothing is awaited. -/
theorem TxPc.timely_of_none {late : ℕ → Bool} {owed : Finset QueryId} {pc : TxPc}
    (h : pc.awaiting = []) : pc.Timely late owed := by
  simp [TxPc.Timely, h]

/-- The clock reading of an act, on the clock the two threads share. -/
def Act.clock? : Act → Option ℕ
  | .tx (.batch t _) => some t
  | .rx (.startSweep t) => some t
  | .rx (.datagram _ t) => some t
  | _ => none

/-- The query a received datagram answers. -/
def Act.reply? : Act → Option QueryId
  | .rx (.datagram msg _) => datagramId (msg.take maxMsgSize)
  | _ => none

/-- The ids an act hands to the kernel. -/
def Act.handed (p' : Pair) : Act → List QueryId
  | .tx (.batch _ _) => p'.tx.pc.awaiting
  | _ => []

/-- A stamp has reached the horizon. -/
def late (cfg : Config) (t v : ℕ) : Bool := Table.stale .sharedInFlight cfg.latHorizonNs t v

/-- One pair, the server's debts to it, the time, and how many replies found no slot. -/
structure Link where
  pair : Pair
  unanswered : Finset QueryId
  clock : ℕ
  missed : ℕ

namespace Link

variable {cfg : Config}

/-- The ids the sender awaits. -/
abbrev awaiting (s : Link) (_ : Unit) : List QueryId := s.pair.tx.pc.awaiting

/-- No outstanding query has reached its horizon at time `t`, which is not in the past. -/
def Punctual (cfg : Config) (s : Link) (t : ℕ) : Prop :=
  s.clock ≤ t ∧ (∀ id ∈ s.unanswered, s.pair.slots id ≠ 0 → late cfg t (s.pair.slots id) = false) ∧
    s.pair.tx.pc.Timely (late cfg t) s.unanswered

/-- What is assumed of a step that leaves the pair at `p'`. -/
def Fair (cfg : Config) (s : Link) (p' : Pair) (a : Act) : Prop :=
  (∀ t ∈ a.clock?, s.Punctual cfg t ∧ p'.tx.pc.Timely (late cfg t) (a.handed p').toFinset) ∧
    (∀ id ∈ a.reply?, id ∈ s.unanswered) ∧
    (a.handed p').Nodup ∧ ∀ id ∈ a.handed p', s.pair.slots id = 0 ∧ ∀ j, id ∉ s.awaiting j

-- the instances are given by hand: the default one would enumerate all ids
instance (s : Link) (t : ℕ) : Decidable (s.Punctual cfg t) :=
  @instDecidableAnd _ _ _ (@instDecidableAnd _ _ Finset.decidableDforallFinset _)

instance (s : Link) (p' : Pair) (a : Act) : Decidable (s.Fair cfg p' a) :=
  @instDecidableAnd _ _ (Option.decidableForallMem _) <|
    @instDecidableAnd _ _ (Option.decidableForallMem _) <|
      @instDecidableAnd _ _ _ (List.decidableBAll _ _)

/-- The link after act `a`, which left the pair at `p'`. -/
def after (s : Link) (a : Act) (p' : Pair) : Link where
  pair := p'
  unanswered := a.reply?.elim s.unanswered s.unanswered.erase ∪ (a.handed p').toFinset
  clock := a.clock?.getD s.clock
  missed := s.missed + a.reply?.elim 0 fun id => if s.pair.slots id = 0 then 1 else 0

/-- A fair step of one of the two threads. -/
def step (cfg : Config) (s : Link) (m : Shared) (a : Act) : Option (Link × Shared) :=
  match s.pair.step cfg m a with
  | some (p', m') => if s.Fair cfg p' a then some (s.after a p', m') else none
  | none => none

def new (nextId : QueryId) : Link := ⟨.new nextId, ∅, 0, 0⟩

/-- A reply is matched only after the sender has inserted its query. -/
def RegisteredFirst (s : Link) (a : Act) : Prop := ∀ id ∈ a.reply?, ∀ j, id ∉ s.awaiting j

instance (s : Link) (a : Act) : Decidable (s.RegisteredFirst a) := Option.decidableForallMem _

theorem step_cases {s s' : Link} {m m' : Shared} {a : Act} (h : s.step cfg m a = some (s', m')) :
    ∃ p', s.pair.step cfg m a = some (p', m') ∧ s.Fair cfg p' a ∧ s' = s.after a p' := by
  unfold step at h
  split at h
  · rename_i p' m'' hp
    split at h
    · cases h
      exact ⟨p', hp, ‹_›, rfl⟩
    · cases h
  · cases h

/-! ## What a step keeps -/

/-- The receiver has swept nothing. -/
def Calm (cfg : Config) (clock : ℕ) : RxPc → Prop
  | .sweep sc => sc.n = 0 ∧ sc.nowNs ≤ clock ∧ sc.timeoutNs = cfg.latHorizonNs
  | .timeouts expired => expired = 0
  | _ => True

theorem Calm.mono {clock clock' : ℕ} (hle : clock ≤ clock') {pc : RxPc} (h : Calm cfg clock pc) :
    Calm cfg clock' pc := by
  cases pc with
  | sweep sc => exact ⟨h.1, h.2.1.trans hle, h.2.2⟩
  | timeouts _ => exact h
  | _ => trivial

/-- Every outstanding query is awaited or registered and in time, nothing was missed or swept. -/
structure Good (cfg : Config) (s : Link) : Prop where
  isOpen : Open (late cfg s.clock) s.pair.slots s.awaiting s.unanswered
  timely : s.pair.tx.pc.Timely (late cfg s.clock) s.unanswered
  found : s.missed = 0
  calm : Calm cfg s.clock s.pair.rx.pc

theorem good_new (nextId : QueryId) : Good cfg (new nextId) where
  isOpen := Open.start
  timely := by simp [TxPc.Timely, TxPc.awaiting, new, Pair.new, Tx.new]
  found := rfl
  calm := trivial

variable {s : Link} {a : Act} {p' : Pair} {m m' : Shared}

theorem Fair.clock_le (hf : s.Fair cfg p' a) : s.clock ≤ a.clock?.getD s.clock := by
  cases ht : a.clock? with
  | none => exact le_refl _
  | some t => exact (hf.1 t ht).1.1

/-- Nothing registered reaches its horizon at a fair step. -/
theorem Fair.isOpen (hf : s.Fair cfg p' a) (hs : Good cfg s) :
    Open (late cfg (a.clock?.getD s.clock)) s.pair.slots s.awaiting s.unanswered := by
  cases ht : a.clock? with
  | none => exact hs.isOpen
  | some t => exact hs.isOpen.wait (hf.1 t ht).1.2.1

/-- Nothing awaited reaches its horizon at a fair step. -/
theorem Fair.timely (hf : s.Fair cfg p' a) (hs : Good cfg s) :
    s.pair.tx.pc.Timely (late cfg (a.clock?.getD s.clock)) s.unanswered := by
  cases ht : a.clock? with
  | none => exact hs.timely
  | some t => exact (hf.1 t ht).1.2.2

/-- A fair step is good when it keeps the table and the awaited ids right and sweeps nothing. -/
theorem Good.after (hs : Good cfg s)
    (hopen : Open (late cfg (a.clock?.getD s.clock)) p'.slots (fun _ : Unit => p'.tx.pc.awaiting)
      (a.reply?.elim s.unanswered s.unanswered.erase ∪ (a.handed p').toFinset))
    (htimely : p'.tx.pc.Timely (late cfg (a.clock?.getD s.clock))
      (a.reply?.elim s.unanswered s.unanswered.erase ∪ (a.handed p').toFinset))
    (hfound : ∀ id ∈ a.reply?, s.pair.slots id ≠ 0)
    (hcalm : Calm cfg (a.clock?.getD s.clock) p'.rx.pc) : Good cfg (s.after a p') where
  isOpen := hopen
  timely := htimely
  found := by
    cases hr : a.reply? with
    | none => simp [Link.after, hr, hs.found]
    | some id => simp [Link.after, hr, hs.found, hfound id hr]
  calm := hcalm

/-- A fair step that touches neither the table nor what is awaited. -/
theorem Good.silent (hs : Good cfg s) (hf : s.Fair cfg p' a) (hreply : a.reply? = none)
    (hhanded : a.handed p' = []) (hslots : p'.slots = s.pair.slots)
    (hawait : p'.tx.pc.awaiting = s.pair.tx.pc.awaiting)
    (htimely : p'.tx.pc.Timely (late cfg (a.clock?.getD s.clock)) s.unanswered)
    (hcalm : Calm cfg (a.clock?.getD s.clock) p'.rx.pc) : Good cfg (s.after a p') := by
  refine hs.after ?_ ?_ (by simp [hreply]) hcalm
  · rw [hslots, hawait, hreply, hhanded]
    simpa using hf.isOpen hs
  · rw [hreply, hhanded]
    simpa using htimely

/-- A pair has one sender. -/
theorem update_awaiting (ids : List QueryId) : Function.update s.awaiting () ids = fun _ => ids :=
  funext fun _ => Function.update_self ..

/-- Every fair step of the sender keeps a good link good. -/
theorem good_tx {b : TxAct} {t' : Tx} {slots' : SlotTable QueryId} (hs : Good cfg s)
    (hf : s.Fair cfg ⟨t', s.pair.rx, slots'⟩ (.tx b))
    (h : Tx.Stepped cfg s.pair.tx s.pair.slots m b t' slots' m') :
    Good cfg (s.after (.tx b) ⟨t', s.pair.rx, slots'⟩) := by
  have hcalm := hs.calm.mono hf.clock_le
  cases h with
  | checkShutdown pc' hpc hpc' =>
    have hnone : pc'.awaiting = [] := by
      rw [hpc']
      split <;> rfl
    refine hs.silent hf rfl rfl rfl ?_ (TxPc.timely_of_none hnone) hcalm
    rw [hpc]
    exact hnone
  | batch sendNs sent hpc hsent =>
    have hnone : s.awaiting () = [] := by simp [awaiting, TxPc.awaiting, hpc]
    refine hs.after ?_ ?_ (by simp [Act.reply?]) hcalm
    · have hopen := (hf.isOpen hs).send hnone hf.2.2.1 hf.2.2.2
      rwa [update_awaiting] at hopen
    · -- what is awaited now is what was handed over just now
      exact fun id hid _ => (hf.1 sendNs rfl).2 id hid (List.mem_toFinset.mpr hid)
  | notDue hpc =>
    exact hs.silent hf rfl rfl rfl (by simp [TxPc.awaiting, hpc]) (TxPc.timely_of_none rfl) hcalm
  | insert id ids sendNs hpc =>
    have hnext : s.awaiting () = id :: ids := by simp [awaiting, TxPc.awaiting, hpc]
    have hid : id ∈ s.awaiting () := by simp [hnext]
    have hstamp : late cfg s.clock (max sendNs 1) = false := by
      simpa [TxPc.stamp, hpc] using hs.timely id hid (hs.isOpen.awaited () id hid)
    refine hs.after ?_ ?_ (by simp [Act.reply?]) hcalm
    · have hopen := (hf.isOpen hs).register hnext (show max sendNs 1 ≠ 0 by omega) hstamp
      rw [update_awaiting] at hopen
      simpa [Act.reply?, Act.handed, Inflight.insert, TxPc.awaiting] using hopen
    · -- the rest of the batch has the same stamp
      exact fun _ _ _ => hstamp
  | flush _ _ hpc | noFlush _ _ hpc | exit _ hpc =>
    exact hs.silent hf rfl rfl rfl (by simp [TxPc.awaiting, hpc]) (TxPc.timely_of_none rfl) hcalm

/-- A reply that is in time and whose id is registered is matched, and counts as no timeout. -/
theorem matchReply_of_fresh {slots : SlotTable QueryId} {id : QueryId} {recvNs : ℕ} (st : StatsCollector)
    (hid : slots id ≠ 0) (hfresh : late cfg recvNs (slots id) = false) :
    (Rx.matchReply cfg slots st id recvNs).1 = slots.clear id ∧
      (Rx.matchReply cfg slots st id recvNs).2.timeouts = st.timeouts := by
  have hage : recvNs - slots id ≤ cfg.latHorizonNs := by
    simp only [late, Table.stale, decide_eq_false_iff_not] at hfresh
    omega
  constructor
  · simp [Rx.matchReply, takeFreed, hid]
  · simp [Rx.matchReply, takeRtt, hid, report, Table.rtt, hage, StatsCollector.recordLatencyUs]

/-- Every fair step of the receiver keeps a good link good, and counts no timeout, if the reply it
matches was registered. -/
theorem good_rx (hlat : cfg.trackLatency = true) {b : RxAct} {r' : Rx} {slots' : SlotTable QueryId}
    (hs : Good cfg s) (hf : s.Fair cfg ⟨s.pair.tx, r', slots'⟩ (.rx b))
    (h : Rx.Stepped cfg s.pair.rx s.pair.slots m b r' slots' m') (hC : s.RegisteredFirst (.rx b)) :
    Good cfg (s.after (.rx b) ⟨s.pair.tx, r', slots'⟩) ∧ m'.stats.timeouts = m.stats.timeouts := by
  have hcalm := hs.calm
  have htimely := hf.timely hs
  cases h with
  | checkShutdown pc' hpc hpc' =>
    refine ⟨hs.silent hf rfl rfl rfl rfl htimely ?_, rfl⟩
    rw [hpc']
    split <;> trivial
  | startSweep nowNs hpc =>
    exact ⟨hs.silent hf rfl rfl rfl rfl htimely ⟨rfl, le_refl _, rfl⟩, rfl⟩
  | noSweep hpc | noDatagrams hpc | datagrams hpc | noFlush hpc =>
    exact ⟨hs.silent hf rfl rfl rfl rfl htimely trivial, rfl⟩
  | sweepStep sc sc' freed hpc hsc =>
    rw [hpc] at hcalm
    obtain ⟨rfl, hn, hnow, hto⟩ := Scan.step_of_fresh hsc hcalm.2.1 fun id hid => by
      rw [hcalm.2.2]
      exact hs.isOpen.not_late hid
    refine ⟨hs.silent hf rfl rfl rfl rfl htimely ?_, rfl⟩
    exact ⟨hn.trans hcalm.1, hnow ▸ hcalm.2.1, hto.trans hcalm.2.2⟩
  | endSweep sc hpc =>
    rw [hpc] at hcalm
    exact ⟨hs.silent hf rfl rfl rfl rfl htimely hcalm.1, rfl⟩
  | countTimeouts expired hpc =>
    rw [hpc] at hcalm
    obtain rfl : expired = 0 := hcalm
    exact ⟨hs.silent hf rfl rfl rfl rfl htimely trivial, rfl⟩
  | datagram msg recvNs hpc =>
    have hpc' : (s.pair.rx.datagram cfg s.pair.slots m msg recvNs).1.pc = .matching :=
      (Rx.datagram_pc ..).trans hpc
    have hcalm' : Calm cfg recvNs (s.pair.rx.datagram cfg s.pair.slots m msg recvNs).1.pc := by
      rw [hpc']
      trivial
    cases hid : datagramId (msg.take maxMsgSize) with
    | none =>
      have hsame := Rx.datagram_of_none cfg hid s.pair.rx s.pair.slots m recvNs
      refine ⟨hs.silent hf hid rfl ?_ rfl htimely hcalm', ?_⟩
      · exact congrArg Prod.fst hsame
      · rw [hsame]
    | some id =>
      have hreply : (Act.rx (.datagram msg recvNs)).reply? = some id := hid
      have hmatch := Rx.datagram_of_some hlat hid s.pair.rx s.pair.slots m recvNs
      have hreg := hC id hid
      have hfound : s.pair.slots id ≠ 0 := hs.isOpen.found (hf.2.1 id hid) hreg
      have hopen : Open (late cfg recvNs) s.pair.slots s.awaiting s.unanswered := hf.isOpen hs
      obtain ⟨hclear, htime⟩ := matchReply_of_fresh m.stats hfound (hopen.fresh id hfound)
      refine ⟨hs.after ?_ ?_ ?_ hcalm', ?_⟩
      · rw [hmatch, hclear, hreply]
        simp only [Act.handed, List.toFinset_nil, Finset.union_empty, Option.elim_some]
        exact hopen.receive hreg
      · rw [hreply]
        simp only [Act.handed, List.toFinset_nil, Finset.union_empty, Option.elim_some]
        exact fun id' hid' howed => htimely id' hid' (Finset.mem_of_mem_erase howed)
      · rintro id' hid'
        obtain rfl : id = id' := Option.some.inj (hreply.symm.trans hid')
        exact hfound
      · rw [hmatch]
        exact htime
  | flush hpc =>
    exact ⟨hs.silent hf rfl rfl rfl rfl htimely trivial, StatsCollector.recordRcodes_timeouts ..⟩
  | exit hpc =>
    refine ⟨hs.silent hf rfl rfl rfl rfl htimely trivial, ?_⟩
    simp only
    split <;> simp

/-- Every fair step of a pair keeps a good link good and counts no timeout, if the reply it matches,
if any, was registered. -/
theorem good_step (hlat : cfg.trackLatency = true) {s' : Link} (hs : Good cfg s)
    (h : s.step cfg m a = some (s', m')) (hC : s.RegisteredFirst a) :
    Good cfg s' ∧ m'.stats.timeouts = m.stats.timeouts := by
  obtain ⟨p', hp, hf, rfl⟩ := step_cases h
  rcases Pair.step_cases hp with ⟨b, t', slots', rfl, hst, rfl⟩ | ⟨b, r', slots', rfl, hst, rfl⟩
  · refine ⟨good_tx hs hf hst, ?_⟩
    cases hst with
    | exit =>
      simp only
      split <;> rfl
    | _ => rfl
  · exact good_rx hlat hs hf hst hC

/-- A reply to a query that is not registered yet is missed. -/
theorem missed_of_not_registeredFirst {s' : Link} (hs : Good cfg s) (h : s.step cfg m a = some (s', m'))
    (hC : ¬ s.RegisteredFirst a) : s'.missed ≠ 0 := by
  obtain ⟨p', -, -, rfl⟩ := step_cases h
  simp only [RegisteredFirst, not_forall] at hC
  obtain ⟨id, hid, hawait⟩ := hC
  have hempty : s.pair.slots id = 0 := hs.isOpen.missed (by simpa using hawait)
  simp [Link.after, Option.mem_def.mp hid, hempty]

end Link

/-! ## Every worker -/

/-- `N` pairs, each in front of its server, and the collector they share. -/
def links (cfg : Config) (N : ℕ) : Threads (Fin N) Link Shared Act Empty where
  step _ s m a := s.step cfg m a
  env _ _ k := k.elim

/-- The states of `N` links. -/
abbrev Links (N : ℕ) := Threads.State (Fin N) Link Shared

namespace Links

variable {cfg : Config} {N : ℕ}

/-- Nothing sent yet; `ids` are the random first ids. -/
def start (ids : Fin N → QueryId) : Links N := ⟨fun i => .new (ids i), .new⟩

/-- The workers, without their servers. -/
def forget (s : Links N) : State N := ⟨fun i => (s.threads i).pair, s.shared⟩

/-- A run of the links is a run of the workers. -/
theorem run_forget {s s' : Links N} {es : List (Threads.Event (Fin N) Act Empty)}
    (h : (links cfg N).machine.run s es = some s') :
    (workers cfg N).machine.run (forget s) (es.map fun
      | .thread i a => .thread i a
      | .env k => k.elim) = some (forget s') := by
  refine Machine.run_map _ _ forget _ ?_ h
  intro s e s' hstep
  obtain ⟨i, a, l', m', rfl, hl, rfl⟩ | ⟨k, -⟩ := (links cfg N).machine_step_cases hstep
  · obtain ⟨p', hp, -, rfl⟩ := Link.step_cases hl
    have hpairs : (fun j => (Function.update s.threads i ((s.threads i).after a p') j).pair)
        = Function.update (fun j => (s.threads j).pair) i p' := by
      funext j
      by_cases hj : j = i
      · subst hj
        simp [Link.after]
      · simp [Function.update_of_ne hj]
    simp only [forget, hpairs]
    exact Threads.machine_step_thread _ hp
  · exact k.elim

/-- No reply was missed and no query counted as a timeout. -/
def Clean (s : Links N) : Prop := (∀ i, (s.threads i).missed = 0) ∧ s.shared.stats.timeouts = 0

/-- A reply is matched only after its sender has inserted its query. -/
def RegisteredFirst (s : Links N) : Threads.Event (Fin N) Act Empty → Prop
  | .thread i a => (s.threads i).RegisteredFirst a
  | .env _ => True

instance (s : Links N) : (e : Threads.Event (Fin N) Act Empty) → Decidable (RegisteredFirst s e)
  | .thread i a => inferInstanceAs (Decidable ((s.threads i).RegisteredFirst a))
  | .env _ => .isTrue trivial

/-- Every link is good and nothing was counted as a timeout. -/
def Good (cfg : Config) (s : Links N) : Prop :=
  (∀ i, Link.Good cfg (s.threads i)) ∧ s.shared.stats.timeouts = 0

theorem good_step (hlat : cfg.trackLatency = true) {s s' : Links N} {e : Threads.Event (Fin N) Act Empty}
    (hs : Good cfg s) (h : (links cfg N).machine.step s e = some s') (hC : RegisteredFirst s e) :
    Good cfg s' := by
  obtain ⟨i, a, l', m', rfl, hstep, rfl⟩ | ⟨k, -⟩ := (links cfg N).machine_step_cases h
  · obtain ⟨hgood, htime⟩ := Link.good_step hlat (hs.1 i) hstep hC
    exact ⟨(Function.forall_update_iff s.threads fun _ => Link.Good cfg).mpr ⟨hgood, fun j _ => hs.1 j⟩,
      htime.trans hs.2⟩
  · exact k.elim

theorem not_clean_of_not_registeredFirst {s s' : Links N} {e : Threads.Event (Fin N) Act Empty}
    (hs : Good cfg s) (h : (links cfg N).machine.step s e = some s') (hC : ¬ RegisteredFirst s e) :
    ¬ Clean s' := by
  obtain ⟨i, a, l', m', rfl, hstep, rfl⟩ | ⟨k, -⟩ := (links cfg N).machine_step_cases h
  · rintro ⟨hmissed, -⟩
    refine Link.missed_of_not_registeredFirst (hs.1 i) hstep hC ?_
    simpa using hmissed i
  · exact k.elim

/-- In every run of any number of pairs under these assumptions no reply is missed and nothing is
counted as a timeout, if and only if every reply is matched after its id was inserted. -/
theorem always_clean_iff (hlat : cfg.trackLatency = true) {ids : Fin N → QueryId}
    {es : List (Threads.Event (Fin N) Act Empty)} {s : Links N}
    (hrun : (links cfg N).machine.run (start ids) es = some s) :
    (links cfg N).machine.Always Clean (start ids) es ↔
      (links cfg N).machine.Meets RegisteredFirst (start ids) es := by
  refine (links cfg N).machine.always_iff_meets (I := Good cfg) ?_ ?_ ?_ ?_ hrun
  · exact fun s hs => ⟨fun i => (hs.1 i).found, hs.2⟩
  · exact fun s e s' hs h hC => good_step hlat hs h hC
  · exact fun s e s' hs h hC => not_clean_of_not_registeredFirst hs h hC
  · exact ⟨fun i => Link.good_new (ids i), rfl⟩

end Links

end Dnsmark.Udp.Flood
