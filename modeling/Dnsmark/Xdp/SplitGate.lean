import Dnsmark.Xdp.Gate
import Dnsmark.Xdp.ReplyPath
import Dnsmark.Xdp.SplitPath

/-!
# The gate of the split path

The senders add to `global_in_flight` up to a thousand sends late, the receivers subtract at once and
stop at zero.  The account is the one of the unified workers: the counter, plus what the threads still
have to add, less what they still have to subtract, less the occupied slots.  What a sender has to add
now includes all of `local_sent`.

The drift grows at an `insert` over an occupied slot and at a `saturating_sub` that finds less than it
wants to subtract, and it never shrinks.  Replies are subtracted long before their sends are added, so
the second is no rare race here: `stalled_after_flush` is a run of one sender and one receiver in which
every query is answered at once, and which ends with the gate shut and nothing in flight.
-/

namespace Dnsmark.Xdp.Split

open Dnsmark.Inflight Dnsmark.Engine

/-- What a sender has registered and not yet added to `global_in_flight`. -/
def Tx.owed (t : Tx) : ℤ :=
  t.localSent +
    match t.pc with
    | .register ids sent => (sent : ℤ) - ids.length
    | _ => 0

/-- What a receiver has taken out of the table and not yet subtracted from `global_in_flight`. -/
def RxPc.pending : RxPc → ℕ
  | .matching completed => completed
  | .sweep sc => sc.n
  | .timeouts expired => expired
  | .releaseExpired expired => expired
  | _ => 0

/-- What a thread has still to add (negative: to subtract). -/
def Thread.owed : Thread → ℤ
  | .tx t => t.owed
  | .rx pc => -pc.pending

/-- Everything a sender registered has been added. -/
def Tx.Flushed (t : Tx) : Prop := t.localSent = 0 ∧ ∀ ids sent, t.pc ≠ .register ids sent

/-- The step loses no adjustment: an insert finds its slot empty, a subtraction what it subtracts. -/
def Thread.LosesNothing (th : Thread) (m : Shared) (a : Act) : Prop :=
  match th, a with
  | .tx ⟨.register (id :: _) _, _, _⟩, .tx (.insert _) => m.slots id = 0
  | .rx (.matching completed), .rx .endFrames => completed ≤ m.globalInFlight
  | .rx (.releaseExpired expired), .rx .releaseExpired => expired ≤ m.globalInFlight
  | _, _ => True

/-- By how much a step lets the drift grow. -/
def growth (th th' : Thread) (m m' : Shared) : ℤ :=
  Threads.growth (fun m : Shared => (m.globalInFlight : ℤ) - m.slots.occupancy) Thread.owed th th' m m'

theorem Tx.owed_of_ne_register {t : Tx} (h : ∀ ids sent, t.pc ≠ .register ids sent) :
    t.owed = t.localSent := by
  obtain ⟨pc, idCtr, localSent⟩ := t
  cases pc with
  | register ids sent => exact absurd rfl (h ids sent)
  | _ => simp [owed]

theorem Tx.owed_of_register {t : Tx} {ids : List QueryId} {sent : ℕ} (h : t.pc = .register ids sent) :
    t.owed = t.localSent + ((sent : ℤ) - ids.length) := by
  obtain ⟨pc, idCtr, localSent⟩ := t
  subst h
  rfl

theorem Tx.leave_ne_register (t : Tx) (ids : List QueryId) (sent : ℕ) : t.leave ≠ .register ids sent := by
  unfold leave
  split <;> simp

variable {cfg : Config} {N R : ℕ}

/-- Away from an insert a sender loses nothing. -/
theorem losesNothing_tx {t : Tx} {a : TxAct} (m : Shared)
    (h : ∀ id ids sent, t.pc ≠ .register (id :: ids) sent) : (Thread.tx t).LosesNothing m (.tx a) := by
  obtain ⟨pc, idCtr, localSent⟩ := t
  unfold Thread.LosesNothing
  split
  · rename_i heq _
    cases heq
    exact absurd rfl (h _ _ _)
  all_goals trivial

/-- A sender's step between two positions outside of a registration. -/
theorem growth_control {t : Tx} {m m' : Shared} {a : TxAct} {pc' : TxPc} {idCtr' : ℕ}
    (hg : m'.globalInFlight = m.globalInFlight) (hs : m'.slots = m.slots)
    (hpc : ∀ ids sent, t.pc ≠ .register ids sent) (hpc' : ∀ ids sent, pc' ≠ .register ids sent) :
    0 ≤ growth (.tx t) (.tx ⟨pc', idCtr', t.localSent⟩) m m' ∧
      (growth (.tx t) (.tx ⟨pc', idCtr', t.localSent⟩) m m' = 0 ↔
        (Thread.tx t).LosesNothing m (.tx a)) := by
  refine Threads.growth_silent (by rw [hg, hs]) ?_ (losesNothing_tx m fun id ids sent => hpc (id :: ids) sent)
  simp only [Thread.owed]
  rw [Tx.owed_of_ne_register hpc', Tx.owed_of_ne_register hpc]

/-- A sender's step that starts a registration of as many ids as frames were submitted. -/
theorem growth_submitted {t : Tx} {m : Shared} {a : TxAct} {ids : List QueryId} {sent idCtr' : ℕ}
    (hpc : ∀ ids sent, t.pc ≠ .register ids sent) (hlen : ids.length = sent) :
    0 ≤ growth (.tx t) (.tx ⟨.register ids sent, idCtr', t.localSent⟩) m m ∧
      (growth (.tx t) (.tx ⟨.register ids sent, idCtr', t.localSent⟩) m m = 0 ↔
        (Thread.tx t).LosesNothing m (.tx a)) := by
  refine Threads.growth_silent rfl ?_ (losesNothing_tx m fun id ids sent => hpc (id :: ids) sent)
  simp only [Thread.owed]
  rw [Tx.owed_of_register rfl, Tx.owed_of_ne_register hpc, hlen, sub_self, add_zero]

/-- No step of a sender lets the drift shrink, and exactly an insert over an occupied slot lets it
grow. -/
theorem growth_tx (hloop : 0 < cfg.maxOutstanding) {i : Fin N} {t t' : Tx} {m m' : Shared} {a : TxAct}
    (h : Tx.Stepped cfg N i t m a t' m') :
    0 ≤ growth (.tx t) (.tx t') m m' ∧
      (growth (.tx t) (.tx t') m m' = 0 ↔ (Thread.tx t).LosesNothing m (.tx a)) := by
  cases h with
  | checkShutdown hpc | sleep hpc =>
    refine growth_control rfl rfl (by simp [hpc]) fun ids sent => ?_
    split
    · exact t.leave_ne_register ids sent
    · simp
  | loadRate _ hpc | held _ hpc | due hpc =>
    exact growth_control rfl rfl (by simp [hpc]) (by simp)
  | passed rated hpc =>
    refine growth_control rfl rfl (by simp [hpc]) fun ids sent => ?_
    split <;> simp
  | transmitOne ok hpc =>
    cases ok with
    | true => exact growth_submitted (by simp [hpc]) rfl
    | false => exact growth_control rfl rfl (by simp [hpc]) (by simp)
  | transmit room pool enqueued hpc henqueued =>
    by_cases hpos : 0 < enqueued
    · rw [if_pos hpos]
      refine growth_submitted (by simp [hpc]) ?_
      simpa using henqueued
    · rw [if_neg hpos]
      exact growth_control rfl rfl (by simp [hpc]) (by simp)
  | insert id ids sent nowNs hpc =>
    have hstamp : max nowNs 1 ≠ 0 := by omega
    have hbefore := Tx.owed_of_register hpc
    have hafter : Tx.owed { t with pc := .register ids sent } = t.localSent + ((sent : ℤ) - ids.length) :=
      rfl
    have hloses : (Thread.tx t).LosesNothing m (.tx (.insert nowNs)) ↔ m.slots id = 0 := by
      obtain ⟨pc, idCtr, localSent⟩ := t
      subst hpc
      rfl
    rw [hloses]
    simp only [growth, Threads.growth, Thread.owed, hbefore, hafter, List.length_cons, Nat.cast_add,
      Nat.cast_one, Inflight.insert]
    by_cases hid : m.slots id = 0
    · have hgain := SlotTable.occupancy_store_of_empty hstamp hid
      omega
    · have hsame := SlotTable.occupancy_store_of_occupied hstamp hid
      omega
  | countSent sent hpc =>
    refine Threads.growth_silent rfl ?_ (losesNothing_tx m (by simp [hpc]))
    have hafter : ∀ ids k, (if flushN ≤ t.localSent + sent then TxPc.flushStats false else .loopHead)
        ≠ .register ids k := by
      intro ids k
      split <;> simp
    simp only [Thread.owed]
    rw [Tx.owed_of_ne_register hafter, Tx.owed_of_register hpc]
    simp
  | flushStats out nowNs hpc => exact growth_control rfl rfl (by simp [hpc]) (by simp)
  | flushGate out hpc =>
    have hbefore : t.owed = t.localSent := Tx.owed_of_ne_register (by simp [hpc])
    have hafter : (Tx.mk (if out then .done else .loopHead) t.idCtr 0).owed = 0 := by
      refine (Tx.owed_of_ne_register fun ids k => ?_).trans rfl
      cases out <;> simp
    have hloses : (Thread.tx t).LosesNothing m (.tx .flushGate) := losesNothing_tx m (by simp [hpc])
    simp only [growth, Threads.growth, Thread.owed, hafter, hbefore, if_pos hloop, hloses, iff_true,
      Nat.cast_add]
    omega

/-- No step of a receiver lets the drift shrink, and exactly a subtraction that finds too little lets
it grow. -/
theorem growth_rx {pc pc' : RxPc} {m m' : Shared} {a : RxAct} (h : RxPc.Stepped cfg m pc a pc' m') :
    0 ≤ growth (.rx pc) (.rx pc') m m' ∧
      (growth (.rx pc) (.rx pc') m m' = 0 ↔ (Thread.rx pc).LosesNothing m (.rx a)) := by
  cases h with
  | noFrames | frames | startSweep | noSweep | noReply | countTimeouts =>
    exact Threads.growth_silent rfl rfl trivial
  | checkShutdown =>
    refine Threads.growth_silent rfl ?_ trivial
    split <;> rfl
  | reply completed bytes nowNs id rcode hparse =>
    by_cases hid : m.slots id = 0
    · rw [RxPc.reply_of_empty hid]
      exact Threads.growth_silent rfl rfl trivial
    · have hocc := SlotTable.occupancy_clear hid
      rw [RxPc.reply_of_occupied hid]
      simp only [growth, Threads.growth, Thread.LosesNothing, Thread.owed, RxPc.pending, iff_true]
      omega
  | endFrames completed =>
    by_cases hpos : 0 < completed
    · rw [if_pos hpos]
      simp only [growth, Threads.growth, Thread.LosesNothing, Thread.owed, RxPc.pending]
      omega
    · rw [if_neg hpos]
      simp only [growth, Threads.growth, Thread.LosesNothing, Thread.owed, RxPc.pending]
      omega
  | sweepStep sc sc' freed hsc =>
    obtain ⟨-, ⟨rfl, hn⟩ | ⟨id, rfl, hn, hid, -⟩⟩ := Scan.step_cases hsc
    · exact Threads.growth_silent rfl (by simp [Thread.owed, RxPc.pending, hn]) trivial
    · have hocc := SlotTable.occupancy_clear hid
      simp only [growth, Threads.growth, Thread.LosesNothing, Thread.owed, RxPc.pending, hn, free_some,
        iff_true]
      omega
  | endSweep sc hsc =>
    refine Threads.growth_silent rfl ?_ trivial
    split
    · rfl
    · have hzero : sc.n = 0 := by omega
      simp [Thread.owed, RxPc.pending, hzero]
  | releaseExpired expired =>
    simp only [growth, Threads.growth, Thread.LosesNothing, Thread.owed, RxPc.pending]
    omega

/-! ## Over whole interleavings -/

/-- The counter, plus what the threads owe it, less the occupied slots. -/
def State.drift (s : State N R) : ℤ :=
  Threads.total (fun m => (m.globalInFlight : ℤ) - m.slots.occupancy) Thread.owed s

/-- The step loses no adjustment of the counter; the engine never touches it. -/
def KeepsGate (s : State N R) : Threads.Event (Fin N ⊕ Fin R) Act EngineAct → Prop
  | .thread i a => (s.threads i).LosesNothing s.shared a
  | .env _ => True

/-- Every sender has flushed what it counted. -/
def State.Flushed (s : State N R) : Prop := ∀ i t, s.threads i = .tx t → t.Flushed

theorem growth_step (hloop : 0 < cfg.maxOutstanding) {i : Fin N ⊕ Fin R} {th th' : Thread}
    {m m' : Shared} {a : Act} (h : th.step cfg N R i m a = some (th', m')) :
    0 ≤ growth th th' m m' ∧ (growth th th' m m' = 0 ↔ th.LosesNothing m a) := by
  obtain ⟨j, t, t', b, -, rfl, rfl, rfl, hstep⟩ | ⟨pc, pc', b, rfl, rfl, rfl, hstep⟩ :=
    Thread.step_cases h
  · exact growth_tx hloop hstep
  · exact growth_rx hstep

theorem drift_start : (State.start N R).drift = 0 := by
  have howed : ∀ i, ((State.start N R).threads i).owed = 0 := by
    rintro (i | i) <;> rfl
  simp [State.drift, Threads.total, howed]
  simp [State.start, Shared.new]

/-- The drift of a whole run: it is 0 exactly when no adjustment was lost, and positive otherwise. -/
theorem drift_run (hloop : 0 < cfg.maxOutstanding)
    {es : List (Threads.Event (Fin N ⊕ Fin R) Act EngineAct)} {s : State N R}
    (hrun : (threads cfg N R).machine.run (State.start N R) es = some s) :
    0 ≤ s.drift ∧ (s.drift = 0 ↔ (threads cfg N R).machine.Meets KeepsGate (State.start N R) es) := by
  rw [← drift_start (N := N) (R := R)]
  exact (threads cfg N R).total_run (C := KeepsGate) (fun _ _ _ _ _ _ h => growth_step hloop h)
    (fun _ m k _ hk => engine_gate m k hk) (fun _ _ _ => Iff.rfl) (fun _ _ => trivial) hrun

/-- What a thread has still to subtract. -/
def Thread.pending : Thread → ℕ
  | .tx _ => 0
  | .rx pc => pc.pending

/-- When the senders have flushed, only the receivers owe anything. -/
theorem drift_of_flushed {s : State N R} (hflushed : s.Flushed) :
    s.drift = s.shared.globalInFlight - s.shared.slots.occupancy - ∑ i, (s.threads i).pending := by
  have howed : ∀ i, (s.threads i).owed = -((s.threads i).pending : ℤ) := by
    intro i
    cases hi : s.threads i with
    | tx t =>
      obtain ⟨hzero, hpc⟩ := hflushed i t hi
      simp [Thread.owed, Thread.pending, Tx.owed_of_ne_register hpc, hzero]
    | rx pc => rfl
  simp only [State.drift, Threads.total, howed, Finset.sum_neg_distrib, Nat.cast_sum]
  ring

/-- For every number of senders and receivers and every interleaving, in every state where the senders
have flushed all they counted and the table is empty: the counter is 0 if and only if no step on the
way lost an adjustment and no receiver has a subtraction left to do. -/
theorem split_gate_zero_iff (cfg : Config) (N R : ℕ) (hloop : 0 < cfg.maxOutstanding)
    (es : List (Threads.Event (Fin N ⊕ Fin R) Act EngineAct)) (s : State N R)
    (hrun : (threads cfg N R).machine.run (State.start N R) es = some s) (hflushed : s.Flushed)
    (hempty : ∀ id, s.shared.slots id = 0) :
    s.shared.globalInFlight = 0 ↔
      (threads cfg N R).machine.Meets KeepsGate (State.start N R) es ∧
        ∀ i pc, s.threads i = .rx pc → pc.pending = 0 := by
  obtain ⟨hnonneg, hmeets⟩ := drift_run hloop hrun
  have hdrift := drift_of_flushed hflushed
  rw [SlotTable.occupancy_eq_zero.mpr hempty] at hdrift
  have hpending : ∑ i, (s.threads i).pending = 0 ↔ ∀ i pc, s.threads i = .rx pc → pc.pending = 0 := by
    rw [Finset.sum_eq_zero_iff]
    constructor
    · intro h i pc hi
      have hzero := h i (Finset.mem_univ i)
      rwa [hi] at hzero
    · intro h i _
      cases hi : s.threads i with
      | tx t => rfl
      | rx pc => exact h i pc hi
  rw [← hmeets, ← hpending]
  omega

/-! ## One sender and one receiver -/

section Pair

/-- One sender and one receiver over a shared memory. -/
def pair (t : Tx) (pc : RxPc) (m : Shared) : State 1 1 :=
  ⟨Sum.elim (fun _ => .tx t) (fun _ => .rx pc), m⟩

/-- The events of the sender. -/
def tx (a : TxAct) : Threads.Event (Fin 1 ⊕ Fin 1) Act EngineAct := .thread (.inl 0) (.tx a)

/-- The events of the receiver. -/
def rx (a : RxAct) : Threads.Event (Fin 1 ⊕ Fin 1) Act EngineAct := .thread (.inr 0) (.rx a)

variable {t t' u : Tx} {pc pc' : RxPc} {m m' : Shared} {s : State 1 1}
  {es : List (Threads.Event (Fin 1 ⊕ Fin 1) Act EngineAct)}

/-- A step of either thread that leaves the other where it is, and the run after it. -/
theorem run_pair {i : Fin 1 ⊕ Fin 1} {a : Act} {th' : Thread}
    (h : (threads cfg 1 1).step i ((pair t pc m).threads i) m a = some (th', m'))
    (hpair : Function.update (pair t pc m).threads i th' = (pair t' pc' m').threads)
    (hrest : (threads cfg 1 1).machine.run (pair t' pc' m') es = some s) :
    (threads cfg 1 1).machine.run (pair t pc m) (.thread i a :: es) = some s := by
  refine (Machine.run_cons_eq_some _).mpr ⟨_, Threads.machine_step_thread _ h, ?_⟩
  rw [hpair]
  exact hrest

theorem run_pair_tx {a : TxAct} (h : t.step cfg 1 0 m a = some (t', m'))
    (hrest : (threads cfg 1 1).machine.run (pair t' pc m') es = some s) :
    (threads cfg 1 1).machine.run (pair t pc m) (tx a :: es) = some s := by
  refine run_pair (congrArg (Option.map fun p : Tx × Shared => (Thread.tx p.1, p.2)) h) ?_ hrest
  rw [pair, Sum.update_elim_inl, Function.update_eq_const_of_subsingleton]
  rfl

theorem run_pair_rx {a : RxAct} (h : pc.step cfg m a = some (pc', m'))
    (hrest : (threads cfg 1 1).machine.run (pair t pc' m') es = some s) :
    (threads cfg 1 1).machine.run (pair t pc m) (rx a :: es) = some s := by
  refine run_pair (congrArg (Option.map fun p : RxPc × Shared => (Thread.rx p.1, p.2)) h) ?_ hrest
  rw [pair, Sum.update_elim_inr, Function.update_eq_const_of_subsingleton]
  rfl

theorem flushed_pair (hzero : t.localSent = 0) (hpc : ∀ ids sent, t.pc ≠ .register ids sent) :
    (pair t pc m).Flushed := by
  rintro (i | i) u hu
  · cases hu
    exact ⟨hzero, hpc⟩
  · cases hu

theorem pending_pair (hpc : pc.pending = 0) (i : Fin 1 ⊕ Fin 1) (pc' : RxPc)
    (hi : (pair t pc m).threads i = .rx pc') : pc'.pending = 0 := by
  rcases i with i | i
  · cases hi
  · cases hi
    exact hpc

/-- One iteration of the sender at a fixed rate, that sends one query. -/
def sendQuery : List (Threads.Event (Fin 1 ⊕ Fin 1) Act EngineAct) :=
  [tx .checkShutdown, tx (.loadRate 1), tx .loadGate, tx .due, tx (.transmitOne true), tx (.insert 5),
    tx .countSent]

/-- A frame with the reply to `id`. -/
def replyFrameTo (id : QueryId) : List UInt8 :=
  (link 53 none).mirrorHeader 12345 plainReply ++ replyTo id

/-- The receiver gets the reply to `id`. -/
def receiveReply (id : QueryId) : List (Threads.Event (Fin 1 ⊕ Fin 1) Act EngineAct) :=
  [rx .frames, rx (.frame (replyFrameTo id) 9), rx .endFrames, rx .noSweep]

/-- A gate for one outstanding query. -/
def oneOutstanding : Config := ⟨1, 3000000000⟩

/-- While nothing has been flushed the gate stays open, and the sender counts query after query. -/
theorem run_sendQuery (n : ℕ) (stats : Stats.StatsCollector) :
    (threads oneOutstanding 1 1).machine.run (pair ⟨.loopHead, n, n⟩ pc ⟨.empty, 0, stats, false⟩) sendQuery
      = some (pair ⟨if flushN ≤ n + 1 then .flushStats false else .loopHead, n + 1, n + 1⟩ pc
          ⟨Inflight.insert .empty (idAt 1 0 n) 5, 0, stats, false⟩) :=
  run_pair_tx rfl <| run_pair_tx rfl <| run_pair_tx rfl <| run_pair_tx rfl <| run_pair_tx rfl <|
    run_pair_tx rfl <| run_pair_tx rfl rfl

/-- The receiver takes the reply out of the table and off the counter, as far as that goes. -/
theorem run_receiveReply (t : Tx) (id : QueryId) (globalInFlight : ℕ) (stats : Stats.StatsCollector)
    (shutdown : Bool) :
    ∃ stats', (threads oneOutstanding 1 1).machine.run
        (pair t .receive ⟨Inflight.insert .empty id 5, globalInFlight, stats, shutdown⟩) (receiveReply id)
      = some (pair t .loopHead ⟨.empty, globalInFlight - 1, stats', shutdown⟩) := by
  have hparse : parseDnsFromFrame (replyFrameTo id) = .ok (some (id, 0)) :=
    parseDnsFromFrame_mirrorHeader _ 12345 plainReply
      ((parseResponse_eq_some_iff _ _ _).mp (parseResponse_replyTo id))
  have hid : (Shared.mk (Inflight.insert .empty id 5) globalInFlight stats shutdown).slots id ≠ 0 := by
    simp [Inflight.insert]
  have hclear : (Inflight.insert .empty id 5).clear id = .empty :=
    SlotTable.clear_store_of_empty .empty _ (SlotTable.empty_apply _)
  obtain ⟨stats', hreply⟩ : ∃ stats', RxPc.step oneOutstanding (.matching 0)
      ⟨Inflight.insert .empty id 5, globalInFlight, stats, shutdown⟩ (.frame (replyFrameTo id) 9)
        = some (.matching 1, ⟨.empty, globalInFlight, stats', shutdown⟩) := by
    simp only [RxPc.step, hparse, RxPc.reply_of_occupied hid, hclear]
    exact ⟨_, rfl⟩
  exact ⟨stats', run_pair_rx rfl <| run_pair_rx hreply <| run_pair_rx rfl <| run_pair_rx rfl rfl⟩

/-- One query that is flushed at the end of the run, before its reply is matched. -/
def replyAfterFlush : List (Threads.Event (Fin 1 ⊕ Fin 1) Act EngineAct) :=
  rx .checkShutdown :: (sendQuery ++ (.env .storeShutdown :: tx .checkShutdown :: tx (.flushStats 7) ::
    tx .flushGate :: receiveReply (idAt 1 0 0)))

/-- Here nothing is lost, and the counter is back at 0. -/
theorem split_gate_zero_replyAfterFlush :
    ∃ s : State 1 1, (threads oneOutstanding 1 1).machine.run (State.start 1 1) replyAfterFlush = some s ∧
      s.shared.globalInFlight = 0 ∧
      (threads oneOutstanding 1 1).machine.Meets KeepsGate (State.start 1 1) replyAfterFlush := by
  obtain ⟨stats, hreply⟩ := run_receiveReply ⟨.done, 1, 0⟩ (idAt 1 0 0) 1
    (Stats.StatsCollector.new.incSentN 1 7) true
  have hflush : (threads oneOutstanding 1 1).machine.run
      (pair ⟨.loopHead, 1, 1⟩ .receive ⟨Inflight.insert .empty (idAt 1 0 0) 5, 0, .new, false⟩)
      (.env .storeShutdown :: tx .checkShutdown :: tx (.flushStats 7) :: tx .flushGate ::
        receiveReply (idAt 1 0 0))
      = some (pair ⟨.done, 1, 0⟩ .loopHead ⟨.empty, 0, stats, true⟩) :=
    (Machine.run_cons_eq_some _).mpr
      ⟨_, rfl, run_pair_tx rfl <| run_pair_tx rfl <| run_pair_tx rfl hreply⟩
  have hrun : (threads oneOutstanding 1 1).machine.run (State.start 1 1) replyAfterFlush
      = some (pair ⟨.done, 1, 0⟩ .loopHead ⟨.empty, 0, stats, true⟩) :=
    run_pair_rx rfl (Machine.run_trans _ (run_sendQuery 0 .new) hflush)
  exact ⟨_, hrun, rfl, ((split_gate_zero_iff oneOutstanding 1 1 (by decide) replyAfterFlush _ hrun
    (flushed_pair rfl (by simp)) fun _ => rfl).mp rfl).1⟩

/-- One query, sent and answered at once. -/
def exchange (n : ℕ) : List (Threads.Event (Fin 1 ⊕ Fin 1) Act EngineAct) :=
  sendQuery ++ (rx .checkShutdown :: receiveReply (idAt 1 0 n))

/-- An exchange leaves the table empty and the counter at 0: the query is in `local_sent`, its reply
was subtracted in vain. -/
theorem run_exchange (n : ℕ) (stats : Stats.StatsCollector) :
    ∃ stats', (threads oneOutstanding 1 1).machine.run
        (pair ⟨.loopHead, n, n⟩ .loopHead ⟨.empty, 0, stats, false⟩) (exchange n)
      = some (pair ⟨if flushN ≤ n + 1 then .flushStats false else .loopHead, n + 1, n + 1⟩ .loopHead
          ⟨.empty, 0, stats', false⟩) := by
  obtain ⟨stats', hreply⟩ := run_receiveReply
    ⟨if flushN ≤ n + 1 then .flushStats false else .loopHead, n + 1, n + 1⟩ (idAt 1 0 n) 0 stats false
  exact ⟨stats', Machine.run_trans _ (run_sendQuery n stats) (run_pair_rx rfl hreply)⟩

/-- As long as the sender does not flush, exchanges follow each other. -/
theorem run_exchanges {n : ℕ} (hn : n < flushN) :
    ∃ stats, (threads oneOutstanding 1 1).machine.run (State.start 1 1) ((List.range n).flatMap exchange)
      = some (pair ⟨.loopHead, n, n⟩ .loopHead ⟨.empty, 0, stats, false⟩) := by
  induction n with
  | zero => exact ⟨_, rfl⟩
  | succ n ih =>
    obtain ⟨stats, hbefore⟩ := ih (Nat.lt_of_succ_lt hn)
    obtain ⟨stats', hnext⟩ := run_exchange n stats
    rw [if_neg (Nat.not_le.mpr hn)] at hnext
    rw [List.range_succ, List.flatMap_append, List.flatMap_singleton]
    exact ⟨stats', Machine.run_trans _ hbefore hnext⟩

/-- 1024 exchanges and the flush. -/
def flushAfterReplies : List (Threads.Event (Fin 1 ⊕ Fin 1) Act EngineAct) :=
  (List.range 1024).flatMap exchange ++ [tx (.flushStats 11), tx .flushGate]

/-- With `max_outstanding = 1` this run ends with everything flushed, an empty table and nothing left
to subtract, but the counter at 1024: the sender finds the gate shut and is back in the same state. -/
theorem stalled_after_flush :
    ∃ s : State 1 1, (threads oneOutstanding 1 1).machine.run (State.start 1 1) flushAfterReplies = some s ∧
      s.Flushed ∧ (∀ id, s.shared.slots id = 0) ∧ (∀ i pc, s.threads i = .rx pc → pc.pending = 0) ∧
      s.shared.globalInFlight = 1024 ∧
      (threads oneOutstanding 1 1).machine.run s [tx .checkShutdown, tx (.loadRate 1), tx .loadGate]
        = some s := by
  obtain ⟨stats, hbefore⟩ := run_exchanges (n := 1023) (by decide)
  obtain ⟨stats', hlast⟩ := run_exchange 1023 stats
  rw [if_pos (by decide)] at hlast
  have hexchanges := Machine.run_trans _ hbefore hlast
  have hflush : (threads oneOutstanding 1 1).machine.run
      (pair ⟨.flushStats false, 1024, 1024⟩ .loopHead ⟨.empty, 0, stats', false⟩)
      [tx (.flushStats 11), tx .flushGate]
        = some (pair ⟨.loopHead, 1024, 0⟩ .loopHead
          ⟨.empty, 1024, stats'.incSentN 1024 11, false⟩) :=
    run_pair_tx rfl <| run_pair_tx rfl rfl
  refine ⟨pair ⟨.loopHead, 1024, 0⟩ .loopHead ⟨.empty, 1024, stats'.incSentN 1024 11, false⟩, ?_,
    flushed_pair rfl (by simp), fun _ => rfl, pending_pair rfl, rfl, ?_⟩
  · rw [flushAfterReplies, List.range_succ, List.flatMap_append, List.flatMap_singleton]
    exact Machine.run_trans _ hexchanges hflush
  · exact run_pair_tx rfl <| run_pair_tx rfl <| run_pair_tx rfl rfl

end Pair

end Dnsmark.Xdp.Split
