import Dnsmark.Common.Machine
import Dnsmark.Dns.Response
import Dnsmark.Engine.Shutdown

/-!
# The kernel-UDP flood path

`throughput_udp_tx` and `throughput_udp_rx` of `src/transport/udp.rs`: in flood and ramp mode every
worker is a pair of threads, one that only sends and one that only receives, over one
`SharedInFlight` table of their own.  Sends and replies are counted in locals and added to the
collector every `FLUSH_STATS` batches and on exit.  With `track_latency` (ramp mode) the sender
registers every id it handed to the kernel, and the receiver matches replies and sweeps the table.

As for the AF_XDP worker, a thread is a position in its loop and an act is one access to what it
shares. A `Pair` is one worker: both threads and their table.  Its two threads may move in any
order, and so may the pairs, which share the collector and the shutdown flag.
-/

namespace Dnsmark.Udp.Flood

open Dnsmark.Stats Dnsmark.Inflight Dnsmark.Engine

/-- `TX_BATCH`. -/
def txBatch : ℕ := 64

/-- `FLUSH_STATS`. -/
def flushStats : ℕ := 16

structure Config where
  trackLatency : Bool
  timeoutNs : ℕ
deriving DecidableEq, Repr

/-- `lat_horizon_ns`. -/
def Config.latHorizonNs (cfg : Config) : ℕ := min cfg.timeoutNs 200000000

/-- What all threads share. -/
structure Shared where
  stats : StatsCollector
  shutdown : Bool

/-! ## The sender -/

inductive TxPc where
  /-- Before the load of `shutdown`. -/
  | loopHead
  /-- Before the batch. -/
  | due
  /-- After the batch of `sendNs`; `ids` are still to be inserted, then the counters are flushed. -/
  | register (ids : List QueryId) (sendNs : ℕ)
  /-- Out of the loop. -/
  | exiting
  | done
deriving DecidableEq, Repr

/-- The locals of the sender; `submitted` counts everything it sent and is read by nothing. -/
structure Tx where
  pc : TxPc
  localSent : ℕ
  nextId : QueryId
  batchCtr : ℕ
  submitted : ℕ
deriving DecidableEq, Repr

inductive TxAct where
  | checkShutdown
  /-- `sendmmsg` took `sent` of the batch stamped `sendNs`. -/
  | batch (sendNs sent : ℕ)
  | notDue
  | insert
  | flush (nowNs : ℕ)
  | exit (nowNs : ℕ)
deriving DecidableEq, Repr

namespace Tx

/-- The sender as its loop starts; `next_id` is random. -/
def new (nextId : QueryId) : Tx := ⟨.loopHead, 0, nextId, 0, 0⟩

/-- The ids of a batch that are registered. -/
def batchIds (cfg : Config) (t : Tx) (sent : ℕ) : List QueryId :=
  if cfg.trackLatency then (List.range sent).map fun k => t.nextId + Fin.ofNat 65536 k else []

/-- One access of the sender. -/
def step (cfg : Config) (t : Tx) (slots : SlotTable QueryId) (m : Shared) (a : TxAct) :
    Option (Tx × SlotTable QueryId × Shared) :=
  match t.pc, a with
  | .loopHead, .checkShutdown =>
    some ({ t with pc := if m.shutdown then .exiting else .due }, slots, m)
  | .due, .batch sendNs sent =>
    if sent ≤ txBatch then
      some ({ t with
          pc := .register (t.batchIds cfg sent) sendNs
          localSent := t.localSent + sent
          submitted := t.submitted + sent
          nextId := t.nextId + Fin.ofNat 65536 txBatch
          batchCtr := t.batchCtr + 1 }, slots, m)
    else none
  | .due, .notDue =>
    -- only the ramp paces its batches
    if cfg.trackLatency then some ({ t with pc := .register [] 0 }, slots, m) else none
  | .register (id :: ids) sendNs, .insert =>
    some ({ t with pc := .register ids sendNs }, insert slots id sendNs, m)
  | .register [] _, .flush nowNs =>
    if t.batchCtr % flushStats = 0 ∧ 0 < t.localSent then
      some ({ t with pc := .loopHead, localSent := 0 }, slots,
        { m with stats := m.stats.incSentN t.localSent nowNs })
    else some ({ t with pc := .loopHead }, slots, m)
  | .exiting, .exit nowNs =>
    some ({ t with pc := .done, localSent := 0 }, slots,
      { m with stats := if 0 < t.localSent then m.stats.incSentN t.localSent nowNs else m.stats })
  | _, _ => none

/-- What a step of the sender can be. -/
inductive Stepped (cfg : Config) (t : Tx) (slots : SlotTable QueryId) (m : Shared) :
    TxAct → Tx → SlotTable QueryId → Shared → Prop
  | checkShutdown (pc' : TxPc) (hpc : t.pc = .loopHead)
      (hpc' : pc' = if m.shutdown then .exiting else .due) :
      Stepped cfg t slots m .checkShutdown { t with pc := pc' } slots m
  | batch (sendNs sent : ℕ) (hpc : t.pc = .due) (hsent : sent ≤ txBatch) :
      Stepped cfg t slots m (.batch sendNs sent)
        { t with
          pc := .register (t.batchIds cfg sent) sendNs
          localSent := t.localSent + sent
          submitted := t.submitted + sent
          nextId := t.nextId + Fin.ofNat 65536 txBatch
          batchCtr := t.batchCtr + 1 } slots m
  | notDue (hpc : t.pc = .due) :
      Stepped cfg t slots m .notDue { t with pc := .register [] 0 } slots m
  | insert (id : QueryId) (ids : List QueryId) (sendNs : ℕ) (hpc : t.pc = .register (id :: ids) sendNs) :
      Stepped cfg t slots m .insert { t with pc := .register ids sendNs }
        (Inflight.insert slots id sendNs) m
  | flush (sendNs nowNs : ℕ) (hpc : t.pc = .register [] sendNs) :
      Stepped cfg t slots m (.flush nowNs) { t with pc := .loopHead, localSent := 0 } slots
        { m with stats := m.stats.incSentN t.localSent nowNs }
  | noFlush (sendNs nowNs : ℕ) (hpc : t.pc = .register [] sendNs) :
      Stepped cfg t slots m (.flush nowNs) { t with pc := .loopHead } slots m
  | exit (nowNs : ℕ) (hpc : t.pc = .exiting) :
      Stepped cfg t slots m (.exit nowNs) { t with pc := .done, localSent := 0 } slots
        { m with stats := if 0 < t.localSent then m.stats.incSentN t.localSent nowNs else m.stats }

theorem step_cases {cfg : Config} {t t' : Tx} {slots slots' : SlotTable QueryId} {m m' : Shared}
    {a : TxAct} (h : t.step cfg slots m a = some (t', slots', m')) :
    Stepped cfg t slots m a t' slots' m' := by
  unfold step at h
  split at h
  · cases h
    exact .checkShutdown _ ‹_› rfl
  · split at h <;> cases h
    exact .batch _ _ ‹_› ‹_›
  · split at h <;> cases h
    exact .notDue ‹_›
  · cases h
    exact .insert _ _ _ ‹_›
  · split at h <;> cases h
    · exact .flush _ _ ‹_›
    · exact .noFlush _ _ ‹_›
  · cases h
    exact .exit _ ‹_›
  · cases h

end Tx

/-! ## The receiver -/

inductive RxPc where
  /-- Before the load of `shutdown`. -/
  | loopHead
  /-- Before the 10 ms sweep. -/
  | maySweep
  | sweep (sc : Scan .sharedInFlight)
  /-- Before the `inc_timeout`s for `expired` slots. -/
  | timeouts (expired : ℕ)
  /-- Before `poll` and `recvmmsg`. -/
  | poll
  /-- In the loop over the received datagrams. -/
  | matching
  /-- Out of the loop. -/
  | exiting
  | done

/-- The locals of the receiver; `answered` counts everything it received and is read by nothing. -/
structure Rx where
  pc : RxPc
  rc : RcodeCounts
  sinceFlush : ℕ
  answered : ℕ

inductive RxAct where
  | checkShutdown
  | startSweep (nowNs : ℕ)
  | noSweep
  | sweepStep
  | countTimeouts
  | noDatagrams
  | datagrams
  | datagram (msg : Datagram) (recvNs : ℕ)
  | endDatagrams
  | exit
deriving DecidableEq, Repr

/-- The id in the first two bytes of a datagram. -/
def datagramId : Datagram → Option QueryId
  | b0 :: b1 :: _ => some (u16FromBeBytes b0 b1).toFin
  | _ => none

/-- The bucket a datagram is counted in: one that is no DNS response counts as `other`. -/
def bucket (buf : Datagram) : RcodeCounts :=
  match parseResponse buf with
  | some r => .one r.rcode
  | none => { other := 1 }

/-- What a matched reply reports. -/
def report (cfg : Config) (st : StatsCollector) (rttNs : ℕ) : StatsCollector :=
  if rttNs ≤ cfg.latHorizonNs then st.recordLatencyUs (max (rttNs / 1000) 1) else st.incTimeout

namespace Rx

/-- The receiver as its loop starts. -/
def new : Rx := ⟨.loopHead, {}, 0, 0⟩

/-- Match one datagram against the table. -/
def matchReply (cfg : Config) (slots : SlotTable QueryId) (st : StatsCollector) (id : QueryId)
    (recvNs : ℕ) : SlotTable QueryId × StatsCollector :=
  (free slots (takeFreed slots id),
    (takeRtt .sharedInFlight slots id recvNs).elim st (report cfg st))

/-- One datagram: counted, and matched in ramp mode. -/
def datagram (cfg : Config) (r : Rx) (slots : SlotTable QueryId) (m : Shared) (msg : Datagram)
    (recvNs : ℕ) : Rx × SlotTable QueryId × Shared :=
  let buf := msg.take maxMsgSize
  let r := { r with rc := r.rc.add (bucket buf), answered := r.answered + 1 }
  match cfg.trackLatency, datagramId buf with
  | true, some id =>
    let p := matchReply cfg slots m.stats id recvNs
    (r, p.1, { m with stats := p.2 })
  | _, _ => (r, slots, m)

/-- A datagram moves the receiver nowhere. -/
theorem datagram_pc (cfg : Config) (r : Rx) (slots : SlotTable QueryId) (m : Shared) (msg : Datagram)
    (recvNs : ℕ) : (r.datagram cfg slots m msg recvNs).1.pc = r.pc := by
  unfold datagram
  simp only
  split <;> rfl

/-- A datagram without an id touches nothing that is shared. -/
theorem datagram_of_none (cfg : Config) {msg : Datagram} (hid : datagramId (msg.take maxMsgSize) = none)
    (r : Rx) (slots : SlotTable QueryId) (m : Shared) (recvNs : ℕ) :
    (r.datagram cfg slots m msg recvNs).2 = (slots, m) := by
  simp [datagram, hid]

/-- In ramp mode a datagram with an id is matched. -/
theorem datagram_of_some {cfg : Config} (hlat : cfg.trackLatency = true) {msg : Datagram} {id : QueryId}
    (hid : datagramId (msg.take maxMsgSize) = some id) (r : Rx) (slots : SlotTable QueryId) (m : Shared)
    (recvNs : ℕ) :
    (r.datagram cfg slots m msg recvNs).2
      = ((matchReply cfg slots m.stats id recvNs).1,
        { m with stats := (matchReply cfg slots m.stats id recvNs).2 }) := by
  simp [datagram, hlat, hid]

/-- One access of the receiver. -/
def step (cfg : Config) (r : Rx) (slots : SlotTable QueryId) (m : Shared) (a : RxAct) :
    Option (Rx × SlotTable QueryId × Shared) :=
  match r.pc, a with
  | .loopHead, .checkShutdown =>
    some ({ r with pc := if m.shutdown then .exiting else .maySweep }, slots, m)
  | .maySweep, .startSweep nowNs =>
    if cfg.trackLatency then
      some ({ r with pc := .sweep (.start .sharedInFlight nowNs cfg.latHorizonNs) }, slots, m)
    else none
  | .maySweep, .noSweep => some ({ r with pc := .poll }, slots, m)
  | .sweep sc, .sweepStep =>
    match sc.step slots with
    | some (sc', freed) => some ({ r with pc := .sweep sc' }, free slots freed, m)
    | none => some ({ r with pc := .timeouts sc.n }, slots, m)
  | .timeouts expired, .countTimeouts =>
    some ({ r with pc := .poll }, slots, { m with stats := m.stats.incTimeouts expired })
  | .poll, .noDatagrams => some ({ r with pc := .loopHead }, slots, m)
  | .poll, .datagrams => some ({ r with pc := .matching }, slots, m)
  | .matching, .datagram msg recvNs => some (r.datagram cfg slots m msg recvNs)
  | .matching, .endDatagrams =>
    if flushStats ≤ r.sinceFlush + 1 then
      some ({ r with pc := .loopHead, rc := {}, sinceFlush := 0 }, slots,
        { m with stats := m.stats.recordRcodes r.rc })
    else some ({ r with pc := .loopHead, sinceFlush := r.sinceFlush + 1 }, slots, m)
  | .exiting, .exit =>
    some ({ r with pc := .done, rc := {} }, slots,
      { m with stats := if 0 < r.rc.total then m.stats.recordRcodes r.rc else m.stats })
  | _, _ => none

/-- What a step of the receiver can be. -/
inductive Stepped (cfg : Config) (r : Rx) (slots : SlotTable QueryId) (m : Shared) :
    RxAct → Rx → SlotTable QueryId → Shared → Prop
  | checkShutdown (pc' : RxPc) (hpc : r.pc = .loopHead)
      (hpc' : pc' = if m.shutdown then .exiting else .maySweep) :
      Stepped cfg r slots m .checkShutdown { r with pc := pc' } slots m
  | startSweep (nowNs : ℕ) (hpc : r.pc = .maySweep) :
      Stepped cfg r slots m (.startSweep nowNs)
        { r with pc := .sweep (.start .sharedInFlight nowNs cfg.latHorizonNs) } slots m
  | noSweep (hpc : r.pc = .maySweep) : Stepped cfg r slots m .noSweep { r with pc := .poll } slots m
  | sweepStep (sc sc' : Scan .sharedInFlight) (freed : Option QueryId) (hpc : r.pc = .sweep sc)
      (hsc : sc.step slots = some (sc', freed)) :
      Stepped cfg r slots m .sweepStep { r with pc := .sweep sc' } (free slots freed) m
  | endSweep (sc : Scan .sharedInFlight) (hpc : r.pc = .sweep sc) :
      Stepped cfg r slots m .sweepStep { r with pc := .timeouts sc.n } slots m
  | countTimeouts (expired : ℕ) (hpc : r.pc = .timeouts expired) :
      Stepped cfg r slots m .countTimeouts { r with pc := .poll } slots
        { m with stats := m.stats.incTimeouts expired }
  | noDatagrams (hpc : r.pc = .poll) :
      Stepped cfg r slots m .noDatagrams { r with pc := .loopHead } slots m
  | datagrams (hpc : r.pc = .poll) : Stepped cfg r slots m .datagrams { r with pc := .matching } slots m
  | datagram (msg : Datagram) (recvNs : ℕ) (hpc : r.pc = .matching) :
      Stepped cfg r slots m (.datagram msg recvNs) (r.datagram cfg slots m msg recvNs).1
        (r.datagram cfg slots m msg recvNs).2.1 (r.datagram cfg slots m msg recvNs).2.2
  | flush (hpc : r.pc = .matching) :
      Stepped cfg r slots m .endDatagrams { r with pc := .loopHead, rc := {}, sinceFlush := 0 } slots
        { m with stats := m.stats.recordRcodes r.rc }
  | noFlush (hpc : r.pc = .matching) :
      Stepped cfg r slots m .endDatagrams { r with pc := .loopHead, sinceFlush := r.sinceFlush + 1 }
        slots m
  | exit (hpc : r.pc = .exiting) :
      Stepped cfg r slots m .exit { r with pc := .done, rc := {} } slots
        { m with stats := if 0 < r.rc.total then m.stats.recordRcodes r.rc else m.stats }

theorem step_cases {cfg : Config} {r r' : Rx} {slots slots' : SlotTable QueryId} {m m' : Shared}
    {a : RxAct} (h : r.step cfg slots m a = some (r', slots', m')) :
    Stepped cfg r slots m a r' slots' m' := by
  unfold step at h
  split at h
  · cases h
    exact .checkShutdown _ ‹_› rfl
  · split at h <;> cases h
    exact .startSweep _ ‹_›
  · cases h
    exact .noSweep ‹_›
  · split at h <;> cases h
    · exact .sweepStep _ _ _ ‹_› ‹_›
    · exact .endSweep _ ‹_›
  · cases h
    exact .countTimeouts _ ‹_›
  · cases h
    exact .noDatagrams ‹_›
  · cases h
    exact .datagrams ‹_›
  · obtain ⟨rfl, h⟩ := Prod.ext_iff.mp (Option.some.inj h)
    obtain ⟨rfl, rfl⟩ := Prod.ext_iff.mp h
    exact .datagram _ _ ‹_›
  · split at h <;> cases h
    · exact .flush ‹_›
    · exact .noFlush ‹_›
  · cases h
    exact .exit ‹_›
  · cases h

end Rx

/-! ## The pair -/

/-- One worker: its sender, its receiver and the table between them. -/
structure Pair where
  tx : Tx
  rx : Rx
  slots : SlotTable QueryId

inductive Act where
  | tx (a : TxAct)
  | rx (a : RxAct)
deriving DecidableEq, Repr

namespace Pair

def new (nextId : QueryId) : Pair := ⟨.new nextId, .new, .empty⟩

/-- One access of one of the two threads. -/
def step (cfg : Config) (p : Pair) (m : Shared) : Act → Option (Pair × Shared)
  | .tx a => (p.tx.step cfg p.slots m a).map fun q => (⟨q.1, p.rx, q.2.1⟩, q.2.2)
  | .rx a => (p.rx.step cfg p.slots m a).map fun q => (⟨p.tx, q.1, q.2.1⟩, q.2.2)

/-- A step of a pair is a step of one of its threads. -/
theorem step_cases {cfg : Config} {p p' : Pair} {m m' : Shared} {a : Act}
    (h : p.step cfg m a = some (p', m')) :
    (∃ b t' slots', a = .tx b ∧ Tx.Stepped cfg p.tx p.slots m b t' slots' m' ∧
      p' = ⟨t', p.rx, slots'⟩) ∨
    (∃ b r' slots', a = .rx b ∧ Rx.Stepped cfg p.rx p.slots m b r' slots' m' ∧
      p' = ⟨p.tx, r', slots'⟩) := by
  cases a with
  | tx b =>
    obtain ⟨⟨t', slots', m''⟩, hstep, heq⟩ := Option.map_eq_some_iff.mp h
    cases heq
    exact .inl ⟨b, t', slots', rfl, Tx.step_cases hstep, rfl⟩
  | rx b =>
    obtain ⟨⟨r', slots', m''⟩, hstep, heq⟩ := Option.map_eq_some_iff.mp h
    cases heq
    exact .inr ⟨b, r', slots', rfl, Rx.step_cases hstep, rfl⟩

end Pair

namespace Shared

def new : Shared := ⟨.new, false⟩

/-- What the engine does to it. -/
def engine (m : Shared) (k : EngineAct) : Shared :=
  { m with stats := k.onStats m.stats, shutdown := k.onShutdown m.shutdown }

end Shared

/-- `N` flood workers and the engine. -/
def workers (cfg : Config) (N : ℕ) : Threads (Fin N) Pair Shared Act EngineAct where
  step _ p m a := p.step cfg m a
  env _ m k := some (m.engine k)

/-- The states of `N` flood workers and what they share. -/
abbrev State (N : ℕ) := Threads.State (Fin N) Pair Shared

/-- Every thread before its loop, nothing counted; `ids` are the random first ids. -/
def State.start {N : ℕ} (ids : Fin N → QueryId) : State N := ⟨fun i => .new (ids i), .new⟩

end Dnsmark.Udp.Flood
