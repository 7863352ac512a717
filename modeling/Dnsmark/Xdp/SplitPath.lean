import Dnsmark.Xdp.FrameParser
import Dnsmark.Xdp.UnifiedWorker

/-!
# The split AF_XDP path

`xdp_tx_sender_thread` and `xdp_receiver_thread` of `src/transport/xdp/receiver.rs`: without unified
workers, any number of sender threads and any number of receiver threads (one for each NIC queue) share
one `InFlight` table and one `global_in_flight` counter.  A sender counts what it sent in `local_sent`
and adds it to the shared counters every `FLUSH_N` sends and on exit; a receiver takes replies and
expired slots off the counter at once.

As for the unified worker, a thread is a position in its loop and an act is one access to what it
shares.  What the outside answers (the rate, whether a frame was free and the TX ring took it, the
received frames, the clock) is an argument of the act.  The pacing of the sends, the template cursor and
the recycling of frames decide none of the counters and are left out.
-/

namespace Dnsmark.Xdp.Split

open Dnsmark.Stats Dnsmark.Inflight Dnsmark.Engine

/-- The arguments that all threads share. -/
structure Config where
  maxOutstanding : ℕ
  timeoutNs : ℕ
deriving DecidableEq, Repr

/-! ## The sender -/

/-- Where in its loop a sender is. -/
inductive TxPc where
  /-- Before the load of `shutdown`. -/
  | loopHead
  /-- Before the load of `qps_per_worker`. -/
  | rate
  /-- Before the load of `global_in_flight`. -/
  | gate (rated : Bool)
  /-- Before the comparison of the clock with `next_send`. -/
  | pace
  /-- Before `xdp_tx_one`. -/
  | transmitOne
  /-- Before `xdp_tx_batch_inline`. -/
  | transmit (headroom : ℕ)
  /-- `sent` frames were submitted; `ids` are still to be inserted. -/
  | register (ids : List QueryId) (sent : ℕ)
  /-- Before `inc_sent_n`; `out` when the loop is left. -/
  | flushStats (out : Bool)
  /-- Before the `fetch_add` on `global_in_flight`. -/
  | flushGate (out : Bool)
  | done
deriving DecidableEq, Repr

/-- The locals of a sender. -/
structure Tx where
  pc : TxPc
  idCtr : ℕ
  localSent : ℕ
deriving DecidableEq, Repr

inductive TxAct where
  | checkShutdown
  | loadRate (qps : ℕ)
  | loadGate
  /-- `next_send` has come. -/
  | due
  /-- `next_send` is ahead: sleep, then load `shutdown` once more. -/
  | sleep
  /-- What `xdp_tx_one` returns. -/
  | transmitOne (ok : Bool)
  /-- `pool` frames were free, the TX ring took `enqueued`. -/
  | transmit (pool enqueued : ℕ)
  | insert (nowNs : ℕ)
  | countSent
  | flushStats (nowNs : ℕ)
  | flushGate
deriving DecidableEq, Repr

namespace Tx

/-- A sender as its loop starts. -/
def new : Tx := ⟨.loopHead, 0, 0⟩

/-- Out of the loop: a remainder is flushed. -/
def leave (t : Tx) : TxPc := if 0 < t.localSent then .flushStats true else .done

/-- `headroom` of an unlimited burst. -/
def headroom (cfg : Config) (cur : ℕ) : ℕ :=
  if 0 < cfg.maxOutstanding then min (cfg.maxOutstanding - cur) txBatch else txBatch

/-- One access of sender `i` of `N`. -/
def step (cfg : Config) (N : ℕ) (i : Fin N) (t : Tx) (m : Shared) (a : TxAct) : Option (Tx × Shared) :=
  match t.pc, a with
  | .loopHead, .checkShutdown => some ({ t with pc := if m.shutdown then t.leave else .rate }, m)
  | .rate, .loadRate qps => some ({ t with pc := .gate (0 < qps) }, m)
  | .gate rated, .loadGate =>
    if 0 < cfg.maxOutstanding ∧ cfg.maxOutstanding ≤ m.globalInFlight then
      some ({ t with pc := .loopHead }, m)
    else some ({ t with pc := if rated then .pace else .transmit (headroom cfg m.globalInFlight) }, m)
  | .pace, .due => some ({ t with pc := .transmitOne }, m)
  | .pace, .sleep => some ({ t with pc := if m.shutdown then t.leave else .transmitOne }, m)
  | .transmitOne, .transmitOne ok =>
    some ({ t with
      pc := if ok then .register [idAt N i t.idCtr] 1 else .loopHead
      idCtr := t.idCtr + 1 }, m)
  | .transmit room, .transmit pool enqueued =>
    let take := min room pool
    if enqueued ≤ take then
      let ids := (List.range take).map fun k => idAt N i (t.idCtr + k)
      some ({ t with
        pc := if 0 < enqueued then .register (ids.take enqueued) enqueued else .loopHead
        idCtr := t.idCtr + take }, m)
    else none
  | .register (id :: ids) sent, .insert nowNs =>
    some ({ t with pc := .register ids sent }, { m with slots := insert m.slots id nowNs })
  | .register [] sent, .countSent =>
    let localSent := t.localSent + sent
    some ({ t with pc := if flushN ≤ localSent then .flushStats false else .loopHead, localSent }, m)
  | .flushStats out, .flushStats nowNs =>
    some ({ t with pc := .flushGate out }, { m with stats := m.stats.incSentN t.localSent nowNs })
  | .flushGate out, .flushGate =>
    some ({ t with pc := if out then .done else .loopHead, localSent := 0 },
      if 0 < cfg.maxOutstanding then { m with globalInFlight := m.globalInFlight + t.localSent } else m)
  | _, _ => none

/-- What a step of a sender can be. -/
inductive Stepped (cfg : Config) (N : ℕ) (i : Fin N) (t : Tx) (m : Shared) : TxAct → Tx → Shared → Prop
  | checkShutdown (hpc : t.pc = .loopHead) :
      Stepped cfg N i t m .checkShutdown { t with pc := if m.shutdown then t.leave else .rate } m
  | loadRate (qps : ℕ) (hpc : t.pc = .rate) :
      Stepped cfg N i t m (.loadRate qps) { t with pc := .gate (0 < qps) } m
  | held (rated : Bool) (hpc : t.pc = .gate rated)
      (hfull : 0 < cfg.maxOutstanding ∧ cfg.maxOutstanding ≤ m.globalInFlight) :
      Stepped cfg N i t m .loadGate { t with pc := .loopHead } m
  | passed (rated : Bool) (hpc : t.pc = .gate rated)
      (hroom : ¬ (0 < cfg.maxOutstanding ∧ cfg.maxOutstanding ≤ m.globalInFlight)) :
      Stepped cfg N i t m .loadGate
        { t with pc := if rated then .pace else .transmit (headroom cfg m.globalInFlight) } m
  | due (hpc : t.pc = .pace) : Stepped cfg N i t m .due { t with pc := .transmitOne } m
  | sleep (hpc : t.pc = .pace) :
      Stepped cfg N i t m .sleep { t with pc := if m.shutdown then t.leave else .transmitOne } m
  | transmitOne (ok : Bool) (hpc : t.pc = .transmitOne) :
      Stepped cfg N i t m (.transmitOne ok)
        { t with
          pc := if ok then .register [idAt N i t.idCtr] 1 else .loopHead
          idCtr := t.idCtr + 1 } m
  | transmit (room pool enqueued : ℕ) (hpc : t.pc = .transmit room)
      (henqueued : enqueued ≤ min room pool) :
      Stepped cfg N i t m (.transmit pool enqueued)
        { t with
          pc := if 0 < enqueued then
              .register (((List.range (min room pool)).map fun k => idAt N i (t.idCtr + k)).take enqueued)
                enqueued
            else .loopHead
          idCtr := t.idCtr + min room pool } m
  | insert (id : QueryId) (ids : List QueryId) (sent nowNs : ℕ)
      (hpc : t.pc = .register (id :: ids) sent) :
      Stepped cfg N i t m (.insert nowNs) { t with pc := .register ids sent }
        { m with slots := Inflight.insert m.slots id nowNs }
  | countSent (sent : ℕ) (hpc : t.pc = .register [] sent) :
      Stepped cfg N i t m .countSent
        { t with
          pc := if flushN ≤ t.localSent + sent then .flushStats false else .loopHead
          localSent := t.localSent + sent } m
  | flushStats (out : Bool) (nowNs : ℕ) (hpc : t.pc = .flushStats out) :
      Stepped cfg N i t m (.flushStats nowNs) { t with pc := .flushGate out }
        { m with stats := m.stats.incSentN t.localSent nowNs }
  | flushGate (out : Bool) (hpc : t.pc = .flushGate out) :
      Stepped cfg N i t m .flushGate { t with pc := if out then .done else .loopHead, localSent := 0 }
        (if 0 < cfg.maxOutstanding then { m with globalInFlight := m.globalInFlight + t.localSent }
          else m)

theorem step_cases {cfg : Config} {N : ℕ} {i : Fin N} {t t' : Tx} {m m' : Shared} {a : TxAct}
    (h : t.step cfg N i m a = some (t', m')) : Stepped cfg N i t m a t' m' := by
  unfold step at h
  split at h
  · cases h
    exact .checkShutdown ‹_›
  · cases h
    exact .loadRate _ ‹_›
  · split at h <;> cases h
    · exact .held _ ‹_› ‹_›
    · exact .passed _ ‹_› ‹_›
  · cases h
    exact .due ‹_›
  · cases h
    exact .sleep ‹_›
  · cases h
    exact .transmitOne _ ‹_›
  · simp only at h
    split at h <;> cases h
    exact .transmit _ _ _ ‹_› ‹_›
  · cases h
    exact .insert _ _ _ _ ‹_›
  · cases h
    exact .countSent _ ‹_›
  · cases h
    exact .flushStats _ _ ‹_›
  · cases h
    exact .flushGate _ ‹_›
  · cases h

end Tx

/-! ## The receiver -/

/-- Where in its loop a receiver is. -/
inductive RxPc where
  /-- Before the load of `shutdown`. -/
  | loopHead
  /-- Before `consume_rx`. -/
  | receive
  /-- In the loop over the received frames, `completed` of them matched. -/
  | matching (completed : ℕ)
  /-- Before the 10 ms sweep. -/
  | maySweep
  | sweep (sc : Scan .inFlight)
  /-- Before the `inc_timeout`s for `expired` slots. -/
  | timeouts (expired : ℕ)
  /-- Before `expired` slots are taken off `global_in_flight`. -/
  | releaseExpired (expired : ℕ)
  | done

inductive RxAct where
  | checkShutdown
  | noFrames
  | frames
  | frame (bytes : List UInt8) (nowNs : ℕ)
  | endFrames
  | startSweep (nowNs : ℕ)
  | noSweep
  | sweepStep
  | countTimeouts
  | releaseExpired
deriving DecidableEq, Repr

namespace RxPc

/-- A reply: the slot is taken, and a match is counted and reported. -/
def reply (m : Shared) (completed : ℕ) (id : QueryId) (rcode nowNs : ℕ) : RxPc × Shared :=
  let rtt := takeRtt .inFlight m.slots id nowNs
  (.matching (if rtt.isSome then completed + 1 else completed),
    { m with
      slots := free m.slots (takeFreed m.slots id)
      stats := rtt.elim m.stats (m.stats.recordResponse rcode) })

/-- One access of a receiver; its position is all that it keeps. -/
def step (cfg : Config) (pc : RxPc) (m : Shared) (a : RxAct) : Option (RxPc × Shared) :=
  match pc, a with
  | .loopHead, .checkShutdown => some (if m.shutdown then .done else .receive, m)
  | .receive, .noFrames => some (.maySweep, m)
  | .receive, .frames => some (.matching 0, m)
  | .matching completed, .frame bytes nowNs =>
    match parseDnsFromFrame bytes with
    | .ok (some (id, rcode)) => some (reply m completed id rcode nowNs)
    | .ok none => some (.matching completed, m)
    -- an access out of bounds ends the process
    | .error _ => none
  | .matching completed, .endFrames =>
    some (.maySweep,
      if 0 < completed then { m with globalInFlight := m.globalInFlight - completed } else m)
  | .maySweep, .startSweep nowNs => some (.sweep (.start .inFlight nowNs cfg.timeoutNs), m)
  | .maySweep, .noSweep => some (.loopHead, m)
  | .sweep sc, .sweepStep =>
    match sc.step m.slots with
    | some (sc', freed) => some (.sweep sc', { m with slots := free m.slots freed })
    | none => some (if 0 < sc.n then .timeouts sc.n else .loopHead, m)
  | .timeouts expired, .countTimeouts =>
    some (.releaseExpired expired, { m with stats := m.stats.incTimeouts expired })
  | .releaseExpired expired, .releaseExpired =>
    some (.loopHead, { m with globalInFlight := m.globalInFlight - expired })
  | _, _ => none

/-- A reply to a registered id is matched. -/
theorem reply_of_occupied {m : Shared} {id : QueryId} (h : m.slots id ≠ 0) (completed rcode nowNs : ℕ) :
    reply m completed id rcode nowNs
      = (.matching (completed + 1),
        { m with
          slots := m.slots.clear id
          stats := m.stats.recordResponse rcode (Table.rtt .inFlight nowNs (m.slots id)) }) := by
  simp [reply, takeRtt, takeFreed, h]

/-- A reply to an id that is not registered is dropped. -/
theorem reply_of_empty {m : Shared} {id : QueryId} (h : m.slots id = 0) (completed rcode nowNs : ℕ) :
    reply m completed id rcode nowNs = (.matching completed, m) := by
  simp [reply, takeRtt, takeFreed, h]

/-- What a step of a receiver can be. -/
inductive Stepped (cfg : Config) (m : Shared) : RxPc → RxAct → RxPc → Shared → Prop
  | checkShutdown : Stepped cfg m .loopHead .checkShutdown (if m.shutdown then .done else .receive) m
  | noFrames : Stepped cfg m .receive .noFrames .maySweep m
  | frames : Stepped cfg m .receive .frames (.matching 0) m
  | reply (completed : ℕ) (bytes : List UInt8) (nowNs : ℕ) (id : QueryId) (rcode : ℕ)
      (hparse : parseDnsFromFrame bytes = .ok (some (id, rcode))) :
      Stepped cfg m (.matching completed) (.frame bytes nowNs) (reply m completed id rcode nowNs).1
        (reply m completed id rcode nowNs).2
  | noReply (completed : ℕ) (bytes : List UInt8) (nowNs : ℕ)
      (hparse : parseDnsFromFrame bytes = .ok none) :
      Stepped cfg m (.matching completed) (.frame bytes nowNs) (.matching completed) m
  | endFrames (completed : ℕ) :
      Stepped cfg m (.matching completed) .endFrames .maySweep
        (if 0 < completed then { m with globalInFlight := m.globalInFlight - completed } else m)
  | startSweep (nowNs : ℕ) :
      Stepped cfg m .maySweep (.startSweep nowNs) (.sweep (.start .inFlight nowNs cfg.timeoutNs)) m
  | noSweep : Stepped cfg m .maySweep .noSweep .loopHead m
  | sweepStep (sc sc' : Scan .inFlight) (freed : Option QueryId)
      (hsc : sc.step m.slots = some (sc', freed)) :
      Stepped cfg m (.sweep sc) .sweepStep (.sweep sc') { m with slots := free m.slots freed }
  | endSweep (sc : Scan .inFlight) (hsc : sc.step m.slots = none) :
      Stepped cfg m (.sweep sc) .sweepStep (if 0 < sc.n then .timeouts sc.n else .loopHead) m
  | countTimeouts (expired : ℕ) :
      Stepped cfg m (.timeouts expired) .countTimeouts (.releaseExpired expired)
        { m with stats := m.stats.incTimeouts expired }
  | releaseExpired (expired : ℕ) :
      Stepped cfg m (.releaseExpired expired) .releaseExpired .loopHead
        { m with globalInFlight := m.globalInFlight - expired }

theorem step_cases {cfg : Config} {pc pc' : RxPc} {m m' : Shared} {a : RxAct}
    (h : pc.step cfg m a = some (pc', m')) : Stepped cfg m pc a pc' m' := by
  unfold step at h
  split at h
  · cases h
    exact .checkShutdown
  · cases h
    exact .noFrames
  · cases h
    exact .frames
  · split at h
    · obtain ⟨rfl, rfl⟩ := Prod.ext_iff.mp (Option.some.inj h)
      exact .reply _ _ _ _ _ ‹_›
    · cases h
      exact .noReply _ _ _ ‹_›
    · cases h
  · cases h
    exact .endFrames _
  · cases h
    exact .startSweep _
  · cases h
    exact .noSweep
  · split at h <;> cases h
    · exact .sweepStep _ _ _ ‹_›
    · exact .endSweep _ ‹_›
  · cases h
    exact .countTimeouts _
  · cases h
    exact .releaseExpired _
  · cases h

end RxPc

/-! ## Both together -/

/-- A thread of the path. -/
inductive Thread where
  | tx (t : Tx)
  | rx (pc : RxPc)

inductive Act where
  | tx (a : TxAct)
  | rx (a : RxAct)
deriving DecidableEq, Repr

/-- One access of a thread. -/
def Thread.step (cfg : Config) (N R : ℕ) (i : Fin N ⊕ Fin R) (th : Thread) (m : Shared) (a : Act) :
    Option (Thread × Shared) :=
  match i, th, a with
  | .inl i, .tx t, .tx a => (t.step cfg N i m a).map fun (t', m') => (.tx t', m')
  | .inr _, .rx pc, .rx a => (pc.step cfg m a).map fun (pc', m') => (.rx pc', m')
  | _, _, _ => none

/-- `N` senders, `R` receivers and the engine. -/
def threads (cfg : Config) (N R : ℕ) : Threads (Fin N ⊕ Fin R) Thread Shared Act EngineAct where
  step i th m a := th.step cfg N R i m a
  env _ m k := some (m.engine k)

abbrev State (N R : ℕ) := Threads.State (Fin N ⊕ Fin R) Thread Shared

/-- Every thread before its loop, nothing counted. -/
def State.start (N R : ℕ) : State N R :=
  ⟨Sum.elim (fun _ => .tx .new) (fun _ => .rx .loopHead), .new⟩

/-- A step of a thread is a step of its sender or of its receiver. -/
theorem Thread.step_cases {cfg : Config} {N R : ℕ} {i : Fin N ⊕ Fin R} {th th' : Thread} {m m' : Shared}
    {a : Act} (h : th.step cfg N R i m a = some (th', m')) :
    (∃ j t t' b, i = .inl j ∧ th = .tx t ∧ th' = .tx t' ∧ a = .tx b ∧ Tx.Stepped cfg N j t m b t' m') ∨
      ∃ pc pc' b, th = .rx pc ∧ th' = .rx pc' ∧ a = .rx b ∧ RxPc.Stepped cfg m pc b pc' m' := by
  unfold Thread.step at h
  split at h
  · obtain ⟨⟨t', m''⟩, hstep, heq⟩ := Option.map_eq_some_iff.mp h
    cases heq
    exact .inl ⟨_, _, _, _, rfl, rfl, rfl, rfl, Tx.step_cases hstep⟩
  · obtain ⟨⟨pc', m''⟩, hstep, heq⟩ := Option.map_eq_some_iff.mp h
    cases heq
    exact .inr ⟨_, _, _, rfl, rfl, rfl, RxPc.step_cases hstep⟩
  · cases h

end Dnsmark.Xdp.Split
