import Dnsmark.Common.Machine
import Dnsmark.Engine.Shutdown
import Dnsmark.Inflight.Table

/-!
# The unified AF_XDP worker

`xdp_unified_worker` of `src/transport/xdp/receiver.rs`: one thread for each NIC queue that sends,
receives and, in worker 0, sweeps, over one `InFlight` table and one `global_in_flight` counter
shared by all.

A worker is a position in the loop body (`Pc`) with its local accumulators.  One `Act` is one access
to the shared memory together with the local code up to the next one; what the outside answers (the
clock, the frames the rate limiter grants, the free frames, how many descriptors the TX ring took,
the next reply) is an argument of the act.  A reply is named when it is matched, so a batch of
received frames is `replies`, any number of `reply`s and `endReplies`; frames that do not parse
change nothing and are left out.  `workers` interleaves the threads with the two things the engine
does to them.

The engine starts the worker with `firehose` set exactly when `max_outstanding` is 0.
-/

namespace Dnsmark.Xdp

open Dnsmark.Stats Dnsmark.Inflight Dnsmark.Engine

/-- `TX_BATCH`. -/
def txBatch : ℕ := 64

/-- `FLUSH_N`: sends counted locally before they are added to the collector. -/
def flushN : ℕ := 1024

/-- `RC_FLUSH`: replies counted locally in firehose mode. -/
def rcFlush : ℕ := 4096

/-- The arguments of a worker that all workers share. -/
structure Config where
  maxOutstanding : ℕ
  timeoutNs : ℕ
  trackLatency : Bool
deriving DecidableEq, Repr

/-- No gate and no matching of every reply. -/
def Config.firehose (cfg : Config) : Bool := cfg.maxOutstanding == 0

theorem Config.firehose_eq_false {cfg : Config} (h : 0 < cfg.maxOutstanding) : cfg.firehose = false :=
  beq_eq_false_iff_ne.mpr h.ne'

/-- `id & LAT_SAMPLE_MASK == 0`: one id in 64 is sampled for latency in firehose mode. -/
def sampled (id : QueryId) : Bool := id.val &&& 0x3f == 0

/-- The ids of a batch that are inserted into the table. -/
def Config.registered (cfg : Config) (ids : List QueryId) : List QueryId :=
  if cfg.firehose then if cfg.trackLatency then ids.filter sampled else [] else ids

/-- `id_span`, for `numWorkers` workers. -/
def idSpan (numWorkers : ℕ) : ℕ := max (65536 / max numWorkers 1) 1

/-- `id_base` of a worker, a `u16`. -/
def idBase (numWorkers workerId : ℕ) : QueryId :=
  Fin.ofNat 65536 (workerId % max numWorkers 1 * idSpan numWorkers)

/-- The id of a worker's frame number `idCtr`. -/
def idAt (numWorkers workerId idCtr : ℕ) : QueryId :=
  idBase numWorkers workerId + Fin.ofNat 65536 (idCtr % idSpan numWorkers)

/-- Where in the loop a worker is. -/
inductive Pc where
  /-- Before the load of `shutdown`. -/
  | loopHead
  /-- Before the load of `global_in_flight`. -/
  | gate
  /-- Before the TX batch. -/
  | transmit (headroom : ℕ)
  /-- After the kick of `enq` frames; `ids` are still to be inserted. -/
  | register (ids : List QueryId) (enq : ℕ)
  /-- Before `enq` is added to the local send count. -/
  | countSent (enq : ℕ)
  /-- Before `consume_rx`. -/
  | receive
  /-- In the loop over the received frames, `completed` of them matched. -/
  | matching (completed : ℕ)
  /-- Before the 10 ms sweep. -/
  | expire
  | sweep (sc : Scan .inFlight)
  /-- Before the `inc_timeout`s for `expired` slots. -/
  | timeouts (expired : ℕ)
  /-- Before `expired` slots are taken off `global_in_flight`. -/
  | releaseExpired (expired : ℕ)
  /-- Out of the loop. -/
  | drain (d : Drain)
  | flushSent
  | flushRcodes
  | done

/-- The locals of a worker.  `localSubmitted` and `answered` count everything the worker sent and
completed; nothing in the code reads them. -/
structure UnifiedWorker where
  pc : Pc
  idCtr : ℕ
  localSubmitted : ℕ
  answered : ℕ
  subAcc : ℕ
  rc : RcodeCounts
  rcAcc : ℕ

/-- What the workers and the engine share. -/
structure Shared where
  slots : SlotTable QueryId
  globalInFlight : ℕ
  stats : StatsCollector
  shutdown : Bool

/-- One access of a worker to the shared memory. -/
inductive Act where
  | checkShutdown
  /-- The rate limiter granted `grant` frames. -/
  | gate (grant : ℕ)
  /-- `pool` frames were free, the TX ring took `enq`. -/
  | transmit (pool enq : ℕ)
  | insert (nowNs : ℕ)
  | addInFlight
  | countSent (nowNs : ℕ)
  | replies
  | noReplies
  | reply (id : QueryId) (rcode nowNs : ℕ)
  | endReplies
  | startSweep (nowNs : ℕ)
  | noSweep
  | sweepStep
  | countTimeouts
  | releaseExpired
  | drainStep
  | flushSent (nowNs : ℕ)
  | flushRcodes
deriving DecidableEq, Repr

namespace UnifiedWorker

/-- The worker as its loop starts. -/
def new : UnifiedWorker where
  pc := .loopHead
  idCtr := 0
  localSubmitted := 0
  answered := 0
  subAcc := 0
  rc := {}
  rcAcc := 0

/-- `headroom`: what the rate limiter grants, under the gate in closed loop. -/
def headroom (cfg : Config) (grant globalInFlight : ℕ) : ℕ :=
  if 0 < cfg.maxOutstanding then min grant (cfg.maxOutstanding - globalInFlight) else grant

/-- The TX step: `min(headroom, free frames)` frames are filled, the ring takes the first `enq`. -/
def transmit (cfg : Config) (N : ℕ) (i : Fin N) (w : UnifiedWorker) (headroom pool enq : ℕ) :
    UnifiedWorker :=
  let take := min headroom pool
  let ids := (List.range take).map fun k => idAt N i (w.idCtr + k)
  let w := { w with idCtr := w.idCtr + take }
  if 0 < enq then { w with pc := .register (cfg.registered (ids.take enq)) enq }
  else { w with pc := .receive }

/-- `enq` frames were submitted; every `FLUSH_N` of them are added to the collector. -/
def countSent (w : UnifiedWorker) (m : Shared) (enq nowNs : ℕ) : UnifiedWorker × Shared :=
  let w := { w with
    pc := .receive, localSubmitted := w.localSubmitted + enq, subAcc := w.subAcc + enq }
  if flushN ≤ w.subAcc then ({ w with subAcc := 0 }, { m with stats := m.stats.incSentN w.subAcc nowNs })
  else (w, m)

/-- One reply: counted in firehose mode, matched in closed loop. -/
def reply (cfg : Config) (w : UnifiedWorker) (m : Shared) (completed : ℕ) (id : QueryId)
    (rcode nowNs : ℕ) : UnifiedWorker × Shared :=
  let rtt := takeRtt .inFlight m.slots id nowNs
  if cfg.firehose then
    let w := { w with rc := w.rc.add (.one rcode), rcAcc := w.rcAcc + 1, answered := w.answered + 1 }
    if cfg.trackLatency && sampled id then
      (w, { m with
        slots := free m.slots (takeFreed m.slots id)
        stats := rtt.elim m.stats m.stats.recordLatencyUs })
    else (w, m)
  else
    ({ w with
        pc := .matching (if rtt.isSome then completed + 1 else completed)
        answered := if rtt.isSome then w.answered + 1 else w.answered },
      { m with
        slots := free m.slots (takeFreed m.slots id)
        stats := rtt.elim m.stats (m.stats.recordResponse rcode) })

/-- After the last frame: flush the local reply counts, or take the matched replies off the gate. -/
def endReplies (cfg : Config) (w : UnifiedWorker) (m : Shared) (completed : ℕ) :
    UnifiedWorker × Shared :=
  let w := { w with pc := .expire }
  if cfg.firehose then
    if rcFlush ≤ w.rcAcc then
      ({ w with rc := {}, rcAcc := 0 }, { m with stats := m.stats.recordRcodes w.rc })
    else (w, m)
  else (w, { m with globalInFlight := m.globalInFlight - completed })

/-- One access of worker `i` to the shared memory. -/
def step (cfg : Config) (N : ℕ) (i : Fin N) (w : UnifiedWorker) (m : Shared) (a : Act) :
    Option (UnifiedWorker × Shared) :=
  match w.pc, a with
  | .loopHead, .checkShutdown =>
    if m.shutdown then
      -- only worker 0 drains the shared table
      some ({ w with pc := if i.val = 0 then .drain .start else .flushSent }, m)
    else some ({ w with pc := .gate }, m)
  | .gate, .gate grant =>
    if grant ≤ txBatch then
      let headroom := headroom cfg grant m.globalInFlight
      some ({ w with pc := if 0 < headroom then .transmit headroom else .receive }, m)
    else none
  | .transmit headroom, .transmit pool enq =>
    if enq ≤ min headroom pool then some (transmit cfg N i w headroom pool enq, m) else none
  | .register (id :: ids) enq, .insert nowNs =>
    some ({ w with pc := .register ids enq }, { m with slots := insert m.slots id nowNs })
  | .register [] enq, .addInFlight =>
    if cfg.firehose then some ({ w with pc := .countSent enq }, m)
    else some ({ w with pc := .countSent enq },
      { m with
        globalInFlight := m.globalInFlight + enq
        stats := m.stats.recordInflight (m.globalInFlight + enq) })
  | .countSent enq, .countSent nowNs => some (countSent w m enq nowNs)
  | .receive, .replies => some ({ w with pc := .matching 0 }, m)
  | .receive, .noReplies => some ({ w with pc := .expire }, m)
  | .matching completed, .reply id rcode nowNs => some (reply cfg w m completed id rcode nowNs)
  | .matching completed, .endReplies => some (endReplies cfg w m completed)
  | .expire, .startSweep nowNs =>
    if i.val = 0 then some ({ w with pc := .sweep (.start .inFlight nowNs cfg.timeoutNs) }, m) else none
  | .expire, .noSweep => some ({ w with pc := .loopHead }, m)
  | .sweep sc, .sweepStep =>
    match sc.step m.slots with
    | some (sc', freed) => some ({ w with pc := .sweep sc' }, { m with slots := free m.slots freed })
    | none => some ({ w with pc := if 0 < sc.n then .timeouts sc.n else .loopHead }, m)
  | .timeouts expired, .countTimeouts =>
    some ({ w with pc := if cfg.firehose then .loopHead else .releaseExpired expired },
      { m with stats := m.stats.incTimeouts expired })
  | .releaseExpired expired, .releaseExpired =>
    some ({ w with pc := .loopHead }, { m with globalInFlight := m.globalInFlight - expired })
  | .drain d, .drainStep =>
    match d.step m.slots with
    | some (d', freed) => some ({ w with pc := .drain d' }, { m with slots := free m.slots freed })
    | none => some ({ w with pc := .flushSent }, { m with stats := m.stats.incTimeouts d.n })
  | .flushSent, .flushSent nowNs =>
    some ({ w with pc := .flushRcodes, subAcc := 0 },
      { m with stats := if 0 < w.subAcc then m.stats.incSentN w.subAcc nowNs else m.stats })
  | .flushRcodes, .flushRcodes =>
    some ({ w with pc := .done, rc := {}, rcAcc := 0 },
      { m with stats := if 0 < w.rcAcc then m.stats.recordRcodes w.rc else m.stats })
  | _, _ => none

theorem countSent_pc (w : UnifiedWorker) (m : Shared) (enq nowNs : ℕ) :
    (w.countSent m enq nowNs).1.pc = .receive := by
  unfold countSent
  simp only
  split <;> rfl

theorem countSent_globalInFlight (w : UnifiedWorker) (m : Shared) (enq nowNs : ℕ) :
    (w.countSent m enq nowNs).2.globalInFlight = m.globalInFlight := by
  unfold countSent
  simp only
  split <;> rfl

/-- A reply leaves the worker among its replies. -/
theorem reply_pc (cfg : Config) {w : UnifiedWorker} {completed : ℕ} (hpc : w.pc = .matching completed)
    (m : Shared) (id : QueryId) (rcode nowNs : ℕ) :
    ∃ completed', (w.reply cfg m completed id rcode nowNs).1.pc = .matching completed' := by
  unfold reply
  simp only
  split
  · -- the firehose counts no matches
    refine ⟨completed, ?_⟩
    split <;> exact hpc
  · exact ⟨_, rfl⟩

theorem reply_globalInFlight (cfg : Config) (w : UnifiedWorker) (m : Shared) (completed : ℕ)
    (id : QueryId) (rcode nowNs : ℕ) :
    (w.reply cfg m completed id rcode nowNs).2.globalInFlight = m.globalInFlight := by
  unfold reply
  simp only
  split
  · split <;> rfl
  · rfl

theorem endReplies_pc (cfg : Config) (w : UnifiedWorker) (m : Shared) (completed : ℕ) :
    (w.endReplies cfg m completed).1.pc = .expire := by
  unfold endReplies
  simp only
  split
  · split <;> rfl
  · rfl

theorem endReplies_globalInFlight_le (cfg : Config) (w : UnifiedWorker) (m : Shared) (completed : ℕ) :
    (w.endReplies cfg m completed).2.globalInFlight ≤ m.globalInFlight := by
  unfold endReplies
  simp only
  split
  · split <;> exact Nat.le_refl _
  · exact Nat.sub_le _ _

/-- In closed loop a reply to a registered id is matched. -/
theorem reply_of_occupied {cfg : Config} (hloop : cfg.firehose = false) (w : UnifiedWorker) {m : Shared}
    {id : QueryId} (h : m.slots id ≠ 0) (completed rcode nowNs : ℕ) :
    w.reply cfg m completed id rcode nowNs
      = ({ w with pc := .matching (completed + 1), answered := w.answered + 1 },
        { m with
          slots := m.slots.clear id
          stats := m.stats.recordResponse rcode (Table.rtt .inFlight nowNs (m.slots id)) }) := by
  simp [reply, hloop, takeRtt, takeFreed, h]

/-- In closed loop a reply to an id that is not registered is dropped. -/
theorem reply_of_empty {cfg : Config} (hloop : cfg.firehose = false) (w : UnifiedWorker) {m : Shared}
    {id : QueryId} (h : m.slots id = 0) (completed rcode nowNs : ℕ) :
    w.reply cfg m completed id rcode nowNs = ({ w with pc := .matching completed }, m) := by
  simp [reply, hloop, takeRtt, takeFreed, h]

/-- A drain step of a worker that is draining. -/
theorem step_drain (cfg : Config) {N : ℕ} (i : Fin N) {w : UnifiedWorker} {m : Shared} {d d' : Drain}
    {freed : Option QueryId} (hpc : w.pc = .drain d) (hd : d.step m.slots = some (d', freed)) :
    w.step cfg N i m .drainStep
      = some ({ w with pc := .drain d' }, { m with slots := free m.slots freed }) := by
  unfold step
  rw [hpc]
  simp only [hd]

/-- What a step can be, one case for each way through the code of one act.  Invariants are derived
from these cases; no later proof unfolds `step`. -/
inductive Stepped (cfg : Config) (N : ℕ) (i : Fin N) (w : UnifiedWorker) (m : Shared) :
    Act → UnifiedWorker → Shared → Prop
  | goOn (hpc : w.pc = .loopHead) (hrun : m.shutdown = false) :
      Stepped cfg N i w m .checkShutdown { w with pc := .gate } m
  | leave (pc' : Pc) (hpc : w.pc = .loopHead) (hdown : m.shutdown = true)
      (hpc' : pc' = if i.val = 0 then .drain .start else .flushSent) :
      Stepped cfg N i w m .checkShutdown { w with pc := pc' } m
  | gate (grant : ℕ) (pc' : Pc) (hpc : w.pc = .gate) (hgrant : grant ≤ txBatch)
      (hpc' : pc' = .receive ∨ pc' = .transmit (headroom cfg grant m.globalInFlight)) :
      Stepped cfg N i w m (.gate grant) { w with pc := pc' } m
  | transmit (room pool enq : ℕ) (hpc : w.pc = .transmit room) (hpos : 0 < enq)
      (henq : enq ≤ min room pool) :
      Stepped cfg N i w m (.transmit pool enq)
        { w with
          idCtr := w.idCtr + min room pool
          pc := .register (cfg.registered (((List.range (min room pool)).map fun k =>
            idAt N i (w.idCtr + k)).take enq)) enq } m
  | transmitNone (room pool : ℕ) (hpc : w.pc = .transmit room) :
      Stepped cfg N i w m (.transmit pool 0)
        { w with idCtr := w.idCtr + min room pool, pc := .receive } m
  | insert (id : QueryId) (ids : List QueryId) (enq nowNs : ℕ) (hpc : w.pc = .register (id :: ids) enq) :
      Stepped cfg N i w m (.insert nowNs) { w with pc := .register ids enq }
        { m with slots := Inflight.insert m.slots id nowNs }
  | addInFlight (enq : ℕ) (hpc : w.pc = .register [] enq) (hloop : cfg.firehose = false) :
      Stepped cfg N i w m .addInFlight { w with pc := .countSent enq }
        { m with
          globalInFlight := m.globalInFlight + enq
          stats := m.stats.recordInflight (m.globalInFlight + enq) }
  | addNothing (enq : ℕ) (hpc : w.pc = .register [] enq) (hfire : cfg.firehose = true) :
      Stepped cfg N i w m .addInFlight { w with pc := .countSent enq } m
  | countSent (enq nowNs : ℕ) (hpc : w.pc = .countSent enq) :
      Stepped cfg N i w m (.countSent nowNs) (w.countSent m enq nowNs).1 (w.countSent m enq nowNs).2
  | replies (hpc : w.pc = .receive) : Stepped cfg N i w m .replies { w with pc := .matching 0 } m
  | noReplies (hpc : w.pc = .receive) : Stepped cfg N i w m .noReplies { w with pc := .expire } m
  | reply (completed : ℕ) (id : QueryId) (rcode nowNs : ℕ) (hpc : w.pc = .matching completed) :
      Stepped cfg N i w m (.reply id rcode nowNs) (w.reply cfg m completed id rcode nowNs).1
        (w.reply cfg m completed id rcode nowNs).2
  | endReplies (completed : ℕ) (hpc : w.pc = .matching completed) :
      Stepped cfg N i w m .endReplies (w.endReplies cfg m completed).1 (w.endReplies cfg m completed).2
  | startSweep (nowNs : ℕ) (hpc : w.pc = .expire) (hi : i.val = 0) :
      Stepped cfg N i w m (.startSweep nowNs)
        { w with pc := .sweep (.start .inFlight nowNs cfg.timeoutNs) } m
  | noSweep (hpc : w.pc = .expire) : Stepped cfg N i w m .noSweep { w with pc := .loopHead } m
  | sweepStep (sc sc' : Scan .inFlight) (freed : Option QueryId) (hpc : w.pc = .sweep sc)
      (hsc : sc.step m.slots = some (sc', freed)) :
      Stepped cfg N i w m .sweepStep { w with pc := .sweep sc' } { m with slots := free m.slots freed }
  | endSweep (sc : Scan .inFlight) (pc' : Pc) (hpc : w.pc = .sweep sc)
      (hpc' : 0 < sc.n ∧ pc' = .timeouts sc.n ∨ sc.n = 0 ∧ pc' = .loopHead) :
      Stepped cfg N i w m .sweepStep { w with pc := pc' } m
  | countTimeouts (expired : ℕ) (pc' : Pc) (hpc : w.pc = .timeouts expired)
      (hpc' : pc' = if cfg.firehose then .loopHead else .releaseExpired expired) :
      Stepped cfg N i w m .countTimeouts { w with pc := pc' }
        { m with stats := m.stats.incTimeouts expired }
  | releaseExpired (expired : ℕ) (hpc : w.pc = .releaseExpired expired) :
      Stepped cfg N i w m .releaseExpired { w with pc := .loopHead }
        { m with globalInFlight := m.globalInFlight - expired }
  | drainStep (d d' : Drain) (freed : Option QueryId) (hpc : w.pc = .drain d)
      (hd : d.step m.slots = some (d', freed)) :
      Stepped cfg N i w m .drainStep { w with pc := .drain d' } { m with slots := free m.slots freed }
  | endDrain (d : Drain) (hpc : w.pc = .drain d) (hd : d.step m.slots = none) :
      Stepped cfg N i w m .drainStep { w with pc := .flushSent }
        { m with stats := m.stats.incTimeouts d.n }
  | flushSent (nowNs : ℕ) (hpc : w.pc = .flushSent) :
      Stepped cfg N i w m (.flushSent nowNs) { w with pc := .flushRcodes, subAcc := 0 }
        { m with stats := if 0 < w.subAcc then m.stats.incSentN w.subAcc nowNs else m.stats }
  | flushRcodes (hpc : w.pc = .flushRcodes) :
      Stepped cfg N i w m .flushRcodes { w with pc := .done, rc := {}, rcAcc := 0 }
        { m with stats := if 0 < w.rcAcc then m.stats.recordRcodes w.rc else m.stats }

theorem step_cases {cfg : Config} {N : ℕ} {i : Fin N} {w w' : UnifiedWorker} {m m' : Shared} {a : Act}
    (h : w.step cfg N i m a = some (w', m')) : Stepped cfg N i w m a w' m' := by
  unfold step at h
  split at h
  · split at h <;> cases h
    · exact .leave _ ‹_› ‹_› rfl
    · exact .goOn ‹_› (by simpa using ‹¬ m.shutdown = true›)
  · split at h <;> cases h
    refine .gate _ _ ‹_› ‹_› ?_
    split
    · exact .inr rfl
    · exact .inl rfl
  · split at h <;> cases h
    rename_i room pool enq hpc henq
    unfold transmit
    split
    · exact .transmit room pool enq hpc ‹_› henq
    · obtain rfl : enq = 0 := by omega
      exact .transmitNone room pool hpc
  · cases h
    exact .insert _ _ _ _ ‹_›
  · split at h <;> cases h
    · exact .addNothing _ ‹_› ‹_›
    · exact .addInFlight _ ‹_› (by simpa using ‹¬ cfg.firehose = true›)
  · obtain ⟨rfl, rfl⟩ := Prod.ext_iff.mp (Option.some.inj h)
    exact .countSent _ _ ‹_›
  · cases h
    exact .replies ‹_›
  · cases h
    exact .noReplies ‹_›
  · obtain ⟨rfl, rfl⟩ := Prod.ext_iff.mp (Option.some.inj h)
    exact .reply _ _ _ _ ‹_›
  · obtain ⟨rfl, rfl⟩ := Prod.ext_iff.mp (Option.some.inj h)
    exact .endReplies _ ‹_›
  · split at h <;> cases h
    exact .startSweep _ ‹_› ‹_›
  · cases h
    exact .noSweep ‹_›
  · split at h <;> cases h
    · exact .sweepStep _ _ _ ‹_› ‹_›
    · refine .endSweep _ _ ‹_› ?_
      split
      · exact .inl ⟨‹_›, rfl⟩
      · exact .inr ⟨by omega, rfl⟩
  · cases h
    exact .countTimeouts _ _ ‹_› rfl
  · cases h
    exact .releaseExpired _ ‹_›
  · split at h <;> cases h
    · exact .drainStep _ _ _ ‹_› ‹_›
    · exact .endDrain _ ‹_› ‹_›
  · cases h
    exact .flushSent _ ‹_›
  · cases h
    exact .flushRcodes ‹_›
  · cases h

end UnifiedWorker

namespace Shared

/-- The shared memory as the workers start. -/
def new : Shared := ⟨.empty, 0, .new, false⟩

/-- What the engine does to it. -/
def engine (m : Shared) (k : EngineAct) : Shared :=
  { m with stats := k.onStats m.stats, shutdown := k.onShutdown m.shutdown }

end Shared

/-- `N` unified workers and the engine. -/
def workers (cfg : Config) (N : ℕ) : Threads (Fin N) UnifiedWorker Shared Act EngineAct where
  step i w m a := w.step cfg N i m a
  env _ m k := some (m.engine k)

/-- The states of `N` workers and what they share. -/
abbrev State (N : ℕ) := Threads.State (Fin N) UnifiedWorker Shared

/-- Every worker before its loop, nothing counted. -/
def State.start (N : ℕ) : State N := ⟨fun _ => .new, .new⟩

end Dnsmark.Xdp
