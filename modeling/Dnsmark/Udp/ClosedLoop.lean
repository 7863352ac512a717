import Dnsmark.Common.Machine
import Dnsmark.Dns.Response
import Dnsmark.Stats.Collector

/-!
# The closed-loop UDP worker

`closed_loop_unified` of `src/transport/udp.rs`: one thread per worker that fills the pipe up to
`max_outstanding`, drains replies with one `recvmmsg`, matches each reply by its 16-bit id and
sweeps timed-out slots.  The id is the slot index, so the in-flight table is a `SlotTable` over
`QueryId` whose stamps are send times in nanoseconds; a real send time of `0` is stored as `1`.

An `Event` is one pass through one of the three parts of the loop body together with what the kernel
and the clock answered: a `send` that returned, a `recvmmsg` batch, a sweep.  `Worker.step` is the
code of that part.  The rate limiter only decides when a part runs, never what it does.

`Worker.satSubs` is bookkeeping of the model: the operands of every `saturating_sub` on
`outstanding`, so that "it never saturates" can be said about a run.
-/

namespace Dnsmark.Udp

open Dnsmark.Stats

/-- The arguments of the worker that stay fixed during its loop. -/
structure Config where
  maxOutstanding : ℕ
  timeoutNs : ℕ
deriving DecidableEq, Repr

/-- The locals of one worker. -/
structure Worker where
  slots : SlotTable QueryId
  outstanding : ℕ
  nextId : QueryId
  satSubs : List (ℕ × ℕ)

/-- What one part of the loop body saw of the outside. -/
inductive Event where
  /-- `libc::send` accepted the query stamped `sendNs`. -/
  | send (sendNs : ℕ)
  /-- `libc::send` failed, with `WouldBlock` or with another error. -/
  | sendFailed (wouldBlock : Bool)
  /-- `recvmmsg` returned a batch; `recvNs` is read once for the whole batch. -/
  | recv (recvNs : ℕ) (msgs : List Datagram)
  /-- The 10 ms sweep ran at `nowNs`. -/
  | sweep (nowNs : ℕ)
deriving DecidableEq, Repr

/-- The clock reading of an event. -/
def Event.clock? : Event → Option ℕ
  | .send t => some t
  | .sendFailed _ => none
  | .recv t _ => some t
  | .sweep t => some t

/-- The clock readings of a run never go back. -/
def ClockOrdered (es : List Event) : Prop := (es.filterMap Event.clock?).Pairwise (· ≤ ·)

namespace Worker

/-- The worker as its loop starts; `next_id` is random. -/
def new (nextId : QueryId) : Worker where
  slots := .empty
  outstanding := 0
  nextId := nextId
  satSubs := []

/-- `outstanding = outstanding.saturating_sub(n)`. -/
def saturatingSub (w : Worker) (n : ℕ) : Worker :=
  { w with outstanding := w.outstanding - n, satSubs := (w.outstanding, n) :: w.satSubs }

/-- The send part after `libc::send` accepted the query: stamp the slot of `next_id`, whatever it
held. -/
def sent (w : Worker) (sendNs : ℕ) : Worker :=
  { w with
    slots := w.slots.store w.nextId (max sendNs 1)
    outstanding := w.outstanding + 1
    nextId := w.nextId + 1 }

/-- A reply matched slot `id`. -/
def complete (w : Worker) (id : QueryId) : Worker :=
  { w with slots := w.slots.clear id }.saturatingSub 1

/-- A slot this old is swept: `now_ns.saturating_sub(*s) >= timeout_ns`. -/
def expired (cfg : Config) (nowNs s : ℕ) : Bool := decide (cfg.timeoutNs ≤ nowNs - s)

/-- What a matched reply reports: its round trip, or only its response code when it came after the
timeout. -/
def report (cfg : Config) (st : StatsCollector) (rcode rttNs : ℕ) : StatsCollector :=
  if rttNs ≤ cfg.timeoutNs then st.recordResponse rcode (max (rttNs / 1000) 1)
  else st.recordRcodes (.one rcode)

/-- The body of the receive loop for one datagram.  The first four bytes decide: a shorter datagram
is skipped, the id is in the first two, the response code in the low half of the fourth. -/
def recvOne (cfg : Config) (recvNs : ℕ) (p : Worker × StatsCollector) (msg : Datagram) :
    Worker × StatsCollector :=
  match msg.take maxMsgSize with
  | b0 :: b1 :: _ :: b3 :: _ =>
    let id := (u16FromBeBytes b0 b1).toFin
    let s := p.1.slots id
    if s ≠ 0 then
      (p.1.complete id, report cfg p.2 (b3 &&& 0x0f).toNat (recvNs - s))
    else p
  | _ => p

/-- The sweep: free every expired slot and count it as a timeout. -/
def sweep (cfg : Config) (nowNs : ℕ) (p : Worker × StatsCollector) : Worker × StatsCollector :=
  let freed := p.1.slots.staleCount (expired cfg nowNs)
  let w := { p.1 with slots := p.1.slots.sweep (expired cfg nowNs) }
  if 0 < freed then (w.saturatingSub freed, p.2.incTimeouts freed) else (w, p.2)

/-- One part of the loop body.  Both outcomes of a send are only reached through the gate
`outstanding < max_outstanding`, and both consume an id. -/
def step (cfg : Config) (p : Worker × StatsCollector) : Event → Option (Worker × StatsCollector)
  | .send sendNs =>
    if p.1.outstanding < cfg.maxOutstanding then some (p.1.sent sendNs, p.2.incSent) else none
  | .sendFailed wouldBlock =>
    if p.1.outstanding < cfg.maxOutstanding then
      some ({ p.1 with nextId := p.1.nextId + 1 }, if wouldBlock then p.2 else p.2.incError)
    else none
  | .recv recvNs msgs => some (msgs.foldl (recvOne cfg recvNs) p)
  | .sweep nowNs => some (sweep cfg nowNs p)

/-- One worker on its own, with the collector it reports to. -/
def machine (cfg : Config) : Machine (Worker × StatsCollector) Event := ⟨step cfg⟩

/-! ## What each part does

Every invariant below is derived from these four lemmas; no later proof unfolds `step`. -/

variable {cfg : Config}

/-- One datagram either changes nothing or completes one occupied slot and reports it. -/
theorem recvOne_cases (cfg : Config) (recvNs : ℕ) (p : Worker × StatsCollector) (msg : Datagram) :
    recvOne cfg recvNs p msg = p ∨
    ∃ id rcode, p.1.slots id ≠ 0 ∧
      recvOne cfg recvNs p msg
        = (p.1.complete id, report cfg p.2 rcode (recvNs - p.1.slots id)) := by
  unfold recvOne
  split
  · rename_i b0 b1 _ b3 _ _
    by_cases hs : p.1.slots (u16FromBeBytes b0 b1).toFin ≠ 0
    · exact .inr ⟨(u16FromBeBytes b0 b1).toFin, (b3 &&& 0x0f).toNat, hs, if_pos hs⟩
    · exact .inl (if_neg hs)
  · exact .inl rfl

/-- A property kept by completing an occupied slot is kept by a whole receive batch. -/
theorem recv_induction (cfg : Config) {P : Worker × StatsCollector → Prop} (recvNs : ℕ)
    (hstep : ∀ p id rcode, P p → p.1.slots id ≠ 0 →
      P (p.1.complete id, report cfg p.2 rcode (recvNs - p.1.slots id)))
    (p : Worker × StatsCollector) (msgs : List Datagram) (hp : P p) :
    P (msgs.foldl (recvOne cfg recvNs) p) := by
  induction msgs generalizing p with
  | nil => exact hp
  | cons msg msgs ih =>
    refine ih _ ?_
    obtain h | ⟨id, rcode, hs, h⟩ := recvOne_cases cfg recvNs p msg
    · rw [h]
      exact hp
    · rw [h]
      exact hstep p id rcode hp hs

/-- A sweep that frees nothing changes nothing. -/
theorem sweep_eq (cfg : Config) (nowNs : ℕ) (p : Worker × StatsCollector) :
    sweep cfg nowNs p
        = ({ p.1 with slots := p.1.slots.sweep (expired cfg nowNs) }, p.2) ∧
          p.1.slots.staleCount (expired cfg nowNs) = 0 ∨
    sweep cfg nowNs p
        = ({ p.1 with slots := p.1.slots.sweep (expired cfg nowNs) }.saturatingSub
            (p.1.slots.staleCount (expired cfg nowNs)),
          p.2.incTimeouts (p.1.slots.staleCount (expired cfg nowNs))) := by
  unfold sweep
  by_cases h : 0 < p.1.slots.staleCount (expired cfg nowNs)
  · exact .inr (if_pos h)
  · exact .inl ⟨if_neg h, by omega⟩

/-- A reply to an occupied slot completes it. -/
theorem recvOne_replyTo (recvNs : ℕ) (p : Worker × StatsCollector) (id : QueryId)
    (hs : p.1.slots id ≠ 0) :
    recvOne cfg recvNs p (replyTo id)
      = (p.1.complete id, report cfg p.2 0 (recvNs - p.1.slots id)) := by
  simp only [recvOne, replyTo, maxMsgSize, List.take_succ_cons, u16FromBeBytes_ofNat]
  rw [if_pos hs]
  rfl

/-- What a step can be. -/
theorem step_cases {p p' : Worker × StatsCollector} {e : Event} (h : step cfg p e = some p') :
    (∃ t, e = .send t ∧ p.1.outstanding < cfg.maxOutstanding ∧
      p' = (p.1.sent t, p.2.incSent)) ∨
    (∃ b, e = .sendFailed b ∧ p.1.outstanding < cfg.maxOutstanding ∧
      p' = ({ p.1 with nextId := p.1.nextId + 1 }, if b then p.2 else p.2.incError)) ∨
    (∃ t msgs, e = .recv t msgs ∧ p' = msgs.foldl (recvOne cfg t) p) ∨
    (∃ t, e = .sweep t ∧ p' = sweep cfg t p) := by
  cases e with
  | send t =>
    simp only [step] at h
    split at h
    · exact .inl ⟨t, rfl, ‹_›, (Option.some.inj h).symm⟩
    · cases h
  | sendFailed b =>
    simp only [step] at h
    split at h
    · exact .inr (.inl ⟨b, rfl, ‹_›, (Option.some.inj h).symm⟩)
    · cases h
  | recv t msgs => exact .inr (.inr (.inl ⟨t, msgs, rfl, (Option.some.inj h).symm⟩))
  | sweep t => exact .inr (.inr (.inr ⟨t, rfl, (Option.some.inj h).symm⟩))

section Fields

variable (w : Worker) (n : ℕ) (id : QueryId)

@[simp] theorem saturatingSub_slots : (w.saturatingSub n).slots = w.slots := rfl
@[simp] theorem saturatingSub_outstanding :
    (w.saturatingSub n).outstanding = w.outstanding - n := rfl
@[simp] theorem saturatingSub_nextId : (w.saturatingSub n).nextId = w.nextId := rfl
@[simp] theorem saturatingSub_satSubs :
    (w.saturatingSub n).satSubs = (w.outstanding, n) :: w.satSubs := rfl

@[simp] theorem sent_slots : (w.sent n).slots = w.slots.store w.nextId (max n 1) := rfl
@[simp] theorem sent_outstanding : (w.sent n).outstanding = w.outstanding + 1 := rfl
@[simp] theorem sent_nextId : (w.sent n).nextId = w.nextId + 1 := rfl
@[simp] theorem sent_satSubs : (w.sent n).satSubs = w.satSubs := rfl

@[simp] theorem complete_slots : (w.complete id).slots = w.slots.clear id := rfl
@[simp] theorem complete_outstanding : (w.complete id).outstanding = w.outstanding - 1 := rfl
@[simp] theorem complete_nextId : (w.complete id).nextId = w.nextId := rfl
@[simp] theorem complete_satSubs :
    (w.complete id).satSubs = (w.outstanding, 1) :: w.satSubs := rfl

end Fields

end Worker

end Dnsmark.Udp
