import Dnsmark.Common.Fifo
import Dnsmark.Common.Machine

/-!
# The wire latency probe

`probe` of `src/transport/wire_latency.rs`: a serial loop that sends a query, reads a TX stamp off the
socket's error queue, reads a reply with its RX stamp off the receive queue, and takes the difference.
Neither reader looks at an id.  A wait that gives up leaves its stamp or its reply to come, and it is
then read in a later iteration.

The kernel's two queues are `Fifo`s of messages; each message carries the number of its query, which the
code does not see.  The surroundings deliver the stamp and the reply of a query that was sent, each at
most once, at any later time, in any order or not at all.  A sample keeps the two numbers it was taken
from.

As neither queue loses its order, the stamp in hand is the one that arrived as number "replies read +
reply waits given up + other stamps used up", and `samples_paired_iff` says when that pairs every
sample: exactly when the arrivals line up under this shift whenever a sample is taken.  They do in every
run whose waits never give up (`paired_of_noWaitGivesUp`).  Pacing and the time budget only decide how
many iterations there are.
-/

namespace Dnsmark.WireLatency

/-- `libc::timespec`. -/
structure Timespec where
  tvSec : UInt64
  tvNsec : UInt64
deriving DecidableEq, Repr

/-- `ts_to_ns`: both operations wrap. -/
def tsToNs (t : Timespec) : UInt64 := t.tvSec * 1000000000 + t.tvNsec

/-- An `SCM_TIMESTAMPING` control message: the entries `[0]` and `[2]`. -/
structure ScmTimestamping where
  software : Timespec
  rawHardware : Timespec
deriving DecidableEq, Repr

/-- `extract_timestamp`: the first stamp that is not 0 in the control messages of this kind, the
hardware's before the software's. -/
def extractTimestamp (cmsgs : List ScmTimestamping) : Option UInt64 :=
  cmsgs.findSome? fun stamps =>
    let hw := tsToNs stamps.rawHardware
    let sw := tsToNs stamps.software
    if hw ≠ 0 then some hw else if sw ≠ 0 then some sw else none

/-- A message of either queue, and the query it belongs to. -/
structure Message where
  query : ℕ
  cmsgs : List ScmTimestamping
  len : ℕ
deriving DecidableEq, Repr

/-- What `recv_with_timestamp` makes of a datagram: an empty one counts as an error. -/
def Message.rxTimestamp (msg : Message) : Option UInt64 :=
  if msg.len = 0 then none else extractTimestamp msg.cmsgs

/-- The value of `tx_ts`, and the query whose stamp it is. -/
structure TxStamp where
  query : ℕ
  ns : UInt64
deriving DecidableEq, Repr

/-- An entry of `rtts_ns`, and the queries of the two stamps in it. -/
structure Sample where
  txOf : ℕ
  rxOf : ℕ
  rttNs : UInt64
deriving DecidableEq, Repr

/-- Where in the loop the probe is. -/
inductive Pc where
  /-- Before the next `send`. -/
  | loopHead
  /-- In the wait for the TX stamp. -/
  | awaitTx
  /-- Before the `poll` for the reply. -/
  | awaitReply (tx : TxStamp)
  /-- Before the blocking `recvmsg`. -/
  | receive (tx : TxStamp)
  | done
deriving DecidableEq, Repr

/-- The stamp that waits for a reply. -/
def Pc.inHand : Pc → Option TxStamp
  | awaitReply tx => some tx
  | receive tx => some tx
  | _ => none

/-- The probe's locals and the two queues of its socket.  `skipped` counts the stamps that were read and
used up neither by a reply nor by a reply wait; nothing in the code reads it. -/
structure Probe where
  pc : Pc
  iteration : ℕ
  sentTotal : ℕ
  txMissing : ℕ
  noReply : ℕ
  skipped : ℕ
  samples : List Sample
  errQueue : Fifo Message
  recvQueue : Fifo Message

inductive Event where
  | send (ok : Bool)
  /-- `read_tx_timestamp`. -/
  | readTx
  /-- The 5 ms are over. -/
  | giveUpTx
  /-- `poll` returns. -/
  | poll
  | recv
  /-- `recvmsg` fails. -/
  | recvError
  /-- The last iteration is over, or the time budget. -/
  | stop
  /-- The surroundings deliver the TX stamp of a query. -/
  | stamp (msg : Message)
  /-- The surroundings deliver the reply to a query. -/
  | reply (msg : Message)
deriving DecidableEq, Repr

namespace Probe

/-- The probe as its loop starts. -/
def start : Probe where
  pc := .loopHead
  iteration := 0
  sentTotal := 0
  txMissing := 0
  noReply := 0
  skipped := 0
  samples := []
  errQueue := .empty
  recvQueue := .empty

/-- A message may arrive once for every query that was sent. -/
def mayArrive (s : Probe) (queue : Fifo Message) (msg : Message) : Bool :=
  decide (msg.query < s.sentTotal) && queue.arrivals.all fun earlier => earlier.query != msg.query

/-- A TX stamp was read off the error queue. -/
def gotStamp (s : Probe) (msg : Message) (errQueue : Fifo Message) : Probe :=
  match extractTimestamp msg.cmsgs with
  | some ns => { s with pc := .awaitReply ⟨msg.query, ns⟩, errQueue }
  | none => { s with skipped := s.skipped + 1, errQueue }

/-- A reply was read with the stamp `tx` in hand. -/
def gotReply (s : Probe) (tx : TxStamp) (msg : Message) (recvQueue : Fifo Message) : Probe :=
  let s := { s with pc := .loopHead, recvQueue }
  match msg.rxTimestamp with
  | some rx =>
    if tx.ns < rx then { s with samples := s.samples ++ [⟨tx.query, msg.query, rx - tx.ns⟩] } else s
  | none => s

/-- A reply changes nothing but the position, the queue and the samples. -/
theorem gotReply_eq (s : Probe) (tx : TxStamp) (msg : Message) (recvQueue : Fifo Message) :
    ∃ samples, s.gotReply tx msg recvQueue = { s with pc := .loopHead, recvQueue, samples } := by
  unfold gotReply
  split
  · dsimp only
    split <;> exact ⟨_, rfl⟩
  · exact ⟨_, rfl⟩

/-- One step of the loop over `count` iterations, or one delivery. -/
def step (count : ℕ) (s : Probe) (e : Event) : Option Probe :=
  match s.pc, e with
  | .loopHead, .send ok =>
    let s := { s with iteration := s.iteration + 1 }
    if s.iteration ≤ count then
      match ok with
      | true => some { s with pc := .awaitTx, sentTotal := s.sentTotal + 1 }
      | false => some s
    else none
  | .loopHead, .stop => some { s with pc := .done }
  | .awaitTx, .readTx =>
    match s.errQueue.pop with
    | some (msg, errQueue) => some (s.gotStamp msg errQueue)
    | none => some s
  | .awaitTx, .giveUpTx => some { s with pc := .loopHead, txMissing := s.txMissing + 1 }
  | .awaitReply tx, .poll =>
    -- a message on the error queue ends the wait as well
    if s.recvQueue.queue = [] ∧ s.errQueue.queue = [] then
      some { s with pc := .loopHead, noReply := s.noReply + 1 }
    else some { s with pc := .receive tx }
  | .receive tx, .recv =>
    match s.recvQueue.pop with
    | some (msg, recvQueue) => some (s.gotReply tx msg recvQueue)
    | none => none -- blocks
  | .receive _, .recvError => some { s with pc := .loopHead, skipped := s.skipped + 1 }
  | _, .stamp msg =>
    if s.mayArrive s.errQueue msg then some { s with errQueue := s.errQueue.push msg } else none
  | _, .reply msg =>
    if s.mayArrive s.recvQueue msg then some { s with recvQueue := s.recvQueue.push msg } else none
  | _, _ => none

/-- The probe and its surroundings. -/
def machine (count : ℕ) : Machine Probe Event where
  step := step count

/-- What a step can be. -/
inductive Stepped (count : ℕ) (s : Probe) : Event → Probe → Prop
  | sent (hpc : s.pc = .loopHead) (hcount : s.iteration < count) :
      Stepped count s (.send true)
        { s with iteration := s.iteration + 1, pc := .awaitTx, sentTotal := s.sentTotal + 1 }
  | notSent (hpc : s.pc = .loopHead) (hcount : s.iteration < count) :
      Stepped count s (.send false) { s with iteration := s.iteration + 1 }
  | stop (hpc : s.pc = .loopHead) : Stepped count s .stop { s with pc := .done }
  | readTx (msg : Message) (errQueue : Fifo Message) (hpc : s.pc = .awaitTx)
      (hpop : s.errQueue.pop = some (msg, errQueue)) : Stepped count s .readTx (s.gotStamp msg errQueue)
  | noStamp (hpc : s.pc = .awaitTx) (hpop : s.errQueue.pop = none) : Stepped count s .readTx s
  | giveUpTx (hpc : s.pc = .awaitTx) :
      Stepped count s .giveUpTx { s with pc := .loopHead, txMissing := s.txMissing + 1 }
  | noReply (tx : TxStamp) (hpc : s.pc = .awaitReply tx)
      (hempty : s.recvQueue.queue = [] ∧ s.errQueue.queue = []) :
      Stepped count s .poll { s with pc := .loopHead, noReply := s.noReply + 1 }
  | ready (tx : TxStamp) (hpc : s.pc = .awaitReply tx)
      (hready : ¬ (s.recvQueue.queue = [] ∧ s.errQueue.queue = [])) :
      Stepped count s .poll { s with pc := .receive tx }
  | recv (tx : TxStamp) (msg : Message) (recvQueue : Fifo Message) (hpc : s.pc = .receive tx)
      (hpop : s.recvQueue.pop = some (msg, recvQueue)) :
      Stepped count s .recv (s.gotReply tx msg recvQueue)
  | recvError (tx : TxStamp) (hpc : s.pc = .receive tx) :
      Stepped count s .recvError { s with pc := .loopHead, skipped := s.skipped + 1 }
  | stamp (msg : Message) (harrive : s.mayArrive s.errQueue msg) :
      Stepped count s (.stamp msg) { s with errQueue := s.errQueue.push msg }
  | reply (msg : Message) (harrive : s.mayArrive s.recvQueue msg) :
      Stepped count s (.reply msg) { s with recvQueue := s.recvQueue.push msg }

theorem step_cases {count : ℕ} {s s' : Probe} {e : Event} (h : (machine count).step s e = some s') :
    Stepped count s e s' := by
  unfold machine step at h
  simp only at h
  split at h
  · split at h
    · split at h <;> cases h
      · exact .sent ‹_› ‹_›
      · exact .notSent ‹_› ‹_›
    · cases h
  · cases h
    exact .stop ‹_›
  · split at h <;> cases h
    · exact .readTx _ _ ‹_› ‹_›
    · exact .noStamp ‹_› ‹_›
  · cases h
    exact .giveUpTx ‹_›
  · split at h <;> cases h
    · exact .noReply _ ‹_› ‹_›
    · exact .ready _ ‹_› ‹_›
  · split at h <;> cases h
    exact .recv _ _ _ ‹_› ‹_›
  · cases h
    exact .recvError _ ‹_›
  · split at h <;> cases h
    exact .stamp _ ‹_›
  · split at h <;> cases h
    exact .reply _ ‹_›
  · cases h

/-! ## Which stamp is in hand -/

/-- The stamps that are used up: one by every reply that was read, one by every reply wait that gave
up, and the skipped ones. -/
def usedStamps (s : Probe) : ℕ := s.recvQueue.read + s.noReply + s.skipped

/-- Every stamp that was read is used up or in hand, and the one in hand is the last one read. -/
structure Inv (s : Probe) : Prop where
  read : s.errQueue.read = s.usedStamps + if s.pc.inHand.isSome then 1 else 0
  stamp : ∀ tx, s.pc.inHand = some tx →
    (s.errQueue.arrivals[s.usedStamps]?).map Message.query = some tx.query

theorem inv_start : start.Inv := ⟨rfl, fun _ h => by cases h⟩

/-- A step that reads nothing and has no stamp in hand afterwards. -/
theorem Inv.of_no_stamp {s s' : Probe} (h : s.Inv) (hpc : s'.pc.inHand = none)
    (herr : s'.errQueue = s.errQueue)
    (hused : s'.usedStamps = s.usedStamps + if s.pc.inHand.isSome then 1 else 0) : s'.Inv := by
  refine ⟨?_, fun tx htx => ?_⟩
  · rw [herr, h.read, hused, hpc]
    rfl
  · rw [hpc] at htx
    cases htx

/-- Reading a TX stamp. -/
theorem Inv.gotStamp {s : Probe} {msg : Message} {errQueue : Fifo Message} (h : s.Inv)
    (hpc : s.pc = .awaitTx) (hpop : s.errQueue.pop = some (msg, errQueue)) :
    (s.gotStamp msg errQueue).Inv := by
  obtain ⟨hmsg, harrivals, hread⟩ := Fifo.pop_eq_some hpop
  have hbefore : s.errQueue.read = s.usedStamps := by
    rw [h.read, hpc]
    rfl
  unfold Probe.gotStamp
  split
  · rename_i ns _
    refine ⟨?_, fun tx htx => ?_⟩
    · rw [hread, hbefore]
      rfl
    · obtain rfl : (⟨msg.query, ns⟩ : TxStamp) = tx := Option.some.inj htx
      rw [harrivals]
      change (s.errQueue.arrivals[s.usedStamps]?).map Message.query = some msg.query
      rw [← hbefore, hmsg]
      rfl
  · refine ⟨?_, fun tx htx => ?_⟩
    · simp only [hread, hbefore, usedStamps, hpc, Pc.inHand]
      simp
      omega
    · simp [hpc, Pc.inHand] at htx

/-- Whatever a reply is good for, it uses up the stamp in hand. -/
theorem Inv.gotReply {s : Probe} {tx : TxStamp} {msg : Message} {recvQueue : Fifo Message} (h : s.Inv)
    (hpc : s.pc = .receive tx) (hpop : s.recvQueue.pop = some (msg, recvQueue)) :
    (s.gotReply tx msg recvQueue).Inv := by
  obtain ⟨-, -, hread⟩ := Fifo.pop_eq_some hpop
  have hused : recvQueue.read + s.noReply + s.skipped
      = s.usedStamps + if s.pc.inHand.isSome then 1 else 0 := by
    rw [hread, hpc]
    simp only [usedStamps, Pc.inHand, Option.isSome_some, if_true]
    omega
  obtain ⟨samples, hs'⟩ := s.gotReply_eq tx msg recvQueue
  rw [hs']
  exact h.of_no_stamp rfl rfl hused

theorem Inv.step {count : ℕ} {s s' : Probe} {e : Event} (h : s.Inv) (hstep : Stepped count s e s') :
    s'.Inv := by
  cases hstep with
  | sent hpc | stop hpc | giveUpTx hpc =>
    exact h.of_no_stamp rfl rfl (by simp [hpc, usedStamps, Pc.inHand])
  | notSent | noStamp => exact ⟨h.read, h.stamp⟩
  | readTx msg errQueue hpc hpop => exact h.gotStamp hpc hpop
  | noReply tx hpc | recvError tx hpc =>
    refine h.of_no_stamp rfl rfl ?_
    simp [hpc, usedStamps, Pc.inHand]
    omega
  | ready tx hpc =>
    refine ⟨?_, fun tx' htx' => h.stamp tx' (hpc ▸ htx')⟩
    rw [h.read, hpc]
    rfl
  | recv tx msg recvQueue hpc hpop => exact h.gotReply hpc hpop
  | stamp msg =>
    refine ⟨by simpa [usedStamps] using h.read, fun tx htx => ?_⟩
    -- the stamp in hand has arrived already
    have hlt : s.usedStamps < s.errQueue.arrivals.length := by
      have hread := h.read
      have hall := s.errQueue.read_add_length
      rw [show s.pc.inHand = some tx from htx] at hread
      simp at hread
      omega
    exact (congrArg _ (s.errQueue.getElem?_push_of_lt msg hlt)).trans (h.stamp tx htx)
  | reply msg =>
    have hused : usedStamps { s with recvQueue := s.recvQueue.push msg } = s.usedStamps := by
      simp [usedStamps]
    exact ⟨by rw [hused]; exact h.read, fun tx htx => by rw [hused]; exact h.stamp tx htx⟩

/-! ## Pairing -/

/-- The next reply answers the query whose stamp arrived as many places later as stamps were used up
without a reply. -/
def LinedUp (s : Probe) : Prop :=
  (s.recvQueue.arrivals[s.recvQueue.read]?).map Message.query
    = (s.errQueue.arrivals[s.recvQueue.read + s.noReply + s.skipped]?).map Message.query

/-- The next reply has a stamp later than the one in hand. -/
def TakesSample (s : Probe) : Prop :=
  ∃ tx msg recvQueue rx, s.pc = .receive tx ∧ s.recvQueue.pop = some (msg, recvQueue) ∧
    msg.rxTimestamp = some rx ∧ tx.ns < rx

/-- If the step takes a sample, the arrivals are lined up. -/
def KeepsPairs (s : Probe) (e : Event) : Prop := e = .recv → s.TakesSample → s.LinedUp

/-- The samples that mix two queries. -/
def mispaired (s : Probe) : ℕ := s.samples.countP fun sample => sample.txOf != sample.rxOf

theorem mispaired_eq_zero_iff (s : Probe) :
    s.mispaired = 0 ↔ ∀ sample ∈ s.samples, sample.txOf = sample.rxOf := by
  simp [mispaired, List.countP_eq_zero]

/-- A reply gives a sample of the stamp in hand and its own, or none. -/
theorem gotReply_samples {s : Probe} {tx : TxStamp} {msg : Message} {recvQueue : Fifo Message}
    (hpc : s.pc = .receive tx) (hpop : s.recvQueue.pop = some (msg, recvQueue)) :
    (s.TakesSample ∧ ∃ rttNs, (s.gotReply tx msg recvQueue).samples
        = s.samples ++ [⟨tx.query, msg.query, rttNs⟩]) ∨
      (¬ s.TakesSample ∧ (s.gotReply tx msg recvQueue).samples = s.samples) := by
  have htakes : s.TakesSample ↔ ∃ rx, msg.rxTimestamp = some rx ∧ tx.ns < rx := by
    constructor
    · rintro ⟨tx', msg', queue', rx, hpc', hpop', hrx, hlt⟩
      cases hpc.symm.trans hpc'
      cases hpop.symm.trans hpop'
      exact ⟨rx, hrx, hlt⟩
    · rintro ⟨rx, hrx, hlt⟩
      exact ⟨tx, msg, recvQueue, rx, hpc, hpop, hrx, hlt⟩
  rw [htakes]
  unfold Probe.gotReply
  cases hrx : msg.rxTimestamp with
  | none => exact .inr ⟨by simp, rfl⟩
  | some rx =>
    by_cases hlt : tx.ns < rx
    · exact .inl ⟨⟨rx, rfl, hlt⟩, rx - tx.ns, by simp [hlt]⟩
    · exact .inr ⟨by simpa using hlt, by simp [hlt]⟩

/-- With the stamp `tx` in hand, being lined up means that the next reply answers the query of `tx`. -/
theorem linedUp_iff {s : Probe} {tx : TxStamp} {msg : Message} {recvQueue : Fifo Message} (h : s.Inv)
    (hpc : s.pc = .receive tx) (hpop : s.recvQueue.pop = some (msg, recvQueue)) :
    s.LinedUp ↔ tx.query = msg.query := by
  obtain ⟨hmsg, -, -⟩ := Fifo.pop_eq_some hpop
  have hstamp := h.stamp tx (by rw [hpc]; rfl)
  unfold LinedUp
  rw [hmsg, show s.recvQueue.read + s.noReply + s.skipped = s.usedStamps from rfl, hstamp]
  simp [eq_comm]

/-- One step: a sample that mixes two queries is taken exactly when the arrivals are not lined up. -/
theorem mispaired_step {count : ℕ} {s s' : Probe} {e : Event} (h : s.Inv)
    (hstep : Stepped count s e s') :
    (s.KeepsPairs e ∧ s'.mispaired = s.mispaired) ∨
      (¬ s.KeepsPairs e ∧ s'.mispaired = s.mispaired + 1) := by
  cases hstep with
  | recv tx msg recvQueue hpc hpop =>
    rcases gotReply_samples hpc hpop with ⟨htakes, rttNs, hsamples⟩ | ⟨htakes, hsamples⟩
    · have hkeeps : s.KeepsPairs .recv ↔ tx.query = msg.query := by
        rw [← linedUp_iff h hpc hpop]
        exact ⟨fun hk => hk rfl htakes, fun hl _ _ => hl⟩
      rw [hkeeps]
      unfold mispaired
      rw [hsamples, List.countP_append, List.countP_singleton]
      by_cases heq : tx.query = msg.query
      · exact .inl ⟨heq, by simp [heq]⟩
      · exact .inr ⟨heq, by simp [heq]⟩
    · exact .inl ⟨fun _ ht => absurd ht htakes, by rw [mispaired, mispaired, hsamples]⟩
  | readTx msg errQueue hpc hpop =>
    refine .inl ⟨nofun, ?_⟩
    unfold Probe.gotStamp mispaired
    split <;> rfl
  | sent | notSent | stop | noStamp | giveUpTx | noReply | ready | recvError | stamp | reply =>
    exact .inl ⟨nofun, rfl⟩

/-- For every number of iterations and every run, however stamps and replies are delayed or dropped:
every sample is taken from the two stamps of one query if and only if the arrivals were lined up
whenever a sample was taken. -/
theorem samples_paired_iff (count : ℕ) (es : List Event) (s : Probe)
    (hrun : (machine count).run start es = some s) :
    (∀ sample ∈ s.samples, sample.txOf = sample.rxOf) ↔ (machine count).Meets KeepsPairs start es := by
  rw [← mispaired_eq_zero_iff]
  refine (machine count).drift_eq_iff_meets (I := Inv) (d := mispaired)
    (fun s e s' hs h => hs.step (step_cases h)) ?_ ?_ inv_start hrun
  · intro s e s' hs h hkeeps
    rcases mispaired_step hs (step_cases h) with ⟨-, heq⟩ | ⟨hbreaks, -⟩
    · exact heq
    · exact absurd hkeeps hbreaks
  · intro s e s' hs h hbreaks
    rcases mispaired_step hs (step_cases h) with ⟨hkeeps, -⟩ | ⟨-, heq⟩
    · exact absurd hkeeps hbreaks
    · omega

/-- The software stamp `ns`. -/
def stampedAt (query : ℕ) (ns : UInt64) : Message := ⟨query, [⟨⟨0, ns⟩, ⟨0, 0⟩⟩], 64⟩

/-- One query, its stamp and its reply in time. -/
def inTime : List Event :=
  [.send true, .stamp (stampedAt 0 1000), .readTx, .reply (stampedAt 0 41000), .poll, .recv]

/-- It gives one sample, of its own stamps. -/
theorem samples_paired_inTime :
    ∃ s, (machine 2).run start inTime = some s ∧ s.samples = [⟨0, 0, 40000⟩] ∧
      (machine 2).Meets KeepsPairs start inTime := by
  obtain ⟨s, hrun, hsamples⟩ : ∃ s, (machine 2).run start inTime = some s ∧
      s.samples = [⟨0, 0, 40000⟩] := ⟨_, rfl, rfl⟩
  refine ⟨s, hrun, hsamples, (samples_paired_iff 2 inTime s hrun).mp ?_⟩
  rw [hsamples]
  simp

/-- The TX stamp of query 0 is lost and its wait gives up; the reply to query 0 comes while query 1 is
on its way, and the reply to query 1 after it. -/
def lateReply : List Event :=
  [.send true, .readTx, .giveUpTx, .send true, .reply (stampedAt 0 5250000), .stamp (stampedAt 1 5200000),
    .readTx, .poll, .recv, .reply (stampedAt 1 5900000)]

/-- The one sample is the reply to query 0 less the stamp of query 1; the round trip of query 1 is
another one. -/
theorem late_reply_mispaired :
    ∃ s, (machine 2).run start lateReply = some s ∧ s.samples = [⟨1, 0, 50000⟩] ∧
      s.errQueue.arrivals = [stampedAt 1 5200000] ∧
      s.recvQueue.arrivals = [stampedAt 0 5250000, stampedAt 1 5900000] ∧
      ¬ ∀ sample ∈ s.samples, sample.txOf = sample.rxOf := by
  obtain ⟨s, hrun, hsamples, herr, hrecv⟩ : ∃ s, (machine 2).run start lateReply = some s ∧
      s.samples = [⟨1, 0, 50000⟩] ∧ s.errQueue.arrivals = [stampedAt 1 5200000] ∧
      s.recvQueue.arrivals = [stampedAt 0 5250000, stampedAt 1 5900000] := ⟨_, rfl, rfl, rfl, rfl⟩
  refine ⟨s, hrun, hsamples, herr, hrecv, ?_⟩
  rw [hsamples]
  simp

/-! ## Runs whose waits never give up -/

/-- Both waits of an iteration succeed: the stamp and the reply are read, and the stamp is one. -/
def NoWaitGivesUp (s : Probe) : Event → Prop
  | .readTx => ∀ msg errQueue, s.errQueue.pop = some (msg, errQueue) → extractTimestamp msg.cmsgs ≠ none
  | .giveUpTx => False
  | .poll => ¬ (s.recvQueue.queue = [] ∧ s.errQueue.queue = [])
  | .recvError => False
  | _ => True

/-- The messages of a queue belong to the queries in turn, and all but `outstanding` of the `sent`
queries have had theirs read. -/
structure InTurn (sent outstanding : ℕ) (queue : Fifo Message) : Prop where
  queries : queue.arrivals.map Message.query = List.range queue.arrivals.length
  sent_le : sent ≤ queue.read + outstanding

/-- With one query outstanding at most, only its message can arrive. -/
theorem InTurn.push {s : Probe} {outstanding : ℕ} {queue : Fifo Message} {msg : Message}
    (h : InTurn s.sentTotal outstanding queue) (hone : outstanding ≤ 1)
    (harrive : s.mayArrive queue msg = true) : InTurn s.sentTotal outstanding (queue.push msg) := by
  obtain ⟨hlt, hfresh⟩ : msg.query < s.sentTotal ∧ ∀ m ∈ queue.arrivals, m.query ≠ msg.query := by
    simpa [mayArrive] using harrive
  have hnot : msg.query ∉ List.range queue.arrivals.length := by
    rw [← h.queries, List.mem_map]
    rintro ⟨m, hm, heq⟩
    exact hfresh m hm heq
  have hread := queue.read_add_length
  have hsent := h.sent_le
  have heq : msg.query = queue.arrivals.length := by
    rw [List.mem_range] at hnot
    omega
  refine ⟨?_, by simpa using hsent⟩
  simp only [Fifo.push, List.map_append, List.map_singleton, List.length_append, List.length_singleton,
    h.queries, heq, List.range_succ]

/-- Reading the outstanding message. -/
theorem InTurn.pop {sent : ℕ} {queue queue' : Fifo Message} {msg : Message} (h : InTurn sent 1 queue)
    (hpop : queue.pop = some (msg, queue')) : InTurn sent 0 queue' := by
  obtain ⟨-, harrivals, hread⟩ := Fifo.pop_eq_some hpop
  refine ⟨?_, ?_⟩
  · rw [harrivals, h.queries]
  · rw [hread]
    exact h.sent_le

/-- The message that arrived as number `n` belongs to query `n`. -/
theorem InTurn.query_eq {sent outstanding n : ℕ} {queue : Fifo Message} {msg : Message}
    (h : InTurn sent outstanding queue) (hmsg : queue.arrivals[n]? = some msg) : msg.query = n := by
  have hmap : (queue.arrivals.map Message.query)[n]? = some msg.query := by
    rw [List.getElem?_map, hmsg]
    rfl
  rw [h.queries] at hmap
  obtain ⟨hlt, hrange⟩ := List.getElem?_eq_some_iff.mp hmap
  rw [List.getElem_range] at hrange
  exact hrange.symm

/-- The queries whose stamp is still to be read. -/
def openStamps : Pc → ℕ
  | .awaitTx => 1
  | _ => 0

/-- The queries whose reply is still to be read. -/
def openReplies : Pc → ℕ
  | .awaitTx => 1
  | .awaitReply _ => 1
  | .receive _ => 1
  | _ => 0

/-- Stamps and replies come in turn, and none has been given up. -/
structure Orderly (s : Probe) : Prop where
  inv : s.Inv
  stamps : InTurn s.sentTotal (openStamps s.pc) s.errQueue
  replies : InTurn s.sentTotal (openReplies s.pc) s.recvQueue
  noReply : s.noReply = 0
  skipped : s.skipped = 0

theorem orderly_start : start.Orderly :=
  ⟨inv_start, ⟨rfl, le_rfl⟩, ⟨rfl, le_rfl⟩, rfl, rfl⟩

/-- In an orderly state the arrivals are lined up. -/
theorem Orderly.linedUp {s : Probe} (h : s.Orderly) {tx : TxStamp} {msg : Message}
    {recvQueue : Fifo Message} (hpc : s.pc = .receive tx)
    (hpop : s.recvQueue.pop = some (msg, recvQueue)) : s.LinedUp := by
  obtain ⟨hmsg, -, -⟩ := Fifo.pop_eq_some hpop
  obtain ⟨stamp, hstamp, -⟩ := Option.map_eq_some_iff.mp (h.inv.stamp tx (by rw [hpc]; rfl))
  have hindex : s.recvQueue.read + s.noReply + s.skipped = s.recvQueue.read := by
    rw [h.noReply, h.skipped]
    rfl
  have hused : s.usedStamps = s.recvQueue.read := hindex
  rw [hused] at hstamp
  unfold LinedUp
  rw [hindex, hmsg, hstamp]
  exact congrArg some ((h.replies.query_eq hmsg).trans (h.stamps.query_eq hstamp).symm)

theorem Orderly.step {count : ℕ} {s s' : Probe} {e : Event} (h : s.Orderly) (hgo : s.NoWaitGivesUp e)
    (hstep : Stepped count s e s') : s'.Orderly := by
  have hinv := h.inv.step hstep
  have hstamps := h.stamps
  have hreplies := h.replies
  cases hstep with
  | sent hpc =>
    rw [hpc] at hstamps hreplies
    exact ⟨hinv, ⟨hstamps.queries, Nat.succ_le_succ hstamps.sent_le⟩,
      ⟨hreplies.queries, Nat.succ_le_succ hreplies.sent_le⟩, h.noReply, h.skipped⟩
  | notSent | noStamp => exact ⟨hinv, hstamps, hreplies, h.noReply, h.skipped⟩
  | stop hpc | ready _ hpc =>
    rw [hpc] at hstamps hreplies
    exact ⟨hinv, hstamps, hreplies, h.noReply, h.skipped⟩
  | readTx msg errQueue hpc hpop =>
    obtain ⟨ns, hns⟩ := Option.ne_none_iff_exists'.mp (hgo msg errQueue hpop)
    rw [hpc] at hstamps hreplies
    unfold Probe.gotStamp at hinv ⊢
    simp only [hns] at hinv ⊢
    exact ⟨hinv, hstamps.pop hpop, hreplies, h.noReply, h.skipped⟩
  | giveUpTx | recvError => exact absurd hgo not_false
  | noReply tx hpc hempty => exact absurd hempty hgo
  | recv tx msg recvQueue hpc hpop =>
    rw [hpc] at hstamps hreplies
    obtain ⟨samples, hs'⟩ := s.gotReply_eq tx msg recvQueue
    rw [hs'] at hinv ⊢
    exact ⟨hinv, hstamps, hreplies.pop hpop, h.noReply, h.skipped⟩
  | stamp msg harrive =>
    refine ⟨hinv, hstamps.push ?_ harrive, hreplies, h.noReply, h.skipped⟩
    cases s.pc <;> simp [openStamps]
  | reply msg harrive =>
    refine ⟨hinv, hstamps, hreplies.push ?_ harrive, h.noReply, h.skipped⟩
    cases s.pc <;> simp [openReplies]

/-- Where no wait gives up, every sample is taken from the two stamps of one query. -/
theorem paired_of_noWaitGivesUp {count : ℕ} {es : List Event} {s : Probe}
    (hrun : (machine count).run start es = some s) (hgo : (machine count).Meets NoWaitGivesUp start es) :
    ∀ sample ∈ s.samples, sample.txOf = sample.rxOf := by
  rw [← mispaired_eq_zero_iff]
  refine ((machine count).run_invariant_of_meets (I := fun s => s.Orderly ∧ s.mispaired = 0) ?_
    ⟨orderly_start, rfl⟩ hgo hrun).2
  rintro s e s' ⟨horderly, hzero⟩ hgoes h
  refine ⟨horderly.step hgoes (step_cases h), ?_⟩
  rcases mispaired_step horderly.inv (step_cases h) with ⟨-, heq⟩ | ⟨hbreaks, -⟩
  · exact heq.trans hzero
  · refine absurd (fun _ htakes => ?_) hbreaks
    obtain ⟨tx, msg, recvQueue, rx, hpc, hpop, -⟩ := htakes
    exact horderly.linedUp hpc hpop

end Probe

end Dnsmark.WireLatency
