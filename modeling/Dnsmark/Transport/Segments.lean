import Dnsmark.Common.Framing
import Dnsmark.Transport.Stream

/-!
# The stream transports, octet by octet

`Stream.Worker` sees an exchange as writes and reads that succeed as a whole.  On the connection they do
not: `write_all` hands the stream some octets at a time, the server's octets arrive in segments of any
size, and `read_exact` takes some of what has arrived until its buffer is full.  Each of these is an event
here, so a failure or a timeout can come between any two octets.

`refines` takes a run at this level back to one of `Stream.Worker`, whose results thus hold of it.  What
that level cannot say is which octets a reply was read from.  A `Session` keeps what was written to the
connection and what arrived on it, and an account of the exchanges that were answered.
-/

namespace Dnsmark.Stream

open Dnsmark.Stats Framing

/-- An exchange whose reply was read: the query, the octets the stream took of it, the octets that arrived
up to then, and the reply. -/
structure Exchange where
  query : List UInt8
  written : List UInt8
  arrived : List UInt8
  reply : Datagram
deriving DecidableEq, Repr

/-- A worker and its connection. -/
structure Session where
  worker : Worker
  /-- What `write_all` still has to write. -/
  pending : List UInt8 := []
  /-- What the stream took since it was connected. -/
  written : List UInt8 := []
  /-- What has arrived and was not read. -/
  inbox : List UInt8 := []
  /-- What `read_exact` has in its buffer. -/
  got : List UInt8 := []
  /-- Everything that has arrived; read by nothing. -/
  arrived : List UInt8 := []
  /-- The query of the connection; read by nothing. -/
  query : List UInt8 := []
  /-- The exchanges that were answered, newest first; read by nothing. -/
  answered : List Exchange := []
deriving DecidableEq, Repr

inductive SegmentEvent where
  | loop (shutdown validName : Bool)
  | connected
  | handshaken
  /-- The stream takes `n` octets of what is being written. -/
  | accepted (n : ℕ)
  /-- `write_all` or `flush` returns. -/
  | written
  /-- Octets of the server arrive. -/
  | segment (octets : List UInt8)
  /-- `read_exact` takes `n` octets of what has arrived. -/
  | taken (n : ℕ)
  /-- `read_exact` returns. -/
  | filled (rttUs : ℕ)
  /-- Also the end of the stream before the buffer is full. -/
  | failed
  | timedOut
deriving DecidableEq, Repr

/-- The octets of the write the worker awaits: `len.to_be_bytes()`, the query, nothing for the flush. -/
def Pc.writes : Pc → List UInt8
  | writing .length qbytes => u16ToBeBytes (UInt16.ofNat qbytes.length)
  | writing .query qbytes => qbytes
  | _ => []

/-- The length of the buffer the worker awaits to be filled. -/
def Pc.wanted : Pc → Option ℕ
  | readingLength => some 2
  | readingResponse respLen => some respLen
  | _ => none

/-- The connection carries the exchange. -/
def Pc.exchanging : Pc → Bool
  | writing _ _ | readingLength | readingResponse _ => true
  | _ => false

namespace Session

/-- The worker goes on to its next wait, with an empty buffer. -/
def resume (s : Session) (w : Worker) : Session :=
  { s with worker := w, pending := w.pc.writes, got := [] }

/-- A new connection. -/
def reconnect (s : Session) : Session := { s with written := [], inbox := [], arrived := [], query := [] }

/-- The worker draws its query on a connection that has carried nothing. -/
def begin (s : Session) (w : Worker) : Session :=
  { (s.reconnect.resume w) with
    query := match w.pc with
      | .writing _ qbytes => qbytes
      | _ => [] }

/-- The reply is read. -/
def finish (s : Session) (w : Worker) : Session :=
  { s.resume w with answered := ⟨s.query, s.written, s.arrived, s.got⟩ :: s.answered }

def step (proto : Protocol) (source : ℕ → String × UInt16) (s : Session) :
    SegmentEvent → Option Session
  | .loop shutdown validName => (s.worker.step proto source (.loop shutdown validName)).map s.resume
  | .connected => (s.worker.step proto source .connected).map s.begin
  | .handshaken => (s.worker.step proto source .handshaken).map s.begin
  | .accepted n =>
    match s.worker.pc with
    | .writing _ _ =>
      if n ≤ s.pending.length then
        some { s with pending := s.pending.drop n, written := s.written ++ s.pending.take n }
      else none
    | _ => none
  | .written =>
    if s.pending = [] then (s.worker.step proto source .written).map s.resume else none
  | .segment octets =>
    if s.worker.pc.exchanging then
      some { s with inbox := s.inbox ++ octets, arrived := s.arrived ++ octets }
    else none
  | .taken n =>
    match s.worker.pc.wanted with
    | some len =>
      if s.got.length + n ≤ len ∧ n ≤ s.inbox.length then
        some { s with inbox := s.inbox.drop n, got := s.got ++ s.inbox.take n }
      else none
    | none => none
  | .filled rttUs =>
    match s.worker.pc, s.got with
    | .readingLength, [hi, lo] => (s.worker.step proto source (.gotLength hi lo)).map s.resume
    | .readingResponse _, respBuf =>
      (s.worker.step proto source (.gotResponse respBuf rttUs)).map s.finish
    | _, _ => none
  | .failed => (s.worker.step proto source .failed).map s.resume
  | .timedOut => (s.worker.step proto source .timedOut).map s.resume

end Session

/-- A worker on its connections. -/
def sessions (proto : Protocol) (source : ℕ → String × UInt16) : Machine Session SegmentEvent :=
  ⟨Session.step proto source⟩

/-! ## Back to whole writes and reads -/

variable {proto : Protocol} {source : ℕ → String × UInt16}

/-- What an event adds to the completions. -/
def Event.completes : Event → ℕ
  | .gotResponse respBuf _ => if (parseResponse respBuf).isSome then 1 else 0
  | _ => 0

theorem Worker.completed_step {w w' : Worker} {e : Event} (h : w.step proto source e = some w') :
    w'.stats.completed = w.stats.completed + e.completes := by
  cases e with
  | loop shutdown validName =>
    obtain ⟨-, h⟩ := Option.ite_none_right_eq_some.mp h
    split at h <;> (obtain rfl := Option.some.inj h; rfl)
  | connected =>
    obtain ⟨-, h⟩ := Option.ite_none_right_eq_some.mp h
    cases proto <;> (obtain rfl := Option.some.inj h; rfl)
  | handshaken =>
    obtain ⟨-, ⟨⟩⟩ := Option.ite_none_right_eq_some.mp h
    rfl
  | written =>
    simp only [Worker.step] at h
    split at h
    · obtain rfl := Option.some.inj h; rfl
    · obtain rfl := Option.some.inj h; rfl
    · obtain rfl := Option.some.inj h; rfl
    · cases h
  | gotLength hi lo =>
    obtain ⟨-, ⟨⟩⟩ := Option.ite_none_right_eq_some.mp h
    rfl
  | gotResponse respBuf rttUs =>
    obtain ⟨-, h⟩ := Option.ite_none_right_eq_some.mp h
    split at h
    · rename_i hparse
      obtain rfl := Option.some.inj h
      simp [Event.completes, hparse]
    · rename_i hparse
      obtain rfl := Option.some.inj h
      simp [Event.completes, hparse, Worker.finish]
  | failed =>
    obtain ⟨-, ⟨⟩⟩ := Option.ite_none_right_eq_some.mp h
    rfl
  | timedOut =>
    obtain ⟨-, ⟨⟩⟩ := Option.ite_none_right_eq_some.mp h
    rfl

namespace Session

variable {s s' : Session} {e : SegmentEvent}

/-- An event moves octets and is nothing to the worker, or it is one of the worker's own: with a new
connection, with a reply, or with neither. -/
theorem step_outcomes (h : (sessions proto source).step s e = some s') :
    (s'.worker = s.worker ∧ s'.query = s.query ∧ s'.answered = s.answered) ∨
      ∃ a w, s.worker.step proto source a = some w ∧
        ((a = .connected ∨ a = .handshaken) ∧ s' = s.begin w ∨
          (∃ rttUs, a = .gotResponse s.got rttUs) ∧ s' = s.finish w ∨
          a ≠ .connected ∧ a ≠ .handshaken ∧ a.completes = 0 ∧ s' = s.resume w) := by
  cases e with
  | loop =>
    obtain ⟨w, hw, rfl⟩ := Option.map_eq_some_iff.mp h
    exact .inr ⟨_, w, hw, .inr (.inr ⟨nofun, nofun, rfl, rfl⟩)⟩
  | connected =>
    obtain ⟨w, hw, rfl⟩ := Option.map_eq_some_iff.mp h
    exact .inr ⟨_, w, hw, .inl ⟨.inl rfl, rfl⟩⟩
  | handshaken =>
    obtain ⟨w, hw, rfl⟩ := Option.map_eq_some_iff.mp h
    exact .inr ⟨_, w, hw, .inl ⟨.inr rfl, rfl⟩⟩
  | accepted =>
    simp only [sessions, step] at h
    split at h
    · obtain ⟨-, ⟨⟩⟩ := Option.ite_none_right_eq_some.mp h
      exact .inl ⟨rfl, rfl, rfl⟩
    · cases h
  | written =>
    obtain ⟨-, h⟩ := Option.ite_none_right_eq_some.mp h
    obtain ⟨w, hw, rfl⟩ := Option.map_eq_some_iff.mp h
    exact .inr ⟨_, w, hw, .inr (.inr ⟨nofun, nofun, rfl, rfl⟩)⟩
  | segment =>
    obtain ⟨-, ⟨⟩⟩ := Option.ite_none_right_eq_some.mp h
    exact .inl ⟨rfl, rfl, rfl⟩
  | taken =>
    simp only [sessions, step] at h
    split at h
    · obtain ⟨-, ⟨⟩⟩ := Option.ite_none_right_eq_some.mp h
      exact .inl ⟨rfl, rfl, rfl⟩
    · cases h
  | filled rttUs =>
    simp only [sessions, step] at h
    split at h
    · obtain ⟨w, hw, rfl⟩ := Option.map_eq_some_iff.mp h
      exact .inr ⟨_, w, hw, .inr (.inr ⟨nofun, nofun, rfl, rfl⟩)⟩
    · obtain ⟨w, hw, rfl⟩ := Option.map_eq_some_iff.mp h
      exact .inr ⟨_, w, hw, .inr (.inl ⟨⟨rttUs, rfl⟩, rfl⟩)⟩
    · cases h
  | failed =>
    obtain ⟨w, hw, rfl⟩ := Option.map_eq_some_iff.mp h
    exact .inr ⟨_, w, hw, .inr (.inr ⟨nofun, nofun, rfl, rfl⟩)⟩
  | timedOut =>
    obtain ⟨w, hw, rfl⟩ := Option.map_eq_some_iff.mp h
    exact .inr ⟨_, w, hw, .inr (.inr ⟨nofun, nofun, rfl, rfl⟩)⟩

/-! ## What is on the connection -/

/-- What is written after the write that is awaited. -/
def remaining : Writing → List UInt8 → List UInt8
  | .length, qbytes => qbytes
  | _, _ => []

/-- While the query is written, the connection carries a part of its frame, and nothing was read.  Then it
carries the whole frame, and what has arrived is what was read and what was not. -/
def Framed (s : Session) : Prop :=
  match s.worker.pc with
  | .writing stage qbytes =>
    s.query = qbytes ∧ s.got = [] ∧ s.inbox = s.arrived ∧
      s.written ++ (s.pending ++ remaining stage qbytes) = frame qbytes
  | .readingLength => s.written = frame s.query ∧ s.got ++ s.inbox = s.arrived
  | .readingResponse respLen =>
    s.written = frame s.query ∧ ∃ hi lo, respLen = (u16FromBeBytes hi lo).toNat ∧
      hi :: lo :: (s.got ++ s.inbox) = s.arrived
  | _ => True

theorem framed_of_idle (h : s.worker.pc.exchanging = false) : s.Framed := by
  unfold Framed
  cases hpc : s.worker.pc with
  | writing => rw [hpc] at h; cases h
  | readingLength => rw [hpc] at h; cases h
  | readingResponse => rw [hpc] at h; cases h
  | _ => trivial

/-- A query that is drawn on a new connection. -/
theorem framed_begin (w : Worker) : (s.begin (w.send source)).Framed := by
  simp only [Framed, begin, resume, reconnect, Worker.send, Pc.writes, remaining, frame]
  exact ⟨trivial, trivial, trivial, rfl⟩

/-- The reply in the buffer is the first message that has arrived. -/
theorem Framed.frame_got (h : s.Framed) (hpc : s.worker.pc = .readingResponse s.got.length) :
    s.written = frame s.query ∧ s.got.length < 2 ^ 16 ∧ frame s.got ++ s.inbox = s.arrived := by
  simp only [Framed, hpc] at h
  obtain ⟨hwritten, hi, lo, hlen, harrived⟩ := h
  refine ⟨hwritten, hlen ▸ (u16FromBeBytes hi lo).toNat_lt, ?_⟩
  rw [frame_eq hlen, ← harrived]
  rfl

/-- Every event keeps the frames apart. -/
theorem Framed.step (hs : s.Framed) (h : (sessions proto source).step s e = some s') : s'.Framed := by
  cases e with
  | loop shutdown validName =>
    obtain ⟨w, hw, rfl⟩ := Option.map_eq_some_iff.mp h
    obtain ⟨-, hw⟩ := Option.ite_none_right_eq_some.mp hw
    apply framed_of_idle
    split at hw <;> (obtain rfl := Option.some.inj hw; rfl)
  | connected =>
    obtain ⟨w, hw, rfl⟩ := Option.map_eq_some_iff.mp h
    obtain ⟨-, hw⟩ := Option.ite_none_right_eq_some.mp hw
    cases proto with
    | tcp =>
      obtain rfl := Option.some.inj hw
      exact framed_begin s.worker
    | dot =>
      obtain rfl := Option.some.inj hw
      exact framed_of_idle rfl
  | handshaken =>
    obtain ⟨w, hw, rfl⟩ := Option.map_eq_some_iff.mp h
    obtain ⟨-, ⟨⟩⟩ := Option.ite_none_right_eq_some.mp hw
    exact framed_begin s.worker
  | accepted n =>
    simp only [sessions, Session.step] at h
    split at h
    · rename_i stage qbytes hpc
      obtain ⟨-, ⟨⟩⟩ := Option.ite_none_right_eq_some.mp h
      simp only [Framed, hpc] at hs ⊢
      obtain ⟨hquery, hgot, hinbox, hframe⟩ := hs
      refine ⟨hquery, hgot, hinbox, ?_⟩
      rw [List.append_assoc, ← List.append_assoc (s.pending.take n), List.take_append_drop, hframe]
    · cases h
  | written =>
    obtain ⟨hpending, h⟩ := Option.ite_none_right_eq_some.mp h
    obtain ⟨w, hw, rfl⟩ := Option.map_eq_some_iff.mp h
    simp only [Worker.step] at hw
    split at hw
    · rename_i qbytes hpc
      obtain rfl := Option.some.inj hw
      simp only [Framed, hpc, hpending] at hs
      obtain ⟨hquery, -, hinbox, hframe⟩ := hs
      exact ⟨hquery, rfl, hinbox, by simpa [resume, Pc.writes, remaining] using hframe⟩
    · rename_i qbytes hpc
      obtain rfl := Option.some.inj hw
      simp only [Framed, hpc, hpending] at hs
      obtain ⟨hquery, -, hinbox, hframe⟩ := hs
      exact ⟨hquery, rfl, hinbox, hframe⟩
    · rename_i qbytes hpc
      obtain rfl := Option.some.inj hw
      simp only [Framed, hpc, hpending] at hs
      obtain ⟨hquery, -, hinbox, hframe⟩ := hs
      refine ⟨?_, hinbox⟩
      subst hquery
      simpa [resume, remaining] using hframe
    · cases hw
  | segment octets =>
    obtain ⟨hexch, ⟨⟩⟩ := Option.ite_none_right_eq_some.mp h
    cases hpc : s.worker.pc with
    | writing stage qbytes =>
      simp only [Framed, hpc] at hs ⊢
      obtain ⟨hquery, hgot, hinbox, hframe⟩ := hs
      exact ⟨hquery, hgot, by rw [hinbox], hframe⟩
    | readingLength =>
      simp only [Framed, hpc] at hs ⊢
      obtain ⟨hwritten, harrived⟩ := hs
      exact ⟨hwritten, by rw [← harrived, List.append_assoc]⟩
    | readingResponse respLen =>
      simp only [Framed, hpc] at hs ⊢
      obtain ⟨hwritten, hi, lo, hlen, harrived⟩ := hs
      exact ⟨hwritten, hi, lo, hlen, by rw [← harrived, ← List.append_assoc]; rfl⟩
    | _ => exact framed_of_idle (by simp only [hpc]; rfl)
  | taken n =>
    simp only [sessions, Session.step] at h
    split at h
    · rename_i len hwanted
      obtain ⟨-, ⟨⟩⟩ := Option.ite_none_right_eq_some.mp h
      cases hpc : s.worker.pc with
      | readingLength =>
        simp only [Framed, hpc] at hs ⊢
        obtain ⟨hwritten, harrived⟩ := hs
        exact ⟨hwritten, by rw [List.append_assoc, List.take_append_drop, harrived]⟩
      | readingResponse respLen =>
        simp only [Framed, hpc] at hs ⊢
        obtain ⟨hwritten, hi, lo, hlen, harrived⟩ := hs
        refine ⟨hwritten, hi, lo, hlen, ?_⟩
        rw [List.append_assoc, List.take_append_drop, harrived]
      | _ =>
        rw [hpc] at hwanted
        cases hwanted
    · cases h
  | filled rttUs =>
    simp only [sessions, Session.step] at h
    split at h
    · rename_i hi lo hpc hgot
      obtain ⟨w, hw, rfl⟩ := Option.map_eq_some_iff.mp h
      obtain ⟨-, ⟨⟩⟩ := Option.ite_none_right_eq_some.mp hw
      simp only [Framed, hpc, hgot] at hs
      exact ⟨hs.1, hi, lo, rfl, hs.2⟩
    · obtain ⟨w, hw, rfl⟩ := Option.map_eq_some_iff.mp h
      obtain ⟨-, hw⟩ := Option.ite_none_right_eq_some.mp hw
      apply framed_of_idle
      split at hw <;> (obtain rfl := Option.some.inj hw; rfl)
    · cases h
  | failed =>
    obtain ⟨w, hw, rfl⟩ := Option.map_eq_some_iff.mp h
    obtain ⟨-, ⟨⟩⟩ := Option.ite_none_right_eq_some.mp hw
    exact framed_of_idle (by simp [resume, Pc.exchanging])
  | timedOut =>
    obtain ⟨w, hw, rfl⟩ := Option.map_eq_some_iff.mp h
    obtain ⟨-, ⟨⟩⟩ := Option.ite_none_right_eq_some.mp hw
    exact framed_of_idle (by simp [resume, Pc.exchanging])

/-! ## The exchanges that were answered -/

/-- The octets were built from an entry of the source. -/
def Drawn (source : ℕ → String × UInt16) (query : List UInt8) : Prop :=
  ∃ id k, query = buildQuery id (source k).1 (source k).2

/-- The frame of a drawn query was written, and the reply is in the first frame that arrived. -/
structure Kept (source : ℕ → String × UInt16) (x : Exchange) : Prop where
  drawn : Drawn source x.query
  written : x.written = frame x.query
  length_lt : x.reply.length < 2 ^ 16
  arrived : ∃ rest, frame x.reply ++ rest = x.arrived

/-- What holds of a worker on its connections. -/
structure Sound (proto : Protocol) (source : ℕ → String × UInt16) (id : UInt16) (s : Session) : Prop where
  refines : ∃ es, (machine proto source).run { id := id } es = some s.worker
  framed : s.Framed
  drawn : s.worker.pc.exchanging = true → Drawn source s.query
  kept : ∀ x ∈ s.answered, Kept source x
  completed : s.worker.stats.completed = s.answered.countP fun x => (parseResponse x.reply).isSome

theorem sound_start (id : UInt16) : Sound proto source id { worker := { id := id } } :=
  ⟨⟨[], rfl⟩, trivial, nofun, nofun, rfl⟩

/-- A worker that is on with an exchange was so before, unless it has just begun it. -/
theorem exchanging_of_step {w w' : Worker} {a : Event} (h : w.step proto source a = some w')
    (hconnected : a ≠ .connected) (hhandshaken : a ≠ .handshaken) (hexch : w'.pc.exchanging = true) :
    w.pc.exchanging = true := by
  cases a with
  | loop =>
    obtain ⟨-, h⟩ := Option.ite_none_right_eq_some.mp h
    split at h <;> (obtain rfl := Option.some.inj h; cases hexch)
  | connected => exact absurd rfl hconnected
  | handshaken => exact absurd rfl hhandshaken
  | written =>
    simp only [Worker.step] at h
    split at h
    case h_4 => cases h
    all_goals
      rename_i hpc
      rw [hpc]
      rfl
  | gotLength =>
    obtain ⟨hpc, -⟩ := Option.ite_none_right_eq_some.mp h
    rw [hpc]
    rfl
  | gotResponse =>
    obtain ⟨hpc, -⟩ := Option.ite_none_right_eq_some.mp h
    rw [hpc]
    rfl
  | failed =>
    obtain ⟨-, ⟨⟩⟩ := Option.ite_none_right_eq_some.mp h
    rw [Worker.abandon_pc] at hexch
    cases hexch
  | timedOut =>
    obtain ⟨-, ⟨⟩⟩ := Option.ite_none_right_eq_some.mp h
    rw [Worker.abandon_pc] at hexch
    cases hexch

/-- What it has begun is a query of the source. -/
theorem drawn_begin {w : Worker} {a : Event} (h : s.worker.step proto source a = some w)
    (ha : a = .connected ∨ a = .handshaken) (hexch : w.pc.exchanging = true) :
    Drawn source (s.begin w).query := by
  obtain rfl | rfl := ha
  · obtain ⟨-, h⟩ := Option.ite_none_right_eq_some.mp h
    cases proto with
    | tcp =>
      obtain rfl := Option.some.inj h
      exact ⟨_, _, rfl⟩
    | dot =>
      obtain rfl := Option.some.inj h
      cases hexch
  · obtain ⟨-, ⟨⟩⟩ := Option.ite_none_right_eq_some.mp h
    exact ⟨_, _, rfl⟩

theorem Sound.step {id : UInt16} (hs : Sound proto source id s)
    (h : (sessions proto source).step s e = some s') : Sound proto source id s' := by
  obtain ⟨es, hrun⟩ := hs.refines
  have hframed := hs.framed.step h
  obtain ⟨hworker, hquery, hanswered⟩ | ⟨a, w, hw, hcases⟩ := step_outcomes h
  · refine ⟨⟨es, hworker ▸ hrun⟩, hframed, ?_, hanswered ▸ hs.kept, ?_⟩
    · rw [hworker, hquery]
      exact hs.drawn
    · rw [hworker, hanswered]
      exact hs.completed
  · have hrun' := (machine proto source).run_trans hrun ((machine proto source).run_single hw)
    have hcompleted := Worker.completed_step hw
    obtain ⟨hbegin, rfl⟩ | ⟨⟨rttUs, rfl⟩, rfl⟩ | ⟨hconnected, hhandshaken, hzero, rfl⟩ := hcases
    · refine ⟨⟨_, hrun'⟩, hframed, drawn_begin hw hbegin, hs.kept, ?_⟩
      obtain rfl | rfl := hbegin <;> exact hcompleted.trans hs.completed
    · obtain ⟨hpc, hw'⟩ := Option.ite_none_right_eq_some.mp hw
      obtain ⟨hwritten, hlt, harrived⟩ := hs.framed.frame_got hpc
      have hdrawn : Drawn source s.query := hs.drawn (by rw [hpc]; rfl)
      have htop : w.pc = .top := by split at hw' <;> (obtain rfl := Option.some.inj hw'; rfl)
      refine ⟨⟨_, hrun'⟩, hframed, fun hexch => ?_, ?_, ?_⟩
      · have hidle : w.pc.exchanging = true := hexch
        rw [htop] at hidle
        cases hidle
      · exact List.forall_mem_cons.mpr ⟨⟨hdrawn, hwritten, hlt, s.inbox, harrived⟩, hs.kept⟩
      · rw [finish, List.countP_cons, ← hs.completed]
        exact hcompleted
    · refine ⟨⟨_, hrun'⟩, hframed, fun hexch => ?_, hs.kept, ?_⟩
      · exact hs.drawn (exchanging_of_step hw hconnected hhandshaken hexch)
      · rw [hzero, Nat.add_zero] at hcompleted
        exact hcompleted.trans hs.completed

end Session

/-- For every run of either worker, whatever sizes the stream takes and delivers octets in: it is a run of
whole writes and reads, and the completions are the answered exchanges whose reply parses.  In each of
them the frame of a query of the source was written, which a server reads back as that query exactly if it
is shorter than 65536 octets, and if the server answered with a frame, the reply is the message in it. -/
theorem exchanges_framed (proto : Protocol) (source : ℕ → String × UInt16) (id : UInt16)
    (es : List SegmentEvent) (s : Session)
    (hrun : (sessions proto source).run { worker := { id := id } } es = some s) :
    (∃ es, (machine proto source).run { id := id } es = some s.worker) ∧
      s.worker.stats.completed = s.answered.countP (fun x => (parseResponse x.reply).isSome) ∧
      ∀ x ∈ s.answered, (∃ id k, x.query = buildQuery id (source k).1 (source k).2) ∧
        x.written = frame x.query ∧
        (unframe x.written = some (x.query, []) ↔ x.query.length < 2 ^ 16) ∧
        ∀ reply rest, reply.length < 2 ^ 16 → x.arrived = frame reply ++ rest → x.reply = reply := by
  have hs := (sessions proto source).run_invariant (I := Session.Sound proto source id)
    (fun _ _ _ hs h => hs.step h) (Session.sound_start id) hrun
  refine ⟨hs.refines, hs.completed, fun x hx => ?_⟩
  obtain ⟨hdrawn, hwritten, hlt, rest, harrived⟩ := hs.kept x hx
  refine ⟨hdrawn, hwritten, ?_, fun reply rest' hreply heq => ?_⟩
  · rw [hwritten, ← List.append_nil (frame x.query)]
    exact unframe_frame_append_iff
  · exact (frame_append_inj hlt hreply (harrived.trans heq)).1

/-- A query over TCP that the stream takes in two parts, and a reply that arrives and is read in pieces,
with something behind it. -/
def pieces : List SegmentEvent :=
  [.loop false true, .connected, .accepted 1, .accepted 1, .written, .accepted 29, .written, .written,
    .segment [0], .taken 1, .segment [12, 0, 7, 0x81], .taken 1, .filled 0, .taken 3,
    .segment [0x80, 0, 1, 0, 0, 0, 0, 0, 0, 99], .taken 9, .filled 900]

/-- The one exchange of these events, and that its reply is what the server framed. -/
theorem exchanges_framed_pieces :
    ∃ s x, (sessions .tcp fun _ => ("example.com", 1)).run { worker := { id := 7 } } pieces = some s ∧
      s.answered = [x] ∧ s.worker.stats.completed = 1 ∧
      x.arrived = frame (replyTo 7) ++ [99] ∧ x.reply = replyTo 7 := by
  refine ⟨_, _, rfl, rfl, rfl, by decide, ?_⟩
  exact ((exchanges_framed .tcp (fun _ => ("example.com", 1)) 7 pieces _ rfl).2.2 _
    List.mem_cons_self).2.2.2 (replyTo 7) [99] (by decide) (by decide)

end Dnsmark.Stream
