import Dnsmark.Common.Machine
import Dnsmark.Dns.Query
import Dnsmark.Dns.Response
import Dnsmark.Stats.Collector

/-!
# The stream transports

`run_tcp_worker` of `src/transport/tcp.rs` and `run_dot_worker` of `src/transport/dot.rs`: one query per
connection.  The worker awaits the connection, with DoT the TLS handshake, three writes and two reads; an
event is how one of these ends.  Each can fail, and each can be cancelled by a timeout.  With TCP the
connect has a timeout of its own, outside of the one around the exchange; with DoT it is inside.  The
pauses between two iterations do nothing and are not events.

`sent` is bumped between the last write and the first read.  So a failure before it is an error without
a query, and a reply that does not parse is a query without an outcome; `step_excess` says that nothing
else disturbs the accounting.
-/

namespace Dnsmark.Stream

open Dnsmark.Stats

inductive Protocol where
  | tcp
  | dot
deriving DecidableEq, Repr

/-- The three awaited writes: the length prefix, the query, the flush. -/
inductive Writing where
  | length
  | query
  | flush
deriving DecidableEq, Repr

/-- What the worker awaits. -/
inductive Pc where
  /-- The head of the loop. -/
  | top
  | connecting
  /-- DoT only. -/
  | handshaking
  | writing (stage : Writing) (qbytes : List UInt8)
  | readingLength
  | readingResponse (respLen : ℕ)
  /-- The loop has been left. -/
  | stopped
deriving DecidableEq, Repr

/-- How what the worker awaits ends.  At the head of the loop it reads `shutdown` and, with DoT, the server
name. -/
inductive Event where
  | loop (shutdown validName : Bool)
  | connected
  | handshaken
  | written
  | gotLength (hi lo : UInt8)
  | gotResponse (respBuf : Datagram) (rttUs : ℕ)
  /-- An I/O error: a refused connection, a failed handshake, write or read. -/
  | failed
  /-- The timeout around the await. -/
  | timedOut
deriving DecidableEq, Repr

/-- The query is written and its outcome is not known. -/
def Pc.awaiting : Pc → Bool
  | readingLength | readingResponse _ => true
  | _ => false

@[simp] theorem Pc.awaiting_top : Pc.top.awaiting = false := rfl

structure Worker where
  pc : Pc := .top
  id : UInt16
  /-- How many queries have been drawn from the source. -/
  drawn : ℕ := 0
  stats : StatsCollector := .new
deriving DecidableEq, Repr

/-- Sent queries that are neither completed nor lost. -/
def unfinished (st : StatsCollector) : ℤ := (st.sent : ℤ) - st.completed - (st.timeouts + st.errors)

section Unfinished

variable (st : StatsCollector)

@[simp] theorem unfinished_incSent : unfinished st.incSent = unfinished st + 1 := by
  simp only [unfinished, StatsCollector.incSent]
  omega

@[simp] theorem unfinished_recordResponse (rcode rttUs : ℕ) :
    unfinished (st.recordResponse rcode rttUs) = unfinished st - 1 := by
  simp only [unfinished, StatsCollector.recordResponse]
  omega

@[simp] theorem unfinished_incError : unfinished st.incError = unfinished st - 1 := by
  simp only [unfinished, StatsCollector.incError]
  omega

@[simp] theorem unfinished_incTimeout : unfinished st.incTimeout = unfinished st - 1 := by
  simp only [unfinished, StatsCollector.incTimeout]
  omega

end Unfinished

namespace Worker

/-- Draw a query and start to write it. -/
def send (source : ℕ → String × UInt16) (w : Worker) : Worker :=
  let entry := source w.drawn
  { w with pc := .writing .length (buildQuery w.id entry.1 entry.2), drawn := w.drawn + 1 }

/-- The end of an exchange, however it went. -/
def finish (w : Worker) : Worker := { w with pc := .top, id := w.id + 1 }

/-- The end of an iteration that fails; a TCP worker that could not connect keeps its id. -/
def abandon (proto : Protocol) (w : Worker) : Worker :=
  if proto = .tcp ∧ w.pc = .connecting then { w with pc := .top } else w.finish

def step (proto : Protocol) (source : ℕ → String × UInt16) (w : Worker) : Event → Option Worker
  | .loop shutdown validName =>
    if w.pc = .top then
      if shutdown ∨ proto = .dot ∧ validName = false then some { w with pc := .stopped }
      else some { w with pc := .connecting }
    else none
  | .connected =>
    if w.pc = .connecting then
      match proto with
      | .tcp => some (w.send source)
      | .dot => some { w with pc := .handshaking }
    else none
  | .handshaken => if w.pc = .handshaking then some (w.send source) else none
  | .written =>
    match w.pc with
    | .writing .length qbytes => some { w with pc := .writing .query qbytes }
    | .writing .query qbytes => some { w with pc := .writing .flush qbytes }
    | .writing .flush _ => some { w with pc := .readingLength, stats := w.stats.incSent }
    | _ => none
  | .gotLength hi lo =>
    if w.pc = .readingLength then
      some { w with pc := .readingResponse (u16FromBeBytes hi lo).toNat }
    else none
  | .gotResponse respBuf rttUs =>
    if w.pc = .readingResponse respBuf.length then
      match parseResponse respBuf with
      | some resp => some { w.finish with stats := w.stats.recordResponse resp.rcode rttUs }
      | none => some w.finish
    else none
  | .failed =>
    if w.pc ≠ .top ∧ w.pc ≠ .stopped then
      some { w.abandon proto with stats := w.stats.incError }
    else none
  | .timedOut =>
    if w.pc ≠ .top ∧ w.pc ≠ .stopped then
      some { w.abandon proto with stats := w.stats.incTimeout }
    else none

/-- The unfinished queries beyond the one being awaited. -/
def excess (w : Worker) : ℤ := unfinished w.stats - if w.pc.awaiting then 1 else 0

/-- What an event adds to the excess. -/
def defect (w : Worker) : Event → ℤ
  | .failed | .timedOut => if w.pc.awaiting then 0 else -1
  | .gotResponse respBuf _ => if (parseResponse respBuf).isSome then 0 else 1
  | _ => 0

/-- Failures come after the query was written, and replies parse. -/
def Accounted (w : Worker) : Event → Prop
  | .failed | .timedOut => w.pc.awaiting = true
  | .gotResponse respBuf _ => (parseResponse respBuf).isSome
  | _ => True

instance (w : Worker) : (e : Event) → Decidable (w.Accounted e)
  | .failed | .timedOut => inferInstanceAs (Decidable (_ = true))
  | .gotResponse _ _ => inferInstanceAs (Decidable (_ = true))
  | .loop _ _ | .connected | .handshaken | .written | .gotLength _ _ => .isTrue trivial

end Worker

/-- The worker as a machine. -/
def machine (proto : Protocol) (source : ℕ → String × UInt16) : Machine Worker Event :=
  ⟨Worker.step proto source⟩

namespace Worker

variable {proto : Protocol} {source : ℕ → String × UInt16} {w w' : Worker} {e : Event}

theorem defect_eq_zero_iff : w.defect e = 0 ↔ w.Accounted e := by
  cases e with
  | failed => simp [defect, Accounted]
  | timedOut => simp [defect, Accounted]
  | gotResponse respBuf rttUs => simp [defect, Accounted, Option.isSome_iff_ne_none]
  | loop => exact iff_of_true rfl trivial
  | connected => exact iff_of_true rfl trivial
  | handshaken => exact iff_of_true rfl trivial
  | written => exact iff_of_true rfl trivial
  | gotLength => exact iff_of_true rfl trivial

@[simp] theorem abandon_pc : (w.abandon proto).pc = .top := by
  unfold abandon
  split <;> rfl

/-- An event that counts nothing, and leaves a query awaited or not as it was. -/
theorem excess_of_silent (hstats : w'.stats = w.stats) (hawait : w'.pc.awaiting = w.pc.awaiting)
    (hdefect : w.defect e = 0) :
    w'.excess = w.excess + w.defect e ∧ (w.defect e ≠ 0 → w'.pc = .top) := by
  refine ⟨?_, fun hne => absurd hdefect hne⟩
  rw [excess, excess, hstats, hawait, hdefect, Int.add_zero]

/-- What an event does to the accounting, and that what disturbs it ends the iteration. -/
theorem step_excess (h : (machine proto source).step w e = some w') :
    w'.excess = w.excess + w.defect e ∧ (w.defect e ≠ 0 → w'.pc = .top) := by
  cases e with
  | loop shutdown validName =>
    obtain ⟨hpc, h⟩ := Option.ite_none_right_eq_some.mp h
    split at h
    · obtain rfl := Option.some.inj h
      exact excess_of_silent rfl (by rw [hpc]; rfl) rfl
    · obtain rfl := Option.some.inj h
      exact excess_of_silent rfl (by rw [hpc]; rfl) rfl
  | connected =>
    obtain ⟨hpc, h⟩ := Option.ite_none_right_eq_some.mp h
    cases proto with
    | tcp =>
      obtain rfl := Option.some.inj h
      exact excess_of_silent rfl (by rw [hpc]; rfl) rfl
    | dot =>
      obtain rfl := Option.some.inj h
      exact excess_of_silent rfl (by rw [hpc]; rfl) rfl
  | handshaken =>
    obtain ⟨hpc, ⟨⟩⟩ := Option.ite_none_right_eq_some.mp h
    exact excess_of_silent rfl (by rw [hpc]; rfl) rfl
  | written =>
    simp only [machine, step] at h
    split at h
    · rename_i hpc
      obtain rfl := Option.some.inj h
      exact excess_of_silent rfl (by rw [hpc]; rfl) rfl
    · rename_i hpc
      obtain rfl := Option.some.inj h
      exact excess_of_silent rfl (by rw [hpc]; rfl) rfl
    · -- the flush: one more sent, and now awaited
      rename_i hpc
      obtain rfl := Option.some.inj h
      simp [excess, defect, hpc, Pc.awaiting]
    · exact nomatch h
  | gotLength hi lo =>
    obtain ⟨hpc, ⟨⟩⟩ := Option.ite_none_right_eq_some.mp h
    exact excess_of_silent rfl (by rw [hpc]; rfl) rfl
  | gotResponse respBuf rttUs =>
    obtain ⟨hpc, h⟩ := Option.ite_none_right_eq_some.mp h
    split at h
    · rename_i hparse
      obtain rfl := Option.some.inj h
      simp [excess, defect, hpc, hparse, Pc.awaiting, finish]
    · rename_i hparse
      obtain rfl := Option.some.inj h
      simp [excess, defect, hpc, hparse, Pc.awaiting, finish]
  | failed =>
    obtain ⟨-, ⟨⟩⟩ := Option.ite_none_right_eq_some.mp h
    cases hawait : w.pc.awaiting <;> simp [excess, defect, hawait, Int.sub_eq_add_neg]
  | timedOut =>
    obtain ⟨-, ⟨⟩⟩ := Option.ite_none_right_eq_some.mp h
    cases hawait : w.pc.awaiting <;> simp [excess, defect, hawait, Int.sub_eq_add_neg]

/-- For every run of either worker: at every head of the loop the sent queries are the completed ones,
the timeouts and the errors, exactly when nothing fails or times out before the query is written and
every reply parses. -/
theorem losses_accounted_iff (proto : Protocol) (source : ℕ → String × UInt16) (id : UInt16)
    (es : List Event) (w : Worker) (hrun : (machine proto source).run { id := id } es = some w) :
    (machine proto source).Always
        (fun w => w.pc = .top →
          (w.stats.sent : ℤ) - w.stats.completed = w.stats.timeouts + w.stats.errors)
        { id := id } es ↔
      (machine proto source).Meets Accounted { id := id } es := by
  have hbalanced : ∀ w : Worker, w.pc = .top → (w.excess = 0 ↔
      (w.stats.sent : ℤ) - w.stats.completed = w.stats.timeouts + w.stats.errors) := by
    intro w hpc
    simp only [excess, hpc, Pc.awaiting, unfinished, Bool.false_eq_true, if_false]
    omega
  refine (machine proto source).always_iff_meets (I := fun w => w.excess = 0)
    (fun w hw hpc => (hbalanced w hpc).mp hw) ?_ ?_ rfl hrun
  · intro w e w' hw hstep hC
    rw [(step_excess hstep).1, hw, defect_eq_zero_iff.mpr hC]
    rfl
  · intro w e w' hw hstep hC hP
    have hdefect : w.defect e ≠ 0 := fun hzero => hC (defect_eq_zero_iff.mp hzero)
    obtain ⟨hexcess, htop⟩ := step_excess hstep
    have hzero := (hbalanced w' (htop hdefect)).mpr (hP (htop hdefect))
    rw [hexcess, hw, Int.zero_add] at hzero
    exact hdefect hzero

/-- A refused connection is an error without a query. -/
theorem losses_of_refusedConnect :
    ∃ w, (machine .tcp fun _ => ("example.com", 1)).run { id := 7 }
        [.loop false true, .failed] = some w ∧
      w.pc = .top ∧ w.stats.sent = 0 ∧ w.stats.completed = 0 ∧ w.stats.timeouts = 0 ∧
      w.stats.errors = 1 ∧
      ¬ ((w.stats.sent : ℤ) - w.stats.completed = w.stats.timeouts + w.stats.errors) :=
  ⟨_, rfl, rfl, rfl, rfl, rfl, rfl, by decide⟩

/-- An exchange over TLS that is answered, and one that times out while the reply is read. -/
def answeredThenSilent : List Event :=
  [.loop false true, .connected, .handshaken, .written, .written, .written, .gotLength 0 12,
    .gotResponse (replyTo 7) 900,
    .loop false true, .connected, .handshaken, .written, .written, .written, .timedOut]

/-- Over TLS, an answered exchange and a lost one are both accounted for. -/
theorem losses_of_answeredThenSilent :
    ∃ w, (machine .dot fun _ => ("example.com", 1)).run { id := 7 } answeredThenSilent = some w ∧
      w.stats.sent = 2 ∧ w.stats.completed = 1 ∧
      (machine .dot fun _ => ("example.com", 1)).Always
        (fun w => w.pc = .top →
          (w.stats.sent : ℤ) - w.stats.completed = w.stats.timeouts + w.stats.errors)
        { id := 7 } answeredThenSilent := by
  refine ⟨_, rfl, rfl, rfl, ?_⟩
  apply (losses_accounted_iff .dot (fun _ => ("example.com", 1)) 7 answeredThenSilent _ rfl).mpr
  decide

end Worker

end Dnsmark.Stream
