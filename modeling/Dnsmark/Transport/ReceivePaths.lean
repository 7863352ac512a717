import Dnsmark.Udp.ClosedLoop
import Dnsmark.Udp.Throughput
import Dnsmark.Xdp.FrameParser
import Dnsmark.Xdp.UnifiedWorker

/-!
# What counts as a response

The three UDP receive paths decode replies on their own: `closed_loop_unified` looks at the first four
bytes, `throughput_udp_rx` calls `parse_response` but counts a datagram it rejects as `other`, and the
AF_XDP worker counts what `parse_dns_from_frame` accepts.  Each is compared with the one standard that
the program has, `parse_response`: a payload it accepts is counted once, in the bucket of its response
code, and one it rejects is not counted.

The comparison is between the counters before and after the payload.  The flood receiver counts in
locals that it flushes later, so its counters are the collector's and the locals together.
-/

namespace Dnsmark

open Dnsmark.Stats

/-- `queries_completed` and the five response-code counters. -/
structure Counters where
  completed : ℕ
  rcode : RcodeCounts
deriving DecidableEq, Repr

namespace Counters

/-- The counters of a collector. -/
def ofStats (st : StatsCollector) : Counters := ⟨st.completed, st.rcode⟩

/-- Count the replies in `c`. -/
def count (n : Counters) (c : RcodeCounts) : Counters := ⟨n.completed + c.total, n.rcode.add c⟩

@[simp] theorem ofStats_recordResponse (st : StatsCollector) (rcode rttUs : ℕ) :
    ofStats (st.recordResponse rcode rttUs) = (ofStats st).count (.one rcode) := by
  simp [ofStats, count, StatsCollector.recordResponse]

@[simp] theorem ofStats_recordRcodes_one (st : StatsCollector) (rcode : ℕ) :
    ofStats (st.recordRcodes (.one rcode)) = (ofStats st).count (.one rcode) := by
  simp [ofStats, count, StatsCollector.recordRcodes]

@[simp] theorem ofStats_recordLatencyUs (st : StatsCollector) (rttUs : ℕ) :
    ofStats (st.recordLatencyUs rttUs) = ofStats st := rfl

@[simp] theorem ofStats_incTimeout (st : StatsCollector) : ofStats st.incTimeout = ofStats st := rfl

theorem count_add (n : Counters) (c d : RcodeCounts) : n.count (c.add d) = (n.count c).count d := by
  have hadd : n.rcode.add (c.add d) = (n.rcode.add c).add d := by
    simp only [RcodeCounts.add, Nat.add_assoc]
  simp only [count, RcodeCounts.total_add, hadd, Nat.add_assoc]

end Counters

/-- What a payload should count as. -/
def standardCount (p : Datagram) : RcodeCounts :=
  match parseResponse p with
  | some r => .one r.rcode
  | none => {}

theorem standardCount_of_isResponse {p : Datagram} {id : QueryId} {rcode : ℕ}
    (h : IsResponse p id rcode) : standardCount p = .one rcode := by
  rw [standardCount, (parseResponse_eq_some_iff p id rcode).mpr h]

/-! ## The closed loop -/

namespace Udp.Worker

/-- A response to an occupied slot is counted under its code. -/
theorem recvOne_isResponse (cfg : Config) (recvNs : ℕ) (w : Worker) (st : StatsCollector) {p : Datagram}
    {id : QueryId} {rcode : ℕ} (hlen : p.length ≤ maxMsgSize) (h : IsResponse p id rcode)
    (hslot : w.slots id ≠ 0) :
    Counters.ofStats (recvOne cfg recvNs (w, st) p).2 = (Counters.ofStats st).count (.one rcode) := by
  have hheader := h.header
  unfold recvOne
  rw [List.take_of_length_le hlen]
  match p, h with
  | b0 :: b1 :: b2 :: b3 :: rest, h =>
    obtain rfl : (u16FromBeBytes b0 b1).toFin = id := h.id_eq
    obtain rfl : (b3 &&& 0x0f).toNat = rcode := h.rcode_eq
    simp only [if_pos hslot, report]
    split <;> simp

end Udp.Worker

/-! ## The flood receiver -/

namespace Udp.Flood

theorem toFin_of_datagramId {p : Datagram} {id : QueryId} (h : datagramId p = some id) :
    (u16FromBeBytes (p.getD 0 0) (p.getD 1 0)).toFin = id := by
  rcases p with - | ⟨b0, - | ⟨b1, rest⟩⟩
  · cases h
  · cases h
  · exact Option.some.inj h

namespace Rx

/-- The collector's counters and the local ones. -/
def counters (r : Rx) (m : Shared) : Counters := (Counters.ofStats m.stats).count r.rc

/-- Every datagram is counted, whatever it is. -/
theorem datagram_counters (cfg : Config) (r : Rx) (slots : SlotTable QueryId) (m : Shared) {p : Datagram}
    (recvNs : ℕ) (hlen : p.length ≤ maxMsgSize) :
    (r.datagram cfg slots m p recvNs).1.counters (r.datagram cfg slots m p recvNs).2.2
      = (r.counters m).count (bucket p) := by
  have hmatch : ∀ id, Counters.ofStats (matchReply cfg slots m.stats id recvNs).2
      = Counters.ofStats m.stats := by
    intro id
    unfold matchReply
    cases Inflight.takeRtt .sharedInFlight slots id recvNs with
    | none => rfl
    | some rttNs =>
      simp only [Option.elim_some, report]
      split <;> simp
  unfold datagram counters
  simp only [List.take_of_length_le hlen]
  split
  · simp only [hmatch, Counters.count_add]
  · simp only [Counters.count_add]

end Rx

end Udp.Flood

/-! ## The AF_XDP worker -/

namespace Xdp.UnifiedWorker

/-- The body of the RX loop for one frame. -/
def receiveFrame (cfg : Config) (w : UnifiedWorker) (m : Shared) (completed : ℕ) (frame : List UInt8)
    (nowNs : ℕ) : Except OutOfBounds (UnifiedWorker × Shared) := do
  match ← parseDnsFromFrame frame with
  | some (id, rcode) => return w.reply cfg m completed id rcode nowNs
  | none => return (w, m)

/-- In closed loop a response to an occupied slot is counted under its code, also in a padded frame. -/
theorem receiveFrame_isResponse {cfg : Config} (hloop : cfg.firehose = false) (w : UnifiedWorker)
    {m : Shared} (completed nowNs : ℕ) {frame p pad : List UInt8} {udp : ℕ} {id : QueryId} {rcode : ℕ}
    (hudp : parserUdpOffset frame = .ok (some udp)) (hframe : frame.drop (udp + udpHdr) = p ++ pad)
    (h : IsResponse p id rcode) (hslot : m.slots id ≠ 0) :
    ∃ w' m', w.receiveFrame cfg m completed frame nowNs = .ok (w', m') ∧
      Counters.ofStats m'.stats = (Counters.ofStats m.stats).count (.one rcode) := by
  have hpadded : IsResponse (p ++ pad) id rcode := by
    have hheader := h.header
    match p, h with
    | b0 :: b1 :: b2 :: b3 :: rest, h =>
      exact ⟨by simp at hheader ⊢; omega, h.id_eq, h.qr, h.rcode_eq⟩
  have hparse : parseDnsFromFrame frame = .ok (some (id, rcode)) := by
    rw [parseDnsFromFrame_eq hudp, hframe, (parseResponse_eq_some_iff _ _ _).mpr hpadded]
    rfl
  refine ⟨(w.reply cfg m completed id rcode nowNs).1, (w.reply cfg m completed id rcode nowNs).2, ?_, ?_⟩
  · simp only [receiveFrame, hparse, bind, Except.bind]
    rfl
  · rw [reply_of_occupied hloop w hslot]
    exact Counters.ofStats_recordResponse _ _ _

end Xdp.UnifiedWorker

/-! ## Agreement -/

/-- For every payload of at most 512 bytes whose id is outstanding in the closed-loop worker's table and
in the AF_XDP worker's, and every frame that carries it: all three paths count it as `parse_response`
says if and only if it has a whole DNS header with `QR` set.  Neither the age of the slots nor the flood
receiver's table matters. -/
theorem receive_paths_agree_iff (p : Datagram) (hlen : p.length ≤ maxMsgSize) (id : QueryId)
    (hid : Udp.Flood.datagramId p = some id)
    (udpCfg : Udp.Config) (w : Udp.Worker) (st : StatsCollector) (recvNs : ℕ) (hw : w.slots id ≠ 0)
    (floodCfg : Udp.Flood.Config) (r : Udp.Flood.Rx) (slots : SlotTable QueryId) (m : Udp.Flood.Shared)
    (rxNs : ℕ)
    (xdpCfg : Xdp.Config) (hloop : 0 < xdpCfg.maxOutstanding) (u : Xdp.UnifiedWorker) (xm : Xdp.Shared)
    (completed nowNs : ℕ) (hxm : xm.slots id ≠ 0) (frame pad : List UInt8) (udp : ℕ)
    (hudp : Xdp.parserUdpOffset frame = .ok (some udp))
    (hframe : frame.drop (udp + Xdp.udpHdr) = p ++ pad) :
    (Counters.ofStats (Udp.Worker.recvOne udpCfg recvNs (w, st) p).2
        = (Counters.ofStats st).count (standardCount p) ∧
      (r.datagram floodCfg slots m p rxNs).1.counters (r.datagram floodCfg slots m p rxNs).2.2
        = (r.counters m).count (standardCount p) ∧
      ∃ u' xm', u.receiveFrame xdpCfg xm completed frame nowNs = .ok (u', xm') ∧
        Counters.ofStats xm'.stats = (Counters.ofStats xm.stats).count (standardCount p)) ↔
    12 ≤ p.length ∧ QrSet p := by
  have hfire := Xdp.Config.firehose_eq_false hloop
  rw [Udp.Flood.Rx.datagram_counters floodCfg r slots m rxNs hlen]
  constructor
  · -- the flood receiver counts every datagram, so only a response can agree with the standard
    rintro ⟨-, hflood, -⟩
    by_contra hno
    have hnone : parseResponse p = none := by
      rw [parseResponse_eq_none_iff]
      by_cases hheader : 12 ≤ p.length
      · exact .inr fun hqr => hno ⟨hheader, hqr⟩
      · exact .inl (not_le.mp hheader)
    have hcompleted := congrArg Counters.completed hflood
    simp [Counters.count, Udp.Flood.bucket, standardCount, hnone, RcodeCounts.total] at hcompleted
  · rintro ⟨hheader, hqr⟩
    obtain ⟨rcode, hresponse⟩ : ∃ rcode, IsResponse p id rcode := by
      exact ⟨_, hheader, Udp.Flood.toFin_of_datagramId hid, hqr, rfl⟩
    have hparse := (parseResponse_eq_some_iff p id rcode).mpr hresponse
    rw [standardCount_of_isResponse hresponse]
    refine ⟨?_, ?_, ?_⟩
    · exact Udp.Worker.recvOne_isResponse udpCfg recvNs w st hlen hresponse hw
    · rw [Udp.Flood.bucket, hparse]
    · exact u.receiveFrame_isResponse hfire completed nowNs hudp hframe hresponse hxm

/-- A table in which query 1 was sent at 5 ns. -/
def awaitingOne : SlotTable QueryId := Inflight.insert .empty 1 5

/-- A reply to query 1 is counted once by each path, as `NOERROR`. -/
theorem receive_paths_agree_replyFrame :
    Counters.ofStats (Udp.Worker.recvOne ⟨64, 3000000000⟩ 9
        ({ Udp.Worker.new 0 with slots := awaitingOne }, .new) (replyTo 1)).2
        = (Counters.ofStats .new).count (standardCount (replyTo 1)) ∧
      standardCount (replyTo 1) = { noerror := 1 } := by
  refine ⟨((receive_paths_agree_iff (replyTo 1) (by decide) 1 (by decide) ⟨64, 3000000000⟩
    { Udp.Worker.new 0 with slots := awaitingOne } .new 9 (by decide) ⟨true, 3000000000⟩ .new awaitingOne
    .new 9 ⟨64, 3000000000, false⟩ (by decide) .new { Xdp.Shared.new with slots := awaitingOne } 0 9
    (by decide) Xdp.replyFrame [] 34 (by decide) (by decide)).mpr ?_).1, by decide⟩
  exact ⟨by decide, by decide⟩

/-- A header with id 1 that is a query: `QR` is clear. -/
def echoedQuery : Datagram := [0, 1, 1, 0, 0, 1, 0, 0, 0, 0, 0, 0]

/-- The same in a frame from port 53, over IPv4. -/
def echoedFrame : List UInt8 := Xdp.replyFrame.take 42 ++ echoedQuery

/-- With query 1 outstanding in all three paths, its echo is `NOERROR` in the closed loop, `other` in the
flood receiver, and not counted over AF_XDP nor by the standard. -/
theorem echoed_query_counted_differently :
    standardCount echoedQuery = {} ∧
      Counters.ofStats (Udp.Worker.recvOne ⟨64, 3000000000⟩ 9
        ({ Udp.Worker.new 0 with slots := awaitingOne }, .new) echoedQuery).2 = ⟨1, { noerror := 1 }⟩ ∧
      (Udp.Flood.Rx.new.datagram ⟨true, 3000000000⟩ awaitingOne .new echoedQuery 9).1.counters
        (Udp.Flood.Rx.new.datagram ⟨true, 3000000000⟩ awaitingOne .new echoedQuery 9).2.2
          = ⟨1, { other := 1 }⟩ ∧
      Xdp.UnifiedWorker.new.receiveFrame ⟨64, 3000000000, false⟩
        { Xdp.Shared.new with slots := awaitingOne } 0 echoedFrame 9
          = .ok (.new, { Xdp.Shared.new with slots := awaitingOne }) ∧
      Counters.ofStats Xdp.Shared.new.stats = ⟨0, {}⟩ := by
  refine ⟨by decide, by decide, by decide, rfl, rfl⟩

end Dnsmark
