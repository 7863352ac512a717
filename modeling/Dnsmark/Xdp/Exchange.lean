import Dnsmark.Transport.ReceivePaths
import Dnsmark.Xdp.Iteration
import Dnsmark.Xdp.TxBatch
import Dnsmark.Xdp.WireFormat

/-!
# A batch and its replies

The TX step writes queries into frames, the server answers the frames, the filter and the parser look at
what comes back, and the worker matches it against its table.  Each of these has a model of its own; here
they are put together, from the pool of frames to the latency samples.

The server sees the octets of a frame and nothing else.  It answers with the mirrored frame and a response
that begins with the two octets of the query's id (`Answers`); everything else in the reply is its own
choice.  `batch_round_trip` follows the frames of one batch: the answers are redirected, parsed and matched,
in whatever order they arrive and whichever of them do.
-/

namespace Dnsmark.Xdp

open Dnsmark.Inflight Dnsmark.Stats

/-! ## The worker's side -/

section Worker

variable {cfg : Config} {N : ℕ} {i : Fin N} {w : UnifiedWorker} {m : Shared}

variable (i w m) in
/-- Between the inserts and the replies: the gate is raised, the sends are counted. -/
theorem run_counted (hloop : cfg.firehose = false) {enq : ℕ} (hpc : w.pc = .register [] enq) (nowNs : ℕ) :
    ∃ w' m', ((workers cfg N).alone i).run (w, m) [.addInFlight, .countSent nowNs, .replies]
        = some (w', m') ∧ w'.pc = .matching 0 ∧ m'.slots = m.slots ∧
      m'.globalInFlight = m.globalInFlight + enq ∧ m'.stats.completed = m.stats.completed ∧
      m'.stats.histogram = m.stats.histogram := by
  obtain ⟨w', m', hadded, hpc', hslots, hgate, hcompleted, hhistogram, -⟩ :=
    run_added i w m hloop hpc nowNs
  have hreceive : ((workers cfg N).alone i).step (w', m') .replies
      = some ({ w' with pc := .matching 0 }, m') := by
    simp only [Threads.alone, workers, UnifiedWorker.step, hpc']
  exact ⟨_, _, Machine.run_trans _ hadded (Machine.run_single _ hreceive), rfl, hslots, hgate,
    hcompleted, hhistogram⟩

end Worker

/-! ## The server's side -/

/-- The octets of a descriptor's frame, as the NIC sends them. -/
def wire (area : List UInt8) (d : XdpDesc) : List UInt8 := (frameAt area d.addr).take d.len.toNat

/-- A reply to frame number `frame` of a batch, and when it is matched. -/
structure Answer where
  frame : ℕ
  fields : ReplyFields
  payload : List UInt8
  rcode : ℕ
  nowNs : ℕ

/-- A server's response to the message `query`: it echoes the octets of the id. -/
structure Answers (query : List UInt8) (a : Answer) : Prop where
  header : 12 ≤ a.payload.length
  echo : a.payload.take 2 = query.take 2
  qr : QrSet a.payload
  rcode : (a.payload.getD 3 0 &&& 0x0f).toNat = a.rcode

/-- The id that a query is written with. -/
theorem id_of_buildQuery (id : QueryId) (name : String) (qtype : UInt16) :
    (u16FromBeBytes ((buildQuery (wireId id) name qtype).getD 0 0)
      ((buildQuery (wireId id) name qtype).getD 1 0)).toFin = id := by
  have hval : (wireId id).toNat = id.val := UInt16.toNat_ofNat_of_lt' id.isLt
  rw [buildQuery_eq]
  exact Fin.ext ((congrArg UInt16.toNat (u16FromBeBytes_toBeBytes (wireId id))).trans hval)

theorem Answers.isResponse {a : Answer} {id : QueryId} {name : String} {qtype : UInt16}
    (h : Answers (buildQuery (wireId id) name qtype) a) : IsResponse a.payload id a.rcode := by
  have hget : ∀ k < 2, a.payload.getD k 0 = (buildQuery (wireId id) name qtype).getD k 0 := by
    intro k hk
    rw [List.getD_eq_getElem?_getD, List.getD_eq_getElem?_getD, ← List.getElem?_take_of_lt hk, h.echo,
      List.getElem?_take_of_lt hk]
  refine ⟨h.header, ?_, h.qr, h.rcode⟩
  rw [hget 0 (by decide), hget 1 (by decide), id_of_buildQuery]

/-- A stamped frame on the wire. -/
theorem StampedWith.take_eq {e : Endpoints} {frame dns frame' : List UInt8} {port : UInt16}
    (h : StampedWith (.newWithVlan e) frame dns port frame')
    (hfit : (FrameHeader.newWithVlan e).outer + dns.length ≤ frame.length) :
    ∃ ipTot cksum udpLen, frame'.take ((FrameHeader.newWithVlan e).outer + dns.length)
      = e.wireHeader ipTot cksum port udpLen ++ dns := by
  obtain ⟨written, hwrite, hport⟩ := h
  rw [FrameHeader.writeFrame_eq e hfit] at hwrite
  obtain ⟨rfl, -⟩ := Prod.mk.inj (Except.ok.inj hwrite)
  rw [List.append_assoc, FrameHeader.setSrcPort_eq] at hport
  obtain rfl := Except.ok.inj hport
  rw [← List.append_assoc]
  exact ⟨_, _, _, take_frame e ..⟩

namespace TxSetup

variable (c : TxSetup) (s : TxState)

/-- The server's reply to the frame as it left. -/
def replyFrame (area : List UInt8) (a : Answer) : List UInt8 :=
  mirror c.hdr.l2 (wire area (c.desc s a.frame)) a.fields a.payload

/-- The worker's loop over received frames: the events of those that parse. -/
def replyActs : List (List UInt8 × ℕ) → Except OutOfBounds (List Act)
  | [] => return []
  | (frame, nowNs) :: frames => do
    let parsed ← parseDnsFromFrame frame
    let acts ← replyActs frames
    match parsed with
    | some (id, rcode) => return .reply id rcode nowNs :: acts
    | none => return acts

/-- What an answer is matched as. -/
def matched (a : Answer) : Matched := ⟨c.idAt (s.idCtr + a.frame), a.rcode, a.nowNs⟩

/-- Answers to frames of a batch of `enq`, at most one to each. -/
structure Served (area : List UInt8) (enq : ℕ) (answers : List Answer) : Prop where
  frame_lt : ∀ a ∈ answers, a.frame < enq
  once : (answers.map Answer.frame).Nodup
  answers : ∀ a ∈ answers, Answers ((wire area (c.desc s a.frame)).drop c.hdr.outer) a

/-- What a batch and its answers have done to the shared state. -/
structure RoundTrip (m m' : Shared) (stamps : List ℕ) (answers : List Answer) : Prop where
  gate : m'.globalInFlight = m.globalInFlight + stamps.length - answers.length
  completed : m'.stats.completed = m.stats.completed + answers.length
  /-- One sample for each answer, from the insert of its own query. -/
  samples : m'.stats.histogram
    = (answers.map fun a => max ((a.nowNs - max (stamps.getD a.frame 0) 1) / 1000) 1).reverse ++
      m.stats.histogram
  answered : ∀ a ∈ answers, m'.slots (c.idAt (s.idCtr + a.frame)) = 0
  waiting : ∀ j < stamps.length, (∀ a ∈ answers, a.frame ≠ j) →
    m'.slots (c.idAt (s.idCtr + j)) = max (stamps.getD j 0) 1
  others : ∀ id, (∀ j < stamps.length, id ≠ c.idAt (s.idCtr + j)) → m'.slots id = m.slots id

variable {c s}

section Wire

variable (hready : c.Ready s) {b : TxLoop} {n : ℕ} (hfilled : Filled c s b n)
include hready hfilled

/-- What is on the wire for frame `j`. -/
theorem wire_eq {j : ℕ} (hj : j < n) (hn : n ≤ s.sock.txPool.length) :
    ∃ ipTot cksum udpLen, wire b.area (c.desc s j)
      = c.endpoints.wireHeader ipTot cksum (sportAt (s.sportCtr + j)) udpLen ++ c.query s j := by
  have hframe := hready.frames _ (popped_mem (hj.trans_le hn))
  have hlen : (frameAt s.area (popped s j)).length = frameSize := Slice.length_window hframe.2
  have hstamped : StampedWith (.newWithVlan c.endpoints) (frameAt s.area (popped s j)) (c.query s j)
      (sportAt (s.sportCtr + j)) (frameAt b.area (popped s j)) := hfilled.written j hj
  obtain ⟨ipTot, cksum, udpLen, htake⟩ := hstamped.take_eq ((hready.query_fits j).trans_eq hlen.symm)
  refine ⟨ipTot, cksum, udpLen, ?_⟩
  rw [wire, hready.len_desc j]
  exact htake

/-- The message that the server sees. -/
theorem message_eq {j : ℕ} (hj : j < n) (hn : n ≤ s.sock.txPool.length) :
    (wire b.area (c.desc s j)).drop c.hdr.outer = c.query s j := by
  obtain ⟨ipTot, cksum, udpLen, hwire⟩ := wire_eq hready hfilled hj hn
  rw [hwire]
  exact List.drop_left' (FrameHeader.length_wireHeader ..)

/-- The reply is parsed as the answer to the query. -/
theorem parse_replyFrame {a : Answer} (ha : a.frame < n) (hn : n ≤ s.sock.txPool.length)
    (h : Answers ((wire b.area (c.desc s a.frame)).drop c.hdr.outer) a) :
    parseDnsFromFrame (c.replyFrame s b.area a)
      = .ok (some (c.idAt (s.idCtr + a.frame), a.rcode)) := by
  obtain ⟨ipTot, cksum, udpLen, hwire⟩ := wire_eq hready hfilled ha hn
  rw [message_eq hready hfilled ha hn] at h
  rw [replyFrame, hwire]
  refine (congrArg parseDnsFromFrame (mirror_wireHeader ..)).trans ?_
  exact parseDnsFromFrame_mirrorHeader _ _ _ h.isResponse

/-- The filter redirects it, if the frame has no tag and the server is on port 53. -/
theorem redirect_replyFrame {a : Answer} (ha : a.frame < n) (hn : n ≤ s.sock.txPool.length)
    (hvlan : c.endpoints.vlan = none) (hport : c.endpoints.dstPort = 53) {xsks : XskMap} {queue : ℕ}
    (hbound : xsks.bound queue = true) :
    dnsXdpClient xsks queue (c.replyFrame s b.area a) = .redirect queue := by
  obtain ⟨ipTot, cksum, udpLen, hwire⟩ := wire_eq hready hfilled ha hn
  rw [replyFrame, hwire]
  refine (congrArg (dnsXdpClient xsks queue) (mirror_wireHeader ..)).trans ?_
  exact (dnsXdpClient_mirrorHeader ..).mpr ⟨hbound, hvlan, hport⟩

theorem replyActs_eq {answers : List Answer} (hn : n ≤ s.sock.txPool.length)
    (hlt : ∀ a ∈ answers, a.frame < n)
    (h : ∀ a ∈ answers, Answers ((wire b.area (c.desc s a.frame)).drop c.hdr.outer) a) :
    replyActs (answers.map fun a => (c.replyFrame s b.area a, a.nowNs))
      = .ok ((answers.map (c.matched s)).map Matched.act) := by
  induction answers with
  | nil => rfl
  | cons a answers ih =>
    obtain ⟨ha, hanswers⟩ := List.forall_mem_cons.mp h
    obtain ⟨halt, hlt⟩ := List.forall_mem_cons.mp hlt
    simp only [List.map_cons, replyActs, parse_replyFrame hready hfilled halt hn ha,
      ih hlt hanswers, bind, Except.bind]
    rfl

end Wire

/-- The worker in front of the TX step of `c` in state `s`. -/
structure AtTransmit (c : TxSetup) (s : TxState) {N : ℕ} (i : Fin N) (w : UnifiedWorker) (headroom : ℕ) :
    Prop where
  ready : c.Ready s
  closedLoop : c.cfg.firehose = false
  numWorkers : c.numWorkers = N
  workerId : c.workerId = i
  idCtr : w.idCtr = s.idCtr
  pc : w.pc = .transmit headroom
  /-- The batch is not longer than the worker's range of ids. -/
  span : min headroom s.sock.txPool.length ≤ idSpan N

section Matching

variable {N : ℕ} {i : Fin N} {w : UnifiedWorker} {m : Shared} {headroom enq : ℕ}

/-- The ids of a batch within the worker's range are different. -/
theorem idAt_inj_of_lt (hspan : enq ≤ idSpan c.numWorkers) {j k : ℕ} (hj : j < enq) (hk : k < enq)
    (h : c.idAt (s.idCtr + j) = c.idAt (s.idCtr + k)) : j = k := by
  have hne : ∀ a b, a < b → b < enq → c.idAt (s.idCtr + b) ≠ c.idAt (s.idCtr + a) := by
    intro a b hab hb
    have hadd : s.idCtr + b = s.idCtr + a + (b - a) := by omega
    rw [hadd]
    exact idAt_add_ne c.numWorkers c.workerId _ (by omega) (by omega)
  rcases Nat.lt_trichotomy j k with hlt | heq | hgt
  · exact absurd h.symm (hne j k hlt hk)
  · exact heq
  · exact absurd h (hne k j hgt hj)

/-- The slots of a batch after its inserts. -/
theorem storeAll_batch (hspan : enq ≤ idSpan c.numWorkers) (slots : SlotTable QueryId) (stamps : List ℕ)
    (hlen : stamps.length = enq) :
    (∀ j < enq, slots.storeAll (((List.range enq).map fun j => c.idAt (s.idCtr + j)).zip
        (stamps.map (max · 1))) (c.idAt (s.idCtr + j)) = max (stamps.getD j 0) 1) ∧
      ∀ id, (∀ j < enq, id ≠ c.idAt (s.idCtr + j)) →
        slots.storeAll (((List.range enq).map fun j => c.idAt (s.idCtr + j)).zip
          (stamps.map (max · 1))) id = slots id := by
  have hfst : (((List.range enq).map fun j => c.idAt (s.idCtr + j)).zip (stamps.map (max · 1))).map
      Prod.fst = (List.range enq).map fun j => c.idAt (s.idCtr + j) := by
    rw [List.map_fst_zip]
    simp [hlen]
  constructor
  · intro j hj
    refine SlotTable.storeAll_of_mem slots ?_ ?_
    · rw [hfst]
      exact List.Nodup.map_on (fun a ha b hb heq =>
        idAt_inj_of_lt hspan (List.mem_range.mp ha) (List.mem_range.mp hb) heq) List.nodup_range
    · refine List.mem_iff_getElem?.mpr ⟨j, ?_⟩
      have hget : stamps[j]? = some (stamps.getD j 0) := by
        rw [List.getD_eq_getElem?_getD, List.getElem?_eq_getElem (hlen.symm ▸ hj), Option.getD_some]
      rw [List.getElem?_zip_eq_some, List.getElem?_map, List.getElem?_map, List.getElem?_range hj, hget]
      exact ⟨rfl, rfl⟩
  · intro id hid
    refine SlotTable.storeAll_of_notMem slots ?_
    rw [hfst, List.mem_map]
    rintro ⟨j, hj, rfl⟩
    exact hid j (List.mem_range.mp hj) rfl

/-- The run of a batch, from the TX step to the end of its replies. -/
def batchActs (pool nowNs : ℕ) (stamps : List ℕ) (replies : List Act) : List Act :=
  [.transmit pool stamps.length] ++ stamps.map .insert ++ [.addInFlight, .countSent nowNs, .replies] ++
    replies ++ [.endReplies]

theorem Served.nodup_ids {area : List UInt8} {answers : List Answer} (hspan : enq ≤ idSpan c.numWorkers)
    (h : Served c s area enq answers) : ((answers.map (c.matched s)).map Matched.id).Nodup := by
  rw [List.map_map, show Matched.id ∘ c.matched s = (fun j => c.idAt (s.idCtr + j)) ∘ Answer.frame from rfl,
    ← List.map_map]
  refine List.Nodup.map_on (fun j hj k hk heq => ?_) h.once
  obtain ⟨a, ha, rfl⟩ := List.mem_map.mp hj
  obtain ⟨a', ha', rfl⟩ := List.mem_map.mp hk
  exact idAt_inj_of_lt hspan (h.frame_lt a ha) (h.frame_lt a' ha') heq

/-- The TX step, as the worker's machine has it. -/
theorem step_transmit (h : AtTransmit c s i w headroom) (hpos : 0 < enq)
    (hle : enq ≤ min headroom s.sock.txPool.length) :
    ∃ w', ((workers c.cfg N).alone i).step (w, m) (.transmit s.sock.txPool.length enq) = some (w', m) ∧
      w'.pc = .register ((List.range enq).map fun j => c.idAt (s.idCtr + j)) enq := by
  refine ⟨w.transmit c.cfg N i headroom s.sock.txPool.length enq, ?_, ?_⟩
  · simp only [Threads.alone, workers, UnifiedWorker.step, h.pc, if_pos hle]
  · simp only [UnifiedWorker.transmit, if_pos hpos, Config.registered, h.closedLoop, take_map_range _ hle,
      h.idCtr, idAt, h.numWorkers, h.workerId, Bool.false_eq_true, if_false]

theorem step_endReplies (hloop : c.cfg.firehose = false) {completed : ℕ}
    (hpc : w.pc = .matching completed) :
    ((workers c.cfg N).alone i).step (w, m) .endReplies
      = some ({ w with pc := .expire }, { m with globalInFlight := m.globalInFlight - completed }) := by
  simp only [Threads.alone, workers, UnifiedWorker.step, hpc, UnifiedWorker.endReplies, hloop]
  rfl

/-- What the answers leave of the batch. -/
theorem roundTrip_of_matched {answers : List Answer} {stamps : List ℕ} {m₂ : Shared}
    (hspan : stamps.length ≤ idSpan c.numWorkers) (hlt : ∀ a ∈ answers, a.frame < stamps.length)
    (hgate : m₂.globalInFlight = m.globalInFlight + stamps.length)
    (hcompleted : m₂.stats.completed = m.stats.completed)
    (hhistogram : m₂.stats.histogram = m.stats.histogram)
    (hstored : ∀ j < stamps.length, m₂.slots (c.idAt (s.idCtr + j)) = max (stamps.getD j 0) 1)
    (hkept : ∀ id, (∀ j < stamps.length, id ≠ c.idAt (s.idCtr + j)) → m₂.slots id = m.slots id) :
    RoundTrip c s m
      { m₂ with
        slots := m₂.slots.clearAll ((answers.map (c.matched s)).map Matched.id)
        stats := recordAll m₂.stats ((answers.map (c.matched s)).map (Matched.sample m₂.slots))
        globalInFlight := m₂.globalInFlight - answers.length } stamps answers := by
  have hmem : ∀ id, id ∈ (answers.map (c.matched s)).map Matched.id ↔
      ∃ a ∈ answers, c.idAt (s.idCtr + a.frame) = id := by
    intro id
    rw [List.map_map, List.mem_map]
    rfl
  constructor
  case gate => exact congrArg (· - answers.length) hgate
  case completed => rw [recordAll_completed, hcompleted, List.length_map, List.length_map]
  case samples =>
    rw [recordAll_histogram, hhistogram, List.map_map, List.map_map]
    congr 2
    refine List.map_congr_left fun a ha => ?_
    simp only [Function.comp_apply, Matched.sample, matched, hstored a.frame (hlt a ha), Table.rtt]
  case answered =>
    intro a ha
    exact (SlotTable.clearAll_apply ..).trans (if_pos ((hmem _).mpr ⟨a, ha, rfl⟩))
  case waiting =>
    intro j hj hnot
    refine (SlotTable.clearAll_apply ..).trans ((if_neg fun h => ?_).trans (hstored j hj))
    obtain ⟨a, ha, heq⟩ := (hmem _).mp h
    exact hnot a ha (idAt_inj_of_lt hspan (hlt a ha) hj heq)
  case others =>
    intro id hid
    refine (SlotTable.clearAll_apply ..).trans ((if_neg fun h => ?_).trans (hkept id hid))
    obtain ⟨a, ha, heq⟩ := (hmem _).mp h
    exact hid a.frame (hlt a ha) heq.symm

/-- The worker's run over a batch whose frames the ring took. -/
theorem run_batch (h : AtTransmit c s i w headroom) {stamps : List ℕ} (hpos : 0 < stamps.length)
    (hle : stamps.length ≤ min headroom s.sock.txPool.length) {area : List UInt8} {answers : List Answer}
    (hserved : Served c s area stamps.length answers) (nowNs : ℕ) :
    ∃ w' m', ((workers c.cfg N).alone i).run (w, m)
        (batchActs s.sock.txPool.length nowNs stamps ((answers.map (c.matched s)).map Matched.act))
          = some (w', m') ∧
      RoundTrip c s m m' stamps answers := by
  have hspan : stamps.length ≤ idSpan c.numWorkers := hle.trans (h.numWorkers ▸ h.span)
  obtain ⟨hstored, hkept⟩ := storeAll_batch (c := c) (s := s) hspan m.slots stamps rfl
  -- the frames are sent and registered
  obtain ⟨w₁, htransmit, hpc₁⟩ := step_transmit (m := m) h hpos hle
  have hlen : stamps.length = ((List.range stamps.length).map fun j => c.idAt (s.idCtr + j)).length := by
    rw [List.length_map, List.length_range]
  have hinserts := run_inserts c.cfg i m hpc₁ hlen
  obtain ⟨w₂, m₂, hcounted, hpc₂, hslots₂, hgate₂, hcompleted₂, hhistogram₂⟩ :=
    run_counted i { w₁ with pc := .register [] stamps.length }
      { m with slots := m.slots.storeAll (((List.range stamps.length).map fun j =>
        c.idAt (s.idCtr + j)).zip (stamps.map (max · 1))) } h.closedLoop rfl nowNs
  have hstored₂ : ∀ j < stamps.length, m₂.slots (c.idAt (s.idCtr + j)) = max (stamps.getD j 0) 1 :=
    fun j hj => (congrFun hslots₂ _).trans (hstored j hj)
  -- so every answer finds its slot
  have hoccupied : ∀ r ∈ answers.map (c.matched s), m₂.slots r.id ≠ 0 := by
    rw [List.forall_mem_map]
    intro a ha
    exact (hstored₂ a.frame (hserved.frame_lt a ha)).trans_ne (Nat.ne_of_gt (Nat.le_max_right _ _))
  have hreplies := run_replies (i := i) h.closedLoop hpc₂ (hserved.nodup_ids hspan) hoccupied
  have hend := ((workers c.cfg N).alone i).run_single (step_endReplies (i := i)
    (w := { w₂ with
      pc := .matching (0 + (answers.map (c.matched s)).length)
      answered := w₂.answered + (answers.map (c.matched s)).length })
    (m := { m₂ with
      slots := m₂.slots.clearAll ((answers.map (c.matched s)).map Matched.id)
      stats := recordAll m₂.stats ((answers.map (c.matched s)).map (Matched.sample m₂.slots)) })
    h.closedLoop rfl)
  rw [Nat.zero_add, List.length_map] at hend hreplies
  refine ⟨_, _, Machine.run_trans _ (Machine.run_trans _ (Machine.run_trans _
    (Machine.run_trans _ (Machine.run_single _ htransmit) hinserts) hcounted) hreplies) hend, ?_⟩
  exact roundTrip_of_matched hspan hserved.frame_lt hgate₂ hcompleted₂ hhistogram₂ hstored₂
    fun id hid => (congrFun hslots₂ id).trans (hkept id hid)

/-- A batch that is answered completely leaves the table and the gate as it found them. -/
theorem RoundTrip.restored {m' : Shared} {stamps : List ℕ} {answers : List Answer} {area : List UInt8}
    (h : RoundTrip c s m m' stamps answers) (hserved : Served c s area stamps.length answers)
    (hall : answers.length = stamps.length)
    (hfree : ∀ j < stamps.length, m.slots (c.idAt (s.idCtr + j)) = 0) :
    m'.slots = m.slots ∧ m'.globalInFlight = m.globalInFlight := by
  -- as many different frames as there are: every frame
  have hframes : ∀ j < stamps.length, ∃ a ∈ answers, a.frame = j := by
    intro j hj
    have hsubset : answers.map Answer.frame ⊆ List.range stamps.length := by
      intro k hk
      obtain ⟨a, ha, rfl⟩ := List.mem_map.mp hk
      exact List.mem_range.mpr (hserved.frame_lt a ha)
    have hperm := (List.subperm_of_subset hserved.once hsubset).perm_of_length_le (by simp [hall])
    exact List.mem_map.mp (hperm.mem_iff.mpr (List.mem_range.mpr hj))
  refine ⟨funext fun id => ?_, by rw [h.gate, hall, Nat.add_sub_cancel]⟩
  by_cases hid : ∃ j < stamps.length, id = c.idAt (s.idCtr + j)
  · obtain ⟨j, hj, rfl⟩ := hid
    obtain ⟨a, ha, rfl⟩ := hframes j hj
    rw [h.answered a ha, hfree a.frame hj]
  · exact h.others id fun j hj heq => hid ⟨j, hj, heq⟩

/-- A batch comes back: a closed-loop worker that runs alone, over a link without a tag to port 53 and on a
queue with a socket, puts a batch no longer than its share of the ids on the ring.  The server sees the plain
query in every frame.  Whichever frames it answers and in whatever order the answers arrive, if they are all
there when the worker receives in the same iteration, each is redirected to the worker's socket and parsed; the worker matches it with
the slot of its own query, one completion and one latency sample each, and takes the matched ones off the
gate.  The other slots stay as they are, and if all frames are answered the table and the gate are as
before the batch. -/
theorem batch_round_trip (h : AtTransmit c s i w headroom) (m : Shared)
    (hvlan : c.endpoints.vlan = none) (hport : c.endpoints.dstPort = 53) {xsks : XskMap} {queue : ℕ}
    (hbound : xsks.bound queue = true) :
    ∃ s' enq inserted, c.txStep s headroom = .ok (s', enq, inserted) ∧
      (∀ j < enq, (wire s'.area (c.desc s j)).drop c.hdr.outer = c.query s j) ∧
      ∀ (stamps : List ℕ) (answers : List Answer) (nowNs : ℕ), 0 < enq → stamps.length = enq →
        Served c s s'.area enq answers →
        (∀ a ∈ answers, dnsXdpClient xsks queue (c.replyFrame s s'.area a) = .redirect queue) ∧
        ∃ acts w' m',
          replyActs (answers.map fun a => (c.replyFrame s s'.area a, a.nowNs)) = .ok acts ∧
          ((workers c.cfg N).alone i).run (w, m) (batchActs s.sock.txPool.length nowNs stamps acts)
            = some (w', m') ∧
          RoundTrip c s m m' stamps answers ∧
          (answers.length = enq → (∀ j < enq, m.slots (c.idAt (s.idCtr + j)) = 0) →
            m'.slots = m.slots ∧ m'.globalInFlight = m.globalInFlight) := by
  obtain ⟨b, hfilled, hstep⟩ := txStep_eq h.ready h.closedLoop headroom
  have hpool := Nat.min_le_right headroom s.sock.txPool.length
  have hle : (produceTx b.sock.tx b.descs).2 ≤ min headroom s.sock.txPool.length := by
    rw [← hfilled.length_descs]
    exact Nat.min_le_left _ _
  refine ⟨_, _, _, hstep, fun j hj => message_eq h.ready hfilled (hj.trans_le hle) hpool, ?_⟩
  intro stamps answers nowNs hpos hlen hserved
  refine ⟨fun a ha => redirect_replyFrame h.ready hfilled ((hserved.frame_lt a ha).trans_le hle) hpool
    hvlan hport hbound, ?_⟩
  have hacts := replyActs_eq h.ready hfilled hpool (fun a ha => (hserved.frame_lt a ha).trans_le hle)
    hserved.answers
  rw [← hlen] at hpos hle hserved ⊢
  obtain ⟨w', m', hrun, htrip⟩ := run_batch (m := m) h hpos hle hserved nowNs
  exact ⟨_, w', m', hacts, hrun, htrip, htrip.restored hserved⟩

end Matching

/-! ## One frame to a server -/

/-- The second worker of two, over a plain link. -/
def plainWorker : TxSetup := { secondWorker with endpoints := link 53 none }

theorem ready_plainWorker : plainWorker.Ready twoFrames where
  fits := by decide
  nodup := ready_twoFrames.nodup
  frames := ready_twoFrames.frames
  ring := ready_twoFrames.ring

/-- The worker in front of the batch. -/
def atBatch : UnifiedWorker := { UnifiedWorker.new with pc := .transmit 64, idCtr := 32767 }

theorem atTransmit_atBatch : AtTransmit plainWorker twoFrames (1 : Fin 2) atBatch 64 where
  ready := ready_plainWorker
  closedLoop := rfl
  numWorkers := rfl
  workerId := rfl
  idCtr := rfl
  pc := rfl
  span := by decide

/-- The server's answer, 250 µs after the insert. -/
def oneAnswer : Answer := ⟨0, plainReply, replyTo 65535, 0, 1250000⟩

theorem answers_oneAnswer : Answers (plainWorker.query twoFrames 0) oneAnswer where
  header := by decide
  echo := by decide
  qr := by decide
  rcode := by decide

/-- The ring takes one frame of two. -/
theorem enq_plainWorker {s' : TxState} {enq : ℕ} {inserted : List QueryId}
    (h : plainWorker.txStep twoFrames 64 = .ok (s', enq, inserted)) : enq = 1 := by
  obtain ⟨b, hfilled, hstep⟩ := txStep_eq ready_plainWorker rfl 64
  obtain ⟨-, hrest⟩ := Prod.mk.inj (Except.ok.inj (h.symm.trans hstep))
  rw [(Prod.mk.inj hrest).1, hfilled.tx_eq, produceTx, IndexRing.produce_snd _ ready_plainWorker.ring,
    hfilled.length_descs]
  decide

/-- The frame on the ring is answered: one sample of 250 µs, and the table is empty again. -/
theorem batch_round_trip_oneAnswer :
    ∃ acts w' m', ((workers plainWorker.cfg 2).alone 1).run (atBatch, .new)
        (batchActs 2 1000000 [1000000] acts) = some (w', m') ∧
      m'.stats.histogram = [250] ∧ m'.slots = .empty ∧ m'.globalInFlight = 0 := by
  obtain ⟨s', enq, inserted, hstep, hmessage, h⟩ :=
    batch_round_trip atTransmit_atBatch .new rfl rfl (show oneQueue.bound 0 = true from rfl)
  obtain rfl := enq_plainWorker hstep
  have hserved : Served plainWorker twoFrames s'.area 1 [oneAnswer] := by
    refine ⟨by decide, by decide, List.forall_mem_singleton.mpr ?_⟩
    rw [show oneAnswer.frame = 0 from rfl, hmessage 0 Nat.one_pos]
    exact answers_oneAnswer
  obtain ⟨-, acts, w', m', -, hrun, htrip, hrestored⟩ :=
    h [1000000] [oneAnswer] 1000000 Nat.one_pos rfl hserved
  exact ⟨acts, w', m', hrun, htrip.samples, hrestored rfl fun j _ => rfl⟩

end TxSetup

end Dnsmark.Xdp
