import Dnsmark.Transport.QueryBuffers
import Dnsmark.Xdp.Frames
import Dnsmark.Xdp.IdRanges

/-!
# The bytes of a TX batch

The TX step of `xdp_unified_worker` down to the bytes: frames are popped from the pool, stamped in place
in the UMEM area, described to the TX ring, and their ids inserted into the in-flight table.  `Frames` has
the rings of this step and `UnifiedWorker` its ids, each with the rest left free; here the three vectors of
the code (descriptors, ids, popped addresses) and the shared area are one state, so that "frame `j`" means
the same in all of them.

The loop is described by `Filled`: after `n` iterations, frame `j < n` holds the query of id `j`, and the
frames that are still in the pool hold what they held.  That rests on one fact about the area, that frames
at different addresses do not overlap.
-/

namespace Dnsmark.Xdp

/-- `SPORT_BASE`. -/
def sportBase : ℕ := 10000

/-- `SPORT_SPREAD`. -/
def sportSpread : ℕ := 2048

/-- The source port of the frame number `sportCtr`. -/
def sportAt (sportCtr : ℕ) : UInt16 := UInt16.ofNat (sportBase + sportCtr % sportSpread)

/-- A query id as it is written. -/
def wireId (id : QueryId) : UInt16 := UInt16.ofNat id.val

/-- What a worker sends with: its place among the workers, the query list and the frame header. -/
structure TxSetup where
  cfg : Config
  numWorkers : ℕ
  workerId : ℕ
  entries : List (String × UInt16)
  entries_ne_nil : entries ≠ []
  endpoints : Endpoints

/-- What the TX step changes. -/
structure TxState where
  sock : XskSocket
  /-- The UMEM area. -/
  area : List UInt8
  idCtr : ℕ
  tmplIdx : ℕ
  sportCtr : ℕ

/-- The TX step in the middle of a batch. -/
structure TxLoop extends TxState where
  descs : List XdpDesc
  idsToRegister : List QueryId

/-- `from_raw_parts_mut(area.add(addr), FRAME_SIZE)`. -/
def frameAt (area : List UInt8) (addr : UInt64) : List UInt8 := Slice.window area addr.toNat frameSize

/-- The loop behind the frame at `addr`: its bytes are `buf`, `total` of them count. -/
def TxLoop.push (b : TxLoop) (addr : UInt64) (buf : List UInt8) (total : ℕ) (id : QueryId) : TxLoop where
  sock := { b.sock with txPool := b.sock.txPool.dropLast }
  area := Slice.overwrite b.area addr.toNat buf
  idCtr := b.idCtr + 1
  tmplIdx := b.tmplIdx + 1
  sportCtr := b.sportCtr + 1
  descs := b.descs ++ [⟨addr, UInt32.ofNat total, 0⟩]
  idsToRegister := b.idsToRegister ++ [id]

namespace TxSetup

variable (c : TxSetup)

/-- `wire_pool`. -/
def wirePool : WireQueryPool :=
  ⟨c.entries.map fun (name, qtype) => buildWireTemplate name qtype,
    WireQueryPool.map_template_ne_nil c.entries_ne_nil⟩

/-- `hdr`. -/
def hdr : FrameHeader := .newWithVlan c.endpoints

/-- The id of the worker's frame number `idCtr`. -/
def idAt (idCtr : ℕ) : QueryId := Xdp.idAt c.numWorkers c.workerId idCtr

/-- One iteration of the loop over the free frames. -/
def fillFrame (b : TxLoop) : Except OutOfBounds TxLoop :=
  match b.sock.txPool.getLast? with
  | none => return b
  | some addr => do
    let id := c.idAt b.idCtr
    let (buf, total) ← stampFrame c.wirePool c.hdr b.tmplIdx (wireId id) (some (sportAt b.sportCtr))
      (frameAt b.area addr)
    return b.push addr buf total id

/-- `for _ in 0..take`. -/
def fill : ℕ → TxLoop → Except OutOfBounds TxLoop
  | 0, b => return b
  | take + 1, b => do c.fillFrame (← fill take b)

/-- The whole step: what it leaves, how many descriptors the ring took, and the ids that are inserted into
the in-flight table, in that order. -/
def txStep (s : TxState) (headroom : ℕ) : Except OutOfBounds (TxState × ℕ × List QueryId) := do
  if 0 < headroom then
    let b ← c.fill (min headroom s.sock.txPool.length) ⟨s, [], []⟩
    if b.descs.isEmpty then return (b.toTxState, 0, [])
    let (tx, enq) := produceTx b.sock.tx b.descs
    let txPool :=
      if enq < b.descs.length then b.sock.txPool ++ (b.descs.drop enq).map XdpDesc.addr
      else b.sock.txPool
    let inserted := if 0 < enq then c.cfg.registered (b.idsToRegister.take enq) else []
    return ({ b.toTxState with sock := { b.sock with tx := tx, txPool := txPool } }, enq, inserted)
  else return (s, 0, [])

end TxSetup

/-! ## One frame -/

/-- `frame'` is `frame` with `write_frame` of `dns` and then the source port `port` in it. -/
def StampedWith (hdr : FrameHeader) (frame dns : List UInt8) (port : UInt16) (frame' : List UInt8) : Prop :=
  ∃ written, hdr.writeFrame frame dns = .ok (written, hdr.outer + dns.length) ∧
    hdr.setSrcPort written port = .ok frame'

/-- A template is as long as its query. -/
theorem length_template_eq_query (id : UInt16) (name : String) (qtype : UInt16) :
    (buildWireTemplate name qtype).length = (buildQuery id name qtype).length := by
  obtain ⟨question, htmpl, hquery⟩ := WireQueryPool.buildWireTemplate_eq id name qtype
  rw [htmpl, hquery]
  rfl

section

variable (pool : WireQueryPool) (e : Endpoints) (tmplIdx : ℕ) (id port : UInt16) {frame : List UInt8}
  {name : String} {qtype : UInt16}
  (htemplate : pool.templates[tmplIdx % pool.templates.length]? = some (buildWireTemplate name qtype))
  (hfit : (FrameHeader.newWithVlan e).outer + (buildQuery id name qtype).length ≤ frame.length)

include htemplate hfit

/-- The frame write of the loop: header, query, and what was behind them. -/
theorem stampFrame_eq :
    stampFrame pool (.newWithVlan e) tmplIdx id (some port) frame
      = .ok (e.wireHeader (FrameHeader.ipTot (buildQuery id name qtype).length)
            ((FrameHeader.newWithVlan e).cksum (buildQuery id name qtype).length) port
            (FrameHeader.udpLen (buildQuery id name qtype).length) ++ (buildQuery id name qtype ++
              frame.drop ((FrameHeader.newWithVlan e).outer + (buildQuery id name qtype).length)),
          (FrameHeader.newWithVlan e).outer + (buildQuery id name qtype).length) := by
  have hroom : (buildWireTemplate name qtype).length
      ≤ (frame.drop (FrameHeader.newWithVlan e).outer).length := by
    rw [length_template_eq_query id, List.length_drop]
    omega
  have htake : (frame.take (FrameHeader.newWithVlan e).outer).length
      = (FrameHeader.newWithVlan e).outer := List.length_take_of_le (by omega)
  have hout : (FrameHeader.newWithVlan e).outer ≤ (frame.take (FrameHeader.newWithVlan e).outer ++
      (buildQuery id name qtype ++ (frame.drop (FrameHeader.newWithVlan e).outer).drop
        (buildQuery id name qtype).length)).length := by
    rw [List.length_append, htake]
    omega
  unfold stampFrame
  rw [Slice.suffix_eq_ok (by omega)]
  simp only [pool.patch_template tmplIdx id name qtype htemplate hroom,
    FrameHeader.writeHeader_eq e hout, bind, Except.bind]
  rw [List.drop_left' htake, FrameHeader.setSrcPort_eq, List.drop_drop]
  rfl

/-- It is `write_frame` of the query, with the source port replaced. -/
theorem stampFrame_stampedWith :
    ∃ frame', stampFrame pool (.newWithVlan e) tmplIdx id (some port) frame
        = .ok (frame', (FrameHeader.newWithVlan e).outer + (buildQuery id name qtype).length) ∧
      StampedWith (.newWithVlan e) frame (buildQuery id name qtype) port frame' ∧
      frame'.length = frame.length := by
  refine ⟨_, stampFrame_eq pool e tmplIdx id port htemplate hfit,
    ⟨_, FrameHeader.writeFrame_eq e hfit, ?_⟩, ?_⟩
  · rw [List.append_assoc, FrameHeader.setSrcPort_eq]
  · rw [List.length_append, FrameHeader.length_wireHeader, List.length_append, List.length_drop]
    omega

end

/-! ## The batch -/

namespace TxSetup

variable (c : TxSetup) (s : TxState)

/-- The `j`-th address that a batch pops. -/
def popped (j : ℕ) : UInt64 := s.sock.txPool.getD (s.sock.txPool.length - 1 - j) 0

/-- The query of the `j`-th frame. -/
def query (j : ℕ) : List UInt8 :=
  let (name, qtype) := WireQueryPool.selected c.entries c.entries_ne_nil (s.tmplIdx + j)
  buildQuery (wireId (c.idAt (s.idCtr + j))) name qtype

/-- The descriptor of the `j`-th frame. -/
def desc (j : ℕ) : XdpDesc := ⟨popped s j, UInt32.ofNat (c.hdr.outer + (c.query s j).length), 0⟩

/-- `addr` is the start of a frame of the area. -/
def IsFrame (area : List UInt8) (addr : UInt64) : Prop :=
  frameSize ∣ addr.toNat ∧ addr.toNat + frameSize ≤ area.length

/-- What a TX step starts from. -/
structure Ready : Prop where
  /-- Every template fits a frame. -/
  fits : ∀ entry ∈ c.entries, c.hdr.outer + (buildWireTemplate entry.1 entry.2).length ≤ frameSize
  /-- The pool has distinct frame addresses. -/
  nodup : s.sock.txPool.Nodup
  frames : ∀ addr ∈ s.sock.txPool, IsFrame s.area addr
  /-- The TX ring has any fill level. -/
  ring : s.sock.tx.Bounded

/-- After `n` iterations. -/
structure Filled (b : TxLoop) (n : ℕ) : Prop where
  sock : b.sock = { s.sock with txPool := s.sock.txPool.take (s.sock.txPool.length - n) }
  idCtr : b.idCtr = s.idCtr + n
  tmplIdx : b.tmplIdx = s.tmplIdx + n
  sportCtr : b.sportCtr = s.sportCtr + n
  descs : b.descs = (List.range n).map (c.desc s)
  ids : b.idsToRegister = (List.range n).map fun j => c.idAt (s.idCtr + j)
  length_area : b.area.length = s.area.length
  written : ∀ j < n, StampedWith c.hdr (frameAt s.area (popped s j)) (c.query s j)
    (sportAt (s.sportCtr + j)) (frameAt b.area (popped s j))
  kept : ∀ addr, IsFrame s.area addr → (∀ j < n, popped s j ≠ addr) →
    frameAt b.area addr = frameAt s.area addr

/-- A write to one frame is not seen in another. -/
theorem frameAt_overwrite_of_ne {area buf : List UInt8} {addr addr' : UInt64} (h : IsFrame area addr)
    (h' : IsFrame area addr') (hne : addr ≠ addr') (hbuf : buf.length = frameSize) :
    frameAt (Slice.overwrite area addr.toNat buf) addr' = frameAt area addr' := by
  obtain ⟨⟨k, hk⟩, hend⟩ := h
  obtain ⟨⟨k', hk'⟩, -⟩ := h'
  unfold frameAt
  have hkne : k ≠ k' := by
    rintro rfl
    exact hne (UInt64.toNat_inj.mp (hk.trans hk'.symm))
  rcases Nat.lt_or_gt_of_ne hkne with hlt | hgt
  · have hstep : frameSize * (k + 1) ≤ frameSize * k' := Nat.mul_le_mul_left _ hlt
    exact Slice.window_overwrite_behind (by rw [Nat.mul_succ] at hstep; omega) (by omega)
  · have hstep : frameSize * (k' + 1) ≤ frameSize * k := Nat.mul_le_mul_left _ hgt
    exact Slice.window_overwrite_before (by rw [Nat.mul_succ] at hstep; omega) (by omega)

/-- What is written to a frame is read back. -/
theorem frameAt_overwrite_self {area buf : List UInt8} {addr : UInt64} (h : IsFrame area addr)
    (hbuf : buf.length = frameSize) :
    frameAt (Slice.overwrite area addr.toNat buf) addr = buf := by
  unfold frameAt
  rw [← hbuf]
  exact Slice.window_overwrite_self (hbuf.symm ▸ h.2)

/-- Whether an address is a frame depends on the size of the area only. -/
theorem IsFrame.of_length {area area' : List UInt8} {addr : UInt64} (h : IsFrame area addr)
    (hlen : area'.length = area.length) : IsFrame area' addr :=
  ⟨h.1, hlen.symm ▸ h.2⟩

variable {c s}

theorem getElem?_popped {j : ℕ} (h : j < s.sock.txPool.length) :
    s.sock.txPool[s.sock.txPool.length - 1 - j]? = some (popped s j) := by
  have hlt : s.sock.txPool.length - 1 - j < s.sock.txPool.length := by omega
  rw [popped, List.getD_eq_getElem _ _ hlt, List.getElem?_eq_getElem hlt]

theorem popped_mem {j : ℕ} (h : j < s.sock.txPool.length) : popped s j ∈ s.sock.txPool :=
  List.mem_of_getElem? (getElem?_popped h)

/-- Distinct frames are popped. -/
theorem Ready.popped_ne (h : Ready c s) {j k : ℕ} (hj : j < k) (hk : k < s.sock.txPool.length) :
    popped s j ≠ popped s k := by
  intro heq
  have hidx := (List.getElem?_inj (by omega) h.nodup).mp
    ((getElem?_popped (hj.trans hk)).trans ((congrArg some heq).trans (getElem?_popped hk).symm))
  omega

/-- The last address of the pool is the next one to be popped. -/
theorem getLast?_take_pool {n : ℕ} (h : n < s.sock.txPool.length) :
    (s.sock.txPool.take (s.sock.txPool.length - n)).getLast? = some (popped s n) := by
  have hpopped := getElem?_popped h
  rw [List.getLast?_take, if_neg (by omega),
    show s.sock.txPool.length - n - 1 = s.sock.txPool.length - 1 - n by omega, hpopped]
  rfl

/-- Popping once more. -/
theorem dropLast_take_pool (pool : List UInt64) (n : ℕ) :
    (pool.take (pool.length - n)).dropLast = pool.take (pool.length - (n + 1)) := by
  rw [List.dropLast_eq_take, List.length_take, List.take_take]
  congr 1
  omega

theorem Filled.start : Filled c s ⟨s, [], []⟩ 0 where
  sock := by rw [Nat.sub_zero, List.take_length]
  idCtr := rfl
  tmplIdx := rfl
  sportCtr := rfl
  descs := rfl
  ids := rfl
  length_area := rfl
  written _ hj := absurd hj (Nat.not_lt_zero _)
  kept _ _ _ := rfl

/-- The selected template fits a frame. -/
theorem Ready.query_fits (h : Ready c s) (j : ℕ) : c.hdr.outer + (c.query s j).length ≤ frameSize := by
  have hmem : WireQueryPool.selected c.entries c.entries_ne_nil (s.tmplIdx + j) ∈ c.entries :=
    List.get_mem ..
  have hfits := h.fits _ hmem
  rw [length_template_eq_query (wireId (c.idAt (s.idCtr + j)))] at hfits
  exact hfits

/-- The `n`-th frame is written behind the ones before it. -/
theorem Filled.push (hready : Ready c s) {b : TxLoop} {n : ℕ} (h : Filled c s b n)
    (hn : n < s.sock.txPool.length) {buf : List UInt8} (hbuf : buf.length = frameSize)
    (hwith : StampedWith c.hdr (frameAt s.area (popped s n)) (c.query s n) (sportAt (s.sportCtr + n))
      buf) :
    Filled c s (b.push (popped s n) buf (c.hdr.outer + (c.query s n).length) (c.idAt (s.idCtr + n)))
      (n + 1) := by
  have hframe := (hready.frames _ (popped_mem hn)).of_length h.length_area
  have hother (addr : UInt64) (haddr : IsFrame s.area addr) (hne : popped s n ≠ addr) :
      frameAt (Slice.overwrite b.area (popped s n).toNat buf) addr = frameAt b.area addr :=
    frameAt_overwrite_of_ne hframe (haddr.of_length h.length_area) hne hbuf
  constructor
  case sock => simp only [TxLoop.push, h.sock, dropLast_take_pool]
  case idCtr => exact congrArg (· + 1) h.idCtr
  case tmplIdx => exact congrArg (· + 1) h.tmplIdx
  case sportCtr => exact congrArg (· + 1) h.sportCtr
  case descs =>
    simp only [TxLoop.push, h.descs, List.range_succ, List.map_append]
    rfl
  case ids =>
    simp only [TxLoop.push, h.ids, List.range_succ, List.map_append]
    rfl
  case length_area => exact (Slice.length_overwrite (hbuf.symm ▸ hframe.2)).trans h.length_area
  case written =>
    intro j hj
    change StampedWith c.hdr _ _ _
      (frameAt (Slice.overwrite b.area (popped s n).toNat buf) (popped s j))
    -- an earlier frame is not touched by this write, the new one is what was written
    rcases Nat.lt_succ_iff_lt_or_eq.mp hj with hlt | rfl
    · have hne := (hready.popped_ne hlt hn).symm
      rw [hother (popped s j) (hready.frames _ (popped_mem (hlt.trans hn))) hne]
      exact h.written j hlt
    · rw [frameAt_overwrite_self hframe hbuf]
      exact hwith
  case kept =>
    intro addr haddr hne
    exact (hother addr haddr (hne n (Nat.lt_succ_self n))).trans
      (h.kept addr haddr fun j hj => hne j (Nat.lt_succ_of_lt hj))

/-- One iteration stamps the next frame of the pool and leaves the others alone. -/
theorem Filled.step (hready : Ready c s) {b : TxLoop} {n : ℕ} (h : Filled c s b n)
    (hn : n < s.sock.txPool.length) : ∃ b', c.fillFrame b = .ok b' ∧ Filled c s b' (n + 1) := by
  have hframe := hready.frames _ (popped_mem hn)
  have hkept := h.kept _ hframe fun j hj => hready.popped_ne hj hn
  have hlen : (frameAt s.area (popped s n)).length = frameSize := Slice.length_window hframe.2
  obtain ⟨buf, hstamp, hwith, hbuf⟩ := stampFrame_stampedWith c.wirePool c.endpoints (s.tmplIdx + n)
    (wireId (c.idAt (s.idCtr + n))) (sportAt (s.sportCtr + n))
    (WireQueryPool.getElem?_templates c.entries c.entries_ne_nil (s.tmplIdx + n))
    ((hready.query_fits n).trans_eq hlen.symm)
  have hlast : b.sock.txPool.getLast? = some (popped s n) := by
    rw [h.sock]
    exact getLast?_take_pool hn
  refine ⟨_, ?_, h.push hready hn (hbuf.trans hlen) hwith⟩
  unfold fillFrame
  rw [hlast]
  simp only [h.tmplIdx, h.idCtr, h.sportCtr, hkept, hdr, hstamp, bind, Except.bind]
  rfl

/-- A batch of `n` frames. -/
theorem Filled.run (hready : Ready c s) {n : ℕ} (hn : n ≤ s.sock.txPool.length) :
    ∃ b, c.fill n ⟨s, [], []⟩ = .ok b ∧ Filled c s b n := by
  induction n with
  | zero => exact ⟨_, rfl, Filled.start⟩
  | succ n ih =>
    obtain ⟨b, hfill, hfilled⟩ := ih (Nat.le_of_succ_le hn)
    obtain ⟨b', hframe, hfilled'⟩ := hfilled.step hready hn
    refine ⟨b', ?_, hfilled'⟩
    simp only [fill, hfill, bind, Except.bind, hframe]

/-- The popped addresses are the end of the pool, backwards. -/
theorem map_popped {n : ℕ} (h : n ≤ s.sock.txPool.length) :
    (List.range n).map (popped s) = (s.sock.txPool.drop (s.sock.txPool.length - n)).reverse := by
  apply List.ext_getElem?
  intro j
  by_cases hj : j < n
  · have hindex : s.sock.txPool.length - n
        + (s.sock.txPool.length - (s.sock.txPool.length - n) - 1 - j)
        = s.sock.txPool.length - 1 - j := by omega
    rw [List.getElem?_map, List.getElem?_range hj,
      List.getElem?_reverse (by rw [List.length_drop]; omega), List.getElem?_drop, List.length_drop,
      hindex, getElem?_popped (hj.trans_le h)]
    rfl
  · rw [List.getElem?_eq_none (by simpa using hj), List.getElem?_eq_none]
    rw [List.length_reverse, List.length_drop]
    omega

/-- What a TX step that enqueued `enq` descriptors has done. -/
structure Aligned (c : TxSetup) (s : TxState) (headroom : ℕ) (s' : TxState) (enq : ℕ)
    (inserted : List QueryId) : Prop where
  /-- As many frames as the gate, the pool and the ring allow. -/
  enq_eq : enq = min (min headroom s.sock.txPool.length) (s.sock.tx.size.toNat - s.sock.tx.occupancy)
  /-- The new entries of the ring. -/
  visible : s'.sock.tx.pending = s.sock.tx.pending ++ (List.range enq).map (c.desc s)
  len : ∀ j < enq, (c.desc s j).len.toNat = c.hdr.outer + (c.query s j).length
  /-- Each points to its query. -/
  frame : ∀ j < enq, StampedWith c.hdr (frameAt s.area (c.desc s j).addr) (c.query s j)
    (sportAt (s.sportCtr + j)) (frameAt s'.area (c.desc s j).addr)
  inserted_eq : inserted = (List.range enq).map fun j => c.idAt (s.idCtr + j)
  /-- A refused descriptor's id is none of those.  The worker's ids repeat after `idSpan` frames, so this
  is said of a batch within that; one of `TX_BATCH` frames is, up to 1024 workers. -/
  refused : ∀ j, enq ≤ j → j < min headroom s.sock.txPool.length →
    min headroom s.sock.txPool.length ≤ idSpan c.numWorkers → c.idAt (s.idCtr + j) ∉ inserted
  /-- The pool has lost the enqueued addresses, and only those. -/
  pool : ((List.range enq).map (fun j => (c.desc s j).addr) ++ s'.sock.txPool).Perm s.sock.txPool
  mem_pool : ∀ addr, addr ∈ s'.sock.txPool ↔
    addr ∈ s.sock.txPool ∧ ∀ j < enq, addr ≠ (c.desc s j).addr

/-- The frames of the batch and what is left of the pool are the old pool. -/
theorem perm_pool {n : ℕ} (h : n ≤ s.sock.txPool.length) :
    ((List.range n).map (popped s) ++ s.sock.txPool.take (s.sock.txPool.length - n)).Perm
      s.sock.txPool := by
  rw [map_popped h]
  refine ((List.reverse_perm _).append_right _).trans (List.perm_append_comm.trans ?_)
  rw [List.take_append_drop]

/-- The step behind the loop, without the tests that skip what would do nothing. -/
def submitted (b : TxLoop) : TxState :=
  { b.toTxState with
    sock := { b.sock with
      tx := (produceTx b.sock.tx b.descs).1
      txPool := b.sock.txPool ++ (b.descs.drop (produceTx b.sock.tx b.descs).2).map XdpDesc.addr } }

theorem produceTx_nil (ring : DescRing) : produceTx ring [] = (ring, 0) := by
  simp [produceTx, IndexRing.produce, IndexRing.writeFrom]

/-- With nothing to submit, nothing is submitted. -/
theorem submitted_of_isEmpty {b : TxLoop} (h : b.descs = []) : submitted b = b.toTxState := by
  unfold submitted
  rw [h, produceTx_nil]
  simp

/-- The test in front of the loop that returns refused frames skips an empty loop. -/
theorem ite_refused (pool : List UInt64) (descs : List XdpDesc) (enq : ℕ) :
    (if enq < descs.length then pool ++ (descs.drop enq).map XdpDesc.addr else pool)
      = pool ++ (descs.drop enq).map XdpDesc.addr := by
  by_cases hsome : enq < descs.length
  · exact if_pos hsome
  · rw [if_neg hsome, List.drop_eq_nil_of_le (not_lt.mp hsome), List.map_nil, List.append_nil]

/-- So does the one in front of the inserts, and in closed loop every id is inserted. -/
theorem ite_inserted {cfg : Config} (hloop : cfg.firehose = false) (ids : List QueryId) (enq : ℕ) :
    (if 0 < enq then cfg.registered (ids.take enq) else []) = ids.take enq := by
  by_cases hsome : 0 < enq
  · rw [if_pos hsome, Config.registered, hloop]
    rfl
  · rw [if_neg hsome, Nat.eq_zero_of_not_pos hsome, List.take_zero]

/-- In closed loop the step is the loop and the submission of what it filled. -/
theorem txStep_eq (hready : Ready c s) (hloop : c.cfg.firehose = false) (headroom : ℕ) :
    ∃ b, Filled c s b (min headroom s.sock.txPool.length) ∧
      c.txStep s headroom = .ok (submitted b, (produceTx b.sock.tx b.descs).2,
        b.idsToRegister.take (produceTx b.sock.tx b.descs).2) := by
  by_cases hpos : 0 < headroom
  · obtain ⟨b, hfill, hfilled⟩ := Filled.run hready (Nat.min_le_right headroom _)
    refine ⟨b, hfilled, ?_⟩
    unfold txStep
    rw [if_pos hpos, hfill]
    simp only [bind, Except.bind, ite_refused, ite_inserted hloop]
    by_cases hempty : b.descs = []
    · rw [if_pos (List.isEmpty_iff.mpr hempty), submitted_of_isEmpty hempty, hempty, produceTx_nil]
      rfl
    · rw [if_neg (mt List.isEmpty_iff.mp hempty)]
      rfl
  · obtain rfl : headroom = 0 := by omega
    refine ⟨⟨s, [], []⟩, by rw [Nat.zero_min]; exact Filled.start, ?_⟩
    rw [submitted_of_isEmpty rfl]
    rfl

/-- A descriptor's length is the length of its frame. -/
theorem Ready.len_desc (h : Ready c s) (j : ℕ) :
    (c.desc s j).len.toNat = c.hdr.outer + (c.query s j).length := by
  have hfits := h.query_fits j
  rw [frameSize] at hfits
  exact UInt32.toNat_ofNat_of_lt' (by rw [UInt32.size]; omega)

theorem Filled.length_descs {b : TxLoop} {n : ℕ} (h : Filled c s b n) : b.descs.length = n := by
  rw [h.descs, List.length_map, List.length_range]

theorem Filled.tx_eq {b : TxLoop} {n : ℕ} (h : Filled c s b n) : b.sock.tx = s.sock.tx := by
  rw [h.sock]

/-- The first elements of a vector that is filled in order. -/
theorem take_map_range {α : Type*} (f : ℕ → α) {n enq : ℕ} (h : enq ≤ n) :
    ((List.range n).map f).take enq = (List.range enq).map f := by
  rw [← List.map_take, List.take_range, min_eq_left h]

theorem Filled.take_descs {b : TxLoop} {n enq : ℕ} (h : Filled c s b n) (henq : enq ≤ n) :
    b.descs.take enq = (List.range enq).map (c.desc s) := by
  rw [h.descs, take_map_range _ henq]

/-- The refused frames return to the pool. -/
theorem Filled.perm_pool {b : TxLoop} {n : ℕ} (h : Filled c s b n) (hn : n ≤ s.sock.txPool.length)
    {enq : ℕ} (henq : enq ≤ n) :
    ((List.range enq).map (popped s) ++ (b.sock.txPool ++ (b.descs.drop enq).map XdpDesc.addr)).Perm
      s.sock.txPool := by
  have hrest : (b.descs.drop enq).map XdpDesc.addr = ((List.range n).map (popped s)).drop enq := by
    rw [h.descs, List.map_drop, List.map_map]
    rfl
  rw [hrest]
  refine (List.perm_append_comm.append_left _).trans ?_
  rw [← List.append_assoc, ← take_map_range _ henq, List.take_append_drop, h.sock]
  exact TxSetup.perm_pool hn

/-- What is left of a list without repetitions. -/
theorem mem_right_iff_of_perm {α : Type*} {xs ys zs : List α} (h : (xs ++ ys).Perm zs)
    (hnodup : zs.Nodup) (a : α) : a ∈ ys ↔ a ∈ zs ∧ a ∉ xs := by
  have hdisjoint := (List.nodup_append.mp (h.nodup_iff.mpr hnodup)).2.2
  rw [← h.mem_iff, List.mem_append]
  constructor
  · intro hys
    exact ⟨.inr hys, fun hxs => hdisjoint a hxs a hys rfl⟩
  · rintro ⟨hxs | hys, hnot⟩
    · exact absurd hxs hnot
    · exact hys

/-- Three vectors and the UMEM stay aligned: for every pool of distinct frames, every fill level of the TX
ring, headroom, counters, query list whose templates fit a frame and frame header, the TX step in closed
loop returns, and whatever part of the batch the ring takes, descriptor `j` shows the frame with the query
of id `j`, exactly the ids of the enqueued frames are inserted, in order, and exactly their addresses have
left the pool. -/
theorem tx_batch_aligned (c : TxSetup) (s : TxState) (hready : c.Ready s)
    (hloop : c.cfg.firehose = false) (headroom : ℕ) :
    ∃ s' enq inserted, c.txStep s headroom = .ok (s', enq, inserted) ∧
      Aligned c s headroom s' enq inserted := by
  obtain ⟨b, hfilled, hstep⟩ := txStep_eq hready hloop headroom
  have hmin := Nat.min_le_right headroom s.sock.txPool.length
  have henq : (produceTx b.sock.tx b.descs).2
      = min (min headroom s.sock.txPool.length) (s.sock.tx.size.toNat - s.sock.tx.occupancy) := by
    rw [hfilled.tx_eq, produceTx, IndexRing.produce_snd _ hready.ring, hfilled.length_descs]
  have hle : (produceTx b.sock.tx b.descs).2 ≤ min headroom s.sock.txPool.length :=
    henq.trans_le (Nat.min_le_left _ _)
  have hinserted : b.idsToRegister.take (produceTx b.sock.tx b.descs).2
      = (List.range (produceTx b.sock.tx b.descs).2).map fun j => c.idAt (s.idCtr + j) := by
    rw [hfilled.ids, take_map_range _ hle]
  have hperm := hfilled.perm_pool hmin hle
  refine ⟨_, _, _, hstep, ?_⟩
  constructor
  case enq_eq => exact henq
  case visible =>
    have hbounded : b.sock.tx.Bounded := hfilled.tx_eq.symm ▸ hready.ring
    refine (IndexRing.produce_spec false hbounded b.descs).1.trans ?_
    exact congrArg₂ (· ++ ·) (congrArg IndexRing.pending hfilled.tx_eq) (hfilled.take_descs hle)
  case len => exact fun j _ => hready.len_desc j
  case frame => exact fun j hj => hfilled.written j (hj.trans_le hle)
  case inserted_eq => exact hinserted
  case refused =>
    intro j hj hlt hspan hmem
    rw [hinserted] at hmem
    obtain ⟨k, hk, heq⟩ := List.mem_map.mp hmem
    have hkj : k < j := (List.mem_range.mp hk).trans_le hj
    -- the same id twice would be a whole range apart
    have hagain : s.idCtr + j = s.idCtr + k + (j - k) := by omega
    rw [hagain] at heq
    exact idAt_add_ne c.numWorkers c.workerId (s.idCtr + k) (by omega) (by omega) heq.symm
  case pool => exact hperm
  case mem_pool =>
    intro addr
    refine (mem_right_iff_of_perm hperm hready.nodup addr).trans (and_congr_right fun _ => ?_)
    simp only [List.mem_map, List.mem_range, not_exists, not_and]
    exact ⟨fun h j hj heq => h j hj heq.symm, fun h j hj heq => h j hj heq.symm⟩

theorem one_isPow : ∃ k < 32, (1#32).toNat = 2 ^ k := ⟨0, by decide, rfl⟩

/-- The second worker of two, in closed loop. -/
def secondWorker : TxSetup where
  cfg := ⟨4, 3000000000, false⟩
  numWorkers := 2
  workerId := 1
  entries := [("a", 1)]
  entries_ne_nil := List.cons_ne_nil _ _
  endpoints := ⟨fun _ => 2, fun _ => 4, fun _ => 10, fun _ => 20, 53124, 53, some 7⟩

/-- Two free frames and a TX ring with one slot. -/
def twoFrames : TxState where
  sock := {
    fill := mmapRing 1#32 one_isPow 0 fun _ => 0
    comp := mmapRing 1#32 one_isPow 0 fun _ => 0
    rx := mmapRing 1#32 one_isPow 0 fun _ => ⟨0, 0, 0⟩
    tx := mmapRing 1#32 one_isPow 0xffffffff fun _ => ⟨0, 0, 0⟩
    txPool := [2048, 0] }
  area := List.replicate 4096 0xff
  idCtr := 32767
  tmplIdx := 5
  sportCtr := 9

theorem ready_twoFrames : secondWorker.Ready twoFrames where
  fits := by decide
  nodup := by decide
  frames addr haddr := by
    have hlen : twoFrames.area.length = 4096 := List.length_replicate
    unfold IsFrame
    rw [hlen]
    obtain rfl | rfl := List.mem_pair.mp haddr
    · decide
    · decide
  ring := by
    unfold IndexRing.Bounded
    decide

/-- One of two frames is refused: the last id of the worker is inserted and frame 0 is on the ring. -/
theorem tx_batch_aligned_twoFrames :
    ∃ s' inserted, secondWorker.txStep twoFrames 64 = .ok (s', 1, inserted) ∧ inserted = [65535] ∧
      s'.sock.tx.pending = [⟨0, 65, 0⟩] ∧ s'.sock.txPool = [2048] := by
  obtain ⟨s', enq, inserted, hstep, h⟩ :=
    tx_batch_aligned secondWorker twoFrames ready_twoFrames (by decide) 64
  obtain rfl : enq = 1 := h.enq_eq.trans (by decide)
  have hperm : (0 :: s'.sock.txPool).Perm (0 :: [2048]) := h.pool.trans (.swap 0 2048 [])
  exact ⟨s', inserted, hstep, h.inserted_eq.trans (by decide), h.visible.trans (by decide),
    List.perm_singleton.mp hperm.cons_inv⟩

/-! ## The batch among the other models of the worker -/

/-- The ids of the step are those that `UnifiedWorker.transmit` registers. -/
theorem txStep_refines_transmit (hready : Ready c s) (hloop : c.cfg.firehose = false) {N : ℕ}
    (i : Fin N) (hN : c.numWorkers = N) (hi : c.workerId = i) (w : UnifiedWorker)
    (hctr : w.idCtr = s.idCtr) (headroom : ℕ) :
    ∃ s' enq inserted, c.txStep s headroom = .ok (s', enq, inserted) ∧
      enq ≤ min headroom s.sock.txPool.length ∧
      w.transmit c.cfg N i headroom s.sock.txPool.length enq
        = { w with
            idCtr := s'.idCtr
            pc := if 0 < enq then .register inserted enq else .receive } := by
  obtain ⟨b, hfilled, hstep⟩ := txStep_eq hready hloop headroom
  refine ⟨_, _, _, hstep, ?_, ?_⟩
  · rw [← hfilled.length_descs]
    exact Nat.min_le_left _ _
  · have hids : b.idsToRegister = (List.range (min headroom s.sock.txPool.length)).map
        fun k => Xdp.idAt N i (w.idCtr + k) := by
      rw [hfilled.ids, hctr]
      subst hN
      rw [← hi]
      rfl
    have hnext : (submitted b).idCtr = w.idCtr + min headroom s.sock.txPool.length := by
      rw [hctr]
      exact hfilled.idCtr
    unfold UnifiedWorker.transmit
    rw [hnext, hids]
    simp only [Config.registered, hloop]
    split <;> rfl

/-- What the loop pops is what `Frames.popFrames` does. -/
theorem popFrames_eq {n : ℕ} {pool : List UInt64} (h : n ≤ pool.length) :
    Frames.popFrames n pool = (pool.take (pool.length - n), (pool.drop (pool.length - n)).reverse) := by
  induction n generalizing pool with
  | zero => simp [Frames.popFrames]
  | succ n ih =>
    obtain rfl | ⟨init, last, rfl⟩ := pool.eq_nil_or_concat
    · exact absurd h (Nat.not_succ_le_zero n)
    · have hlen : n ≤ init.length := by simpa using h
      have hidx : (init ++ [last]).length - (n + 1) = init.length - n := by
        rw [List.length_append, List.length_singleton]
        omega
      rw [Frames.popFrames, List.concat_eq_append]
      simp only [List.getLast?_concat, List.dropLast_concat, ih hlen]
      rw [hidx, List.take_append_of_le_length (Nat.sub_le _ _),
        List.drop_append_of_le_length (Nat.sub_le _ _), List.reverse_append]
      rfl

/-- The lengths of the frames of a batch, by address. -/
def lenOf (c : TxSetup) (s : TxState) (addr : UInt64) : UInt32 :=
  (c.desc s (s.sock.txPool.reverse.idxOf addr)).len

theorem Ready.lenOf_popped (h : Ready c s) {j : ℕ} (hj : j < s.sock.txPool.length) :
    lenOf c s (popped s j) = (c.desc s j).len := by
  have hget : s.sock.txPool.reverse[j]? = some (popped s j) := by
    rw [List.getElem?_reverse hj, getElem?_popped hj]
  have hmem : popped s j ∈ s.sock.txPool.reverse := List.mem_of_getElem? hget
  have hidx := List.getElem?_idxOf hmem
  have heq := (List.getElem?_inj (by rwa [List.length_reverse])
    (List.nodup_reverse.mpr h.nodup)).mp (hget.trans hidx.symm)
  rw [lenOf, ← heq]

/-- The loop is the first of the two ring calls of `Frames`. -/
theorem Filled.fillFrames_eq (hready : Ready c s) {b : TxLoop} {headroom : ℕ}
    (h : Filled c s b (min headroom s.sock.txPool.length)) {f : Frames} (hsock : f.sock = s.sock) :
    f.fillFrames headroom (lenOf c s)
      = { f with
          sock := b.sock
          pc := if b.descs.isEmpty then .receive else .submit b.descs } := by
  have hmin := Nat.min_le_right headroom s.sock.txPool.length
  have hdescs : (Frames.popFrames (min headroom s.sock.txPool.length) s.sock.txPool).2.map
      (fun addr => XdpDesc.mk addr (lenOf c s addr) 0) = b.descs := by
    rw [popFrames_eq hmin, ← map_popped hmin, List.map_map, h.descs]
    refine List.map_congr_left fun j hj => ?_
    change XdpDesc.mk (popped s j) (lenOf c s (popped s j)) 0 = c.desc s j
    rw [hready.lenOf_popped ((List.mem_range.mp hj).trans_le hmin)]
    rfl
  unfold Frames.fillFrames
  split
  · simp only [hsock, hdescs]
    rw [popFrames_eq hmin, h.sock]
  · rename_i hzero
    obtain rfl : headroom = 0 := by omega
    rw [Nat.zero_min] at h
    rw [h.descs, h.sock, Nat.sub_zero, List.take_length, ← hsock]
    rfl

/-- The rings and the pool of the step are those of the ring calls of `Frames`. -/
theorem txStep_refines_frames (hready : Ready c s) (hloop : c.cfg.firehose = false) (f : Frames)
    (hsock : f.sock = s.sock) (hpc : f.pc = .transmit) (headroom : ℕ) :
    ∃ s' enq inserted es f', c.txStep s headroom = .ok (s', enq, inserted) ∧
      Frames.machine.run f (.fillFrames headroom (lenOf c s) :: es) = some f' ∧ f'.pc = .receive ∧
      f'.sock = s'.sock := by
  obtain ⟨b, hfilled, hstep⟩ := txStep_eq hready hloop headroom
  have hrun : Frames.machine.step f (.fillFrames headroom (lenOf c s))
      = some { f with
          sock := b.sock
          pc := if b.descs.isEmpty then .receive else .submit b.descs } := by
    change Frames.step f _ = _
    unfold Frames.step
    rw [hpc, ← hfilled.fillFrames_eq hready hsock]
  by_cases hempty : b.descs = []
  · refine ⟨_, _, _, [], { f with sock := b.sock, pc := .receive }, hstep, ?_, rfl, ?_⟩
    · rw [Machine.run_cons, hrun, hempty]
      rfl
    · rw [submitted_of_isEmpty hempty]
  · refine ⟨_, _, _, [.submit], Frames.submit { f with sock := b.sock } b.descs, hstep, ?_, rfl, rfl⟩
    rw [Machine.run_cons, hrun, if_neg (mt List.isEmpty_iff.mp hempty)]
    rfl

end TxSetup

end Dnsmark.Xdp
