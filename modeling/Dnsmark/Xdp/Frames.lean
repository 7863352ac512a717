import Dnsmark.Common.Custody
import Dnsmark.Xdp.Umem
import Mathlib.Tactic.Abel

/-!
# Where the UMEM frames are

The ring side of `xdp_unified_worker`: reclaim completions into the pool, fill frames from the pool
and submit them, hand received frames back to the fill ring.  The kernel works on the other ends of
the four rings.  It holds the chunks of the fill entries and TX descriptors it has taken, and turns
each of them, at most once, into an RX descriptor in the same chunk or a completion entry with the
same address; it never does more than the rings have room for.

One event is one call on a ring, or one move of the kernel; a move of the kernel in the middle of a
call of the worker works on the other end of that ring and may as well come after it.  What the
worker decides from elsewhere (the headroom, the lengths of its frames, the shutdown) is free.

A chunk is named by its number; the 4096 RX and the 12288 TX chunks circulate separately, and each
step moves chunks between two places (`Inv.step`).
-/

namespace Dnsmark.Xdp

/-- The chunk an address lies in. -/
def chunk (addr : UInt64) : ℕ := addr.toNat / frameSize

/-- `XskSocket`: the four rings and the pool of free TX frames. -/
structure XskSocket where
  fill : AddrRing
  comp : AddrRing
  rx : DescRing
  tx : DescRing
  txPool : List UInt64

/-- `(i * FRAME_SIZE) as u64`. -/
def frameAddr (i : ℕ) : UInt64 := UInt64.ofNat (i * frameSize)

/-- `create_xsk_socket` and `Umem::new` on freshly mapped rings: the first `RING_SIZE` frames go to the
fill ring, the others to the pool. -/
def XskSocket.create (fill comp : AddrRing) (rx tx : DescRing) : XskSocket where
  fill := (enqueueBatch fill ((List.range ringSize).map frameAddr)).1
  comp := comp
  rx := rx
  tx := tx
  txPool := (List.range' ringSize (frameCount - ringSize)).map frameAddr

/-- Where the worker is between two ring calls. -/
inductive FramePc where
  | loopHead
  | reclaim
  | transmit
  /-- The frames of `descs` are written and not yet submitted. -/
  | submit (descs : List XdpDesc)
  | receive
  /-- `rx_addrs` are read and not yet handed back. -/
  | refill (rxAddrs : List UInt64)
  | exited
deriving DecidableEq, Repr

/-- The worker, its socket, and the chunks the kernel has taken. -/
structure Frames where
  pc : FramePc
  sock : XskSocket
  kernelRx : List UInt64
  kernelTx : List UInt64

/-- One call of the worker on a ring, or one move of the kernel. -/
inductive FrameEvent where
  | checkShutdown (shutdown : Bool)
  | reclaim
  /-- Fill up to `headroom` frames; `len` are the frame lengths. -/
  | fillFrames (headroom : ℕ) (len : UInt64 → UInt32)
  | submit
  | receive
  | refill
  /-- The kernel takes the oldest fill entry. -/
  | kernelTakesFill
  /-- The kernel has received a packet into the frame at `addr`. -/
  | kernelDelivers (addr : UInt64) (desc : XdpDesc)
  /-- The kernel takes the oldest TX descriptor. -/
  | kernelTakesTx
  /-- The kernel has sent the frame at `addr`. -/
  | kernelCompletes (addr : UInt64)

namespace Frames

/-- `for _ in 0..n { if let Some(addr) = tx_pool.pop() { .. } }`: the pool after it, and the popped
addresses. -/
def popFrames : ℕ → List UInt64 → List UInt64 × List UInt64
  | 0, pool => (pool, [])
  | n + 1, pool =>
    match pool.getLast? with
    | some addr => ((popFrames n pool.dropLast).1, addr :: (popFrames n pool.dropLast).2)
    | none => popFrames n pool

/-- The TX part before `produce_tx`: pop `min(headroom, pool)` frames and write them. -/
def fillFrames (s : Frames) (headroom : ℕ) (len : UInt64 → UInt32) : Frames :=
  if 0 < headroom then
    let popped := popFrames (min headroom s.sock.txPool.length) s.sock.txPool
    let descs := popped.2.map fun addr => XdpDesc.mk addr (len addr) 0
    { s with
      sock := { s.sock with txPool := popped.1 }
      pc := if descs.isEmpty then .receive else .submit descs }
  else { s with pc := .receive }

/-- `produce_tx`; refused descriptors return to the pool. -/
def submit (s : Frames) (descs : List XdpDesc) : Frames :=
  let produced := produceTx s.sock.tx descs
  { s with
    pc := .receive
    sock := { s.sock with
      tx := produced.1
      txPool := s.sock.txPool ++ (descs.drop produced.2).map XdpDesc.addr } }

/-- `consume_rx`. -/
def receive (s : Frames) : Frames :=
  let consumed := consumeRx s.sock.rx
  { s with
    pc := if consumed.2.isEmpty then .loopHead else .refill (consumed.2.map XdpDesc.addr)
    sock := { s.sock with rx := consumed.1 } }

/-- One event, if it is possible. -/
def step (s : Frames) (e : FrameEvent) : Option Frames :=
  match e, s.pc with
  | .checkShutdown shutdown, .loopHead => some { s with pc := if shutdown then .exited else .reclaim }
  | .reclaim, .reclaim =>
    let done := dequeueAll s.sock.comp
    some { s with
      pc := .transmit
      sock := { s.sock with comp := done.1, txPool := s.sock.txPool ++ done.2 } }
  | .fillFrames headroom len, .transmit => some (s.fillFrames headroom len)
  | .submit, .submit descs => some (s.submit descs)
  | .receive, .receive => some s.receive
  | .refill, .refill rxAddrs =>
    -- the return value of `enqueue_batch` is ignored
    some { s with
      pc := .loopHead
      sock := { s.sock with fill := (enqueueBatch s.sock.fill rxAddrs).1 } }
  | .kernelTakesFill, _ =>
    s.sock.fill.pending.head?.map fun addr => { s with
      sock := { s.sock with fill := s.sock.fill.take 1 }
      kernelRx := addr :: s.kernelRx }
  | .kernelDelivers addr desc, _ =>
    if addr ∈ s.kernelRx ∧ chunk desc.addr = chunk addr ∧ 0 < s.sock.rx.room then
      some { s with
        sock := { s.sock with rx := s.sock.rx.post desc }
        kernelRx := s.kernelRx.erase addr }
    else none
  | .kernelTakesTx, _ =>
    s.sock.tx.pending.head?.map fun desc => { s with
      sock := { s.sock with tx := s.sock.tx.take 1 }
      kernelTx := desc.addr :: s.kernelTx }
  | .kernelCompletes addr, _ =>
    if addr ∈ s.kernelTx ∧ 0 < s.sock.comp.room then
      some { s with
        sock := { s.sock with comp := s.sock.comp.post addr }
        kernelTx := s.kernelTx.erase addr }
    else none
  | _, _ => none

/-- The worker and the kernel. -/
def machine : Machine Frames FrameEvent := ⟨step⟩

/-- Before the first iteration. -/
def start (fill comp : AddrRing) (rx tx : DescRing) : Frames :=
  ⟨.loopHead, .create fill comp rx tx, [], []⟩

/-! ## The chunks in each place -/

/-- Where a chunk can be. -/
inductive Place where
  | fillRing
  | kernelRx
  | rxRing
  /-- Read from the RX ring, not yet handed back. -/
  | rxAddrs
  | txPool
  /-- Popped from the pool, not yet submitted. -/
  | descs
  | txRing
  | kernelTx
  | compRing
deriving DecidableEq, Repr

/-- The places of an RX chunk. -/
def rxPlaces : List Place := [.fillRing, .kernelRx, .rxRing, .rxAddrs]

/-- The places of a TX chunk. -/
def txPlaces : List Place := [.txPool, .descs, .txRing, .kernelTx, .compRing]

/-- The chunks of a list of addresses. -/
def chunks (addrs : List UInt64) : Multiset ℕ := (addrs.map chunk : List ℕ)

/-- The addresses the worker has taken from a ring or the pool. -/
def inHand : FramePc → Place → List UInt64
  | .refill rxAddrs, .rxAddrs => rxAddrs
  | .submit descs, .descs => descs.map XdpDesc.addr
  | _, _ => []

/-- The chunks in a place. -/
def held (s : Frames) : Place → Multiset ℕ
  | .fillRing => chunks s.sock.fill.pending
  | .kernelRx => chunks s.kernelRx
  | .rxRing => chunks (s.sock.rx.pending.map XdpDesc.addr)
  | .rxAddrs => chunks (inHand s.pc .rxAddrs)
  | .txPool => chunks s.sock.txPool
  | .descs => chunks (inHand s.pc .descs)
  | .txRing => chunks (s.sock.tx.pending.map XdpDesc.addr)
  | .kernelTx => chunks s.kernelTx
  | .compRing => chunks s.sock.comp.pending

@[simp] theorem chunks_nil : chunks [] = 0 := rfl

@[simp] theorem chunks_append (l l' : List UInt64) : chunks (l ++ l') = chunks l + chunks l' := by
  rw [chunks, List.map_append, ← Multiset.coe_add]
  rfl

@[simp] theorem chunks_cons (addr : UInt64) (l : List UInt64) :
    chunks (addr :: l) = {chunk addr} + chunks l := chunks_append [addr] l

theorem chunks_perm {l l' : List UInt64} (h : l.Perm l') : chunks l = chunks l' :=
  Multiset.coe_eq_coe.mpr (h.map chunk)

@[simp] theorem card_chunks (l : List UInt64) : (chunks l).card = l.length := by
  rw [chunks, Multiset.coe_card, List.length_map]

/-- Taking an address out of a list. -/
theorem chunks_erase {l : List UInt64} {addr : UInt64} (h : addr ∈ l) :
    chunks l = {chunk addr} + chunks (l.erase addr) := by
  rw [← chunks_cons]
  exact chunks_perm (List.perm_cons_erase h)

/-- Popping splits the pool. -/
theorem popFrames_add (n : ℕ) (pool : List UInt64) :
    ((popFrames n pool).1 : Multiset UInt64) + (popFrames n pool).2 = pool := by
  induction n generalizing pool with
  | zero => exact add_zero _
  | succ n ih =>
    unfold popFrames
    split
    · rename_i addr hlast
      have hpool : (pool : Multiset UInt64) = addr ::ₘ (pool.dropLast : Multiset UInt64) := by
        nth_rewrite 1 [← List.dropLast_append_getLast? addr hlast]
        exact Multiset.coe_eq_coe.mpr (List.perm_append_singleton addr _)
      rw [hpool, ← ih pool.dropLast, ← Multiset.cons_coe, Multiset.add_cons]
    · exact ih pool

theorem chunks_popFrames (n : ℕ) (pool : List UInt64) :
    chunks pool = chunks (popFrames n pool).1 + chunks (popFrames n pool).2 := by
  have hmap := congrArg (Multiset.map chunk) (popFrames_add n pool)
  rw [Multiset.map_add, Multiset.map_coe, Multiset.map_coe, Multiset.map_coe] at hmap
  exact hmap.symm

/-- The chunk of a frame. -/
theorem chunk_frameAddr {i : ℕ} (h : i < frameCount) : chunk (frameAddr i) = i := by
  have hsmall : i * 2048 < 2 ^ 64 := by
    simp only [frameCount] at h
    omega
  simp only [chunk, frameAddr, frameSize, UInt64.toNat_ofNat', Nat.mod_eq_of_lt hsmall]
  omega

theorem chunks_frameAddr {l : List ℕ} (h : ∀ i ∈ l, i < frameCount) :
    chunks (l.map frameAddr) = (l : Multiset ℕ) := by
  have hmap : (l.map frameAddr).map chunk = l := by
    rw [List.map_map]
    exact (List.map_congr_left fun i hi => chunk_frameAddr (h i hi)).trans (List.map_id l)
  rw [chunks, hmap]

/-! ## Every step moves chunks -/

/-- The rings are bounded queues, and every chunk is accounted for. -/
structure Inv (s : Frames) : Prop where
  fill : s.sock.fill.Bounded
  comp : s.sock.comp.Bounded
  rx : s.sock.rx.Bounded
  tx : s.sock.tx.Bounded
  fillSize : s.sock.fill.size.toNat = ringSize
  rxTotal : Custody.total rxPlaces s.held = (List.range ringSize : List ℕ)
  txTotal : Custody.total txPlaces s.held = (List.range' ringSize (frameCount - ringSize) : List ℕ)

variable {s : Frames}

theorem total_rxPlaces (s : Frames) :
    Custody.total rxPlaces s.held = chunks s.sock.fill.pending + chunks s.kernelRx +
      chunks (s.sock.rx.pending.map XdpDesc.addr) + chunks (inHand s.pc .rxAddrs) := by
  simp only [rxPlaces, Custody.total_cons, Custody.total_nil, held, add_zero, add_assoc]

theorem total_txPlaces (s : Frames) :
    Custody.total txPlaces s.held = chunks s.sock.txPool + chunks (inHand s.pc .descs) +
      chunks (s.sock.tx.pending.map XdpDesc.addr) + chunks s.kernelTx + chunks s.sock.comp.pending := by
  simp only [txPlaces, Custody.total_cons, Custody.total_nil, held, add_zero, add_assoc]

/-- A step of the worker's own that touches no ring. -/
theorem Inv.goto (h : Inv s) {pc : FramePc} (hrx : inHand pc .rxAddrs = inHand s.pc .rxAddrs)
    (htx : inHand pc .descs = inHand s.pc .descs) : Inv { s with pc := pc } where
  fill := h.fill
  comp := h.comp
  rx := h.rx
  tx := h.tx
  fillSize := h.fillSize
  rxTotal := by
    rw [← h.rxTotal, total_rxPlaces, total_rxPlaces, hrx]
  txTotal := by
    rw [← h.txTotal, total_txPlaces, total_txPlaces, htx]

/-- Completions go to the pool. -/
theorem Inv.reclaim (h : Inv s) (hpc : s.pc = .reclaim) :
    Inv { s with
      pc := .transmit
      sock := { s.sock with
        comp := (dequeueAll s.sock.comp).1
        txPool := s.sock.txPool ++ (dequeueAll s.sock.comp).2 } } where
  fill := h.fill
  comp := s.sock.comp.consumeAll_bounded
  rx := h.rx
  tx := h.tx
  fillSize := h.fillSize
  rxTotal := by
    rw [← h.rxTotal, total_rxPlaces, total_rxPlaces, hpc]
    rfl
  txTotal := by
    have hall : (dequeueAll s.sock.comp).1.pending = [] := s.sock.comp.consumeAll_pending
    rw [← h.txTotal, total_txPlaces, total_txPlaces, hpc, hall, chunks_append, chunks_nil]
    change _ + chunks s.sock.comp.pending + 0 + _ + _ + 0 = _ + 0 + _ + _ + _
    abel

theorem map_addr_descs (addrs : List UInt64) (len : UInt64 → UInt32) :
    (addrs.map fun addr => XdpDesc.mk addr (len addr) 0).map XdpDesc.addr = addrs := by
  rw [List.map_map]
  exact List.map_id addrs

/-- Frames are popped from the pool and written. -/
theorem Inv.fillFrames (h : Inv s) (hpc : s.pc = .transmit) (headroom : ℕ) (len : UInt64 → UInt32) :
    Inv (s.fillFrames headroom len) := by
  unfold Frames.fillFrames
  split
  · have hpop := chunks_popFrames (min headroom s.sock.txPool.length) s.sock.txPool
    refine ⟨h.fill, h.comp, h.rx, h.tx, h.fillSize, ?_, ?_⟩
    · rw [← h.rxTotal, total_rxPlaces, total_rxPlaces, hpc]
      simp only
      split <;> rfl
    · have hhand : ∀ descs : List XdpDesc,
          inHand (if descs.isEmpty then .receive else .submit descs) .descs
            = descs.map XdpDesc.addr := by
        rintro (_ | ⟨d, ds⟩) <;> rfl
      rw [← h.txTotal, total_txPlaces, total_txPlaces, hpc]
      simp only [hhand, map_addr_descs]
      rw [hpop]
      change _ = _ + 0 + _ + _ + _
      abel
  · exact h.goto (by rw [hpc]; rfl) (by rw [hpc]; rfl)

/-- Submitted frames go to the TX ring, refused ones back to the pool. -/
theorem Inv.submit (h : Inv s) {descs : List XdpDesc} (hpc : s.pc = .submit descs) :
    Inv (s.submit descs) := by
  obtain ⟨hpending, hbounded⟩ := IndexRing.produce_spec false h.tx descs
  refine ⟨h.fill, h.comp, h.rx, hbounded, h.fillSize, ?_, ?_⟩
  · rw [← h.rxTotal, total_rxPlaces, total_rxPlaces, hpc]
    rfl
  · rw [← h.txTotal, total_txPlaces, total_txPlaces, hpc]
    have hsplit : chunks (descs.map XdpDesc.addr)
        = chunks ((descs.take (produceTx s.sock.tx descs).2).map XdpDesc.addr) +
          chunks ((descs.drop (produceTx s.sock.tx descs).2).map XdpDesc.addr) := by
      rw [← chunks_append, ← List.map_append, List.take_append_drop]
    have hring : (produceTx s.sock.tx descs).1.pending
        = s.sock.tx.pending ++ descs.take (produceTx s.sock.tx descs).2 := hpending
    simp only [Frames.submit, inHand, hring, hsplit, List.map_append, chunks_append, chunks_nil]
    abel

/-- Received frames are read off the RX ring. -/
theorem Inv.receive (h : Inv s) (hpc : s.pc = .receive) : Inv s.receive := by
  have hall : (consumeRx s.sock.rx).1.pending = [] := s.sock.rx.consumeAll_pending
  have hhand : ∀ descs : List XdpDesc,
      inHand (if descs.isEmpty then .loopHead else .refill (descs.map XdpDesc.addr)) .rxAddrs
        = descs.map XdpDesc.addr := by
    rintro (_ | ⟨d, ds⟩) <;> rfl
  refine ⟨h.fill, h.comp, s.sock.rx.consumeAll_bounded, h.tx, h.fillSize, ?_, ?_⟩
  · rw [← h.rxTotal, total_rxPlaces, total_rxPlaces, hpc]
    simp only [Frames.receive, hall, hhand]
    change _ + _ + 0 + chunks (s.sock.rx.pending.map XdpDesc.addr) = _ + _ + _ + 0
    abel
  · rw [← h.txTotal, total_txPlaces, total_txPlaces, hpc]
    simp only [Frames.receive]
    split <;> rfl

/-- There is always room in the fill ring for the frames that were received. -/
theorem Inv.refill_accepts (h : Inv s) {rxAddrs : List UInt64} (hpc : s.pc = .refill rxAddrs) :
    (enqueueBatch s.sock.fill rxAddrs).2 = rxAddrs.length := by
  have hcard := congrArg Multiset.card h.rxTotal
  rw [total_rxPlaces, hpc] at hcard
  simp only [inHand, Multiset.card_add, card_chunks, IndexRing.length_pending, Multiset.coe_card,
    List.length_range] at hcard
  have hsnd : (enqueueBatch s.sock.fill rxAddrs).2
      = min rxAddrs.length (s.sock.fill.size.toNat - s.sock.fill.occupancy) :=
    IndexRing.produce_snd true h.fill rxAddrs
  have hsize := h.fillSize
  omega

/-- Received frames go back to the fill ring, all of them. -/
theorem Inv.refill (h : Inv s) {rxAddrs : List UInt64} (hpc : s.pc = .refill rxAddrs) :
    Inv { s with
      pc := .loopHead
      sock := { s.sock with fill := (enqueueBatch s.sock.fill rxAddrs).1 } } := by
  obtain ⟨hpending, hbounded⟩ := IndexRing.produce_spec true h.fill rxAddrs
  have hall : (enqueueBatch s.sock.fill rxAddrs).1.pending = s.sock.fill.pending ++ rxAddrs := by
    have haccepts := h.refill_accepts hpc
    unfold enqueueBatch at haccepts ⊢
    rw [hpending, haccepts, List.take_length]
  refine ⟨hbounded, h.comp, h.rx, h.tx, ?_, ?_, ?_⟩
  · exact (congrArg BitVec.toNat (IndexRing.produce_size true rxAddrs)).trans h.fillSize
  · rw [← h.rxTotal, total_rxPlaces, total_rxPlaces, hpc]
    simp only [hall, chunks_append, inHand, chunks_nil]
    abel
  · rw [← h.txTotal, total_txPlaces, total_txPlaces, hpc]
    rfl

/-- The oldest entry of a ring and the rest. -/
theorem pending_of_head {α : Type} {r : IndexRing 32 α} {a : α} (hb : r.Bounded)
    (h : r.pending.head? = some a) : r.pending = a :: (r.take 1).pending ∧ (r.take 1).Bounded := by
  have hne : 1 ≤ r.occupancy := by
    rw [← IndexRing.length_pending]
    exact List.length_pos_of_mem (List.mem_of_mem_head? h)
  obtain ⟨htake, hbounded⟩ := IndexRing.take_spec hb hne
  refine ⟨?_, hbounded⟩
  rw [htake, List.drop_one]
  exact (List.cons_head?_tail h).symm

/-- The kernel takes the oldest fill entry. -/
theorem Inv.kernelTakesFill (h : Inv s) {addr : UInt64} (hhead : s.sock.fill.pending.head? = some addr) :
    Inv { s with
      sock := { s.sock with fill := s.sock.fill.take 1 }
      kernelRx := addr :: s.kernelRx } := by
  obtain ⟨hpending, hbounded⟩ := pending_of_head h.fill hhead
  refine ⟨hbounded, h.comp, h.rx, h.tx, h.fillSize, ?_, h.txTotal⟩
  rw [← h.rxTotal, total_rxPlaces, total_rxPlaces, hpending, chunks_cons, chunks_cons]
  abel

/-- The kernel posts an RX descriptor into the chunk it had taken. -/
theorem Inv.kernelDelivers (h : Inv s) {addr : UInt64} {desc : XdpDesc} (hmem : addr ∈ s.kernelRx)
    (hchunk : chunk desc.addr = chunk addr) (hroom : 0 < s.sock.rx.room) :
    Inv { s with
      sock := { s.sock with rx := s.sock.rx.post desc }
      kernelRx := s.kernelRx.erase addr } := by
  obtain ⟨hpending, hbounded⟩ := IndexRing.post_spec h.rx hroom desc
  refine ⟨h.fill, h.comp, hbounded, h.tx, h.fillSize, ?_, h.txTotal⟩
  rw [← h.rxTotal, total_rxPlaces, total_rxPlaces, chunks_erase hmem]
  simp only [hpending, List.map_append, List.map_cons, List.map_nil, chunks_append, chunks_cons,
    chunks_nil, hchunk]
  abel

/-- The kernel takes the oldest TX descriptor. -/
theorem Inv.kernelTakesTx (h : Inv s) {desc : XdpDesc} (hhead : s.sock.tx.pending.head? = some desc) :
    Inv { s with
      sock := { s.sock with tx := s.sock.tx.take 1 }
      kernelTx := desc.addr :: s.kernelTx } := by
  obtain ⟨hpending, hbounded⟩ := pending_of_head h.tx hhead
  refine ⟨h.fill, h.comp, h.rx, hbounded, h.fillSize, h.rxTotal, ?_⟩
  rw [← h.txTotal, total_txPlaces, total_txPlaces, hpending, List.map_cons, chunks_cons, chunks_cons]
  abel

/-- The kernel posts a completion for a frame it had taken. -/
theorem Inv.kernelCompletes (h : Inv s) {addr : UInt64} (hmem : addr ∈ s.kernelTx)
    (hroom : 0 < s.sock.comp.room) :
    Inv { s with
      sock := { s.sock with comp := s.sock.comp.post addr }
      kernelTx := s.kernelTx.erase addr } := by
  obtain ⟨hpending, hbounded⟩ := IndexRing.post_spec h.comp hroom addr
  refine ⟨h.fill, hbounded, h.rx, h.tx, h.fillSize, h.rxTotal, ?_⟩
  rw [← h.txTotal, total_txPlaces, total_txPlaces, chunks_erase hmem]
  simp only [hpending, chunks_append, chunks_cons, chunks_nil]
  abel

/-- Every step of the worker and every move of the kernel keeps the account. -/
theorem Inv.step {s' : Frames} {e : FrameEvent} (h : Inv s) (hstep : step s e = some s') : Inv s' := by
  unfold Frames.step at hstep
  split at hstep
  · rename_i shutdown hpc
    obtain rfl := Option.some.inj hstep
    refine h.goto ?_ ?_ <;> rw [hpc] <;> cases shutdown <;> rfl
  · obtain rfl := Option.some.inj hstep
    exact h.reclaim ‹_›
  · obtain rfl := Option.some.inj hstep
    exact h.fillFrames ‹_› _ _
  · obtain rfl := Option.some.inj hstep
    exact h.submit ‹_›
  · obtain rfl := Option.some.inj hstep
    exact h.receive ‹_›
  · obtain rfl := Option.some.inj hstep
    exact h.refill ‹_›
  · obtain ⟨addr, hhead, rfl⟩ := Option.map_eq_some_iff.mp hstep
    exact h.kernelTakesFill hhead
  · split at hstep
    · rename_i hguard
      obtain rfl := Option.some.inj hstep
      exact h.kernelDelivers hguard.1 hguard.2.1 hguard.2.2
    · cases hstep
  · obtain ⟨desc, hhead, rfl⟩ := Option.map_eq_some_iff.mp hstep
    exact h.kernelTakesTx hhead
  · split at hstep
    · rename_i hguard
      obtain rfl := Option.some.inj hstep
      exact h.kernelCompletes hguard.1 hguard.2
    · cases hstep
  · cases hstep

/-- A ring as it is mapped: of `RING_SIZE` slots, and empty. -/
structure Fresh {α : Type} (r : IndexRing 32 α) : Prop where
  size : r.size.toNat = ringSize
  empty : r.producer = r.consumer

theorem Fresh.pending {α : Type} {r : IndexRing 32 α} (h : Fresh r) : r.pending = [] := by
  rw [← List.length_eq_zero_iff, IndexRing.length_pending, IndexRing.occupancy, h.empty]
  simp

theorem Fresh.bounded {α : Type} {r : IndexRing 32 α} (h : Fresh r) : r.Bounded := by
  rw [IndexRing.Bounded, ← IndexRing.length_pending, h.pending]
  exact Nat.zero_le _

/-- `Umem::new` puts every chunk in a place: the RX chunks in the fill ring, the TX chunks in the
pool. -/
theorem Inv.start {fill comp : AddrRing} {rx tx : DescRing} (hfill : Fresh fill) (hcomp : Fresh comp)
    (hrx : Fresh rx) (htx : Fresh tx) : Inv (start fill comp rx tx) := by
  obtain ⟨hpending, hbounded⟩ :=
    IndexRing.produce_spec true hfill.bounded ((List.range ringSize).map frameAddr)
  have haccepts : (enqueueBatch fill ((List.range ringSize).map frameAddr)).2 = ringSize := by
    have hocc : fill.occupancy = 0 := by
      rw [← IndexRing.length_pending, hfill.pending, List.length_nil]
    unfold enqueueBatch
    rw [IndexRing.produce_snd true hfill.bounded, hfill.size, hocc, List.length_map, List.length_range]
    exact min_self _
  have hall : (enqueueBatch fill ((List.range ringSize).map frameAddr)).1.pending
      = (List.range ringSize).map frameAddr := by
    have hlen : ((List.range ringSize).map frameAddr).length = ringSize := by simp
    unfold enqueueBatch at haccepts ⊢
    rw [hpending, haccepts, hfill.pending, List.nil_append]
    exact List.take_of_length_le hlen.le
  refine ⟨hbounded, hcomp.bounded, hrx.bounded, htx.bounded, ?_, ?_, ?_⟩
  · exact (congrArg BitVec.toNat (IndexRing.produce_size true _)).trans hfill.size
  · rw [total_rxPlaces]
    simp only [Frames.start, XskSocket.create, hall, hrx.pending, inHand, List.map_nil, chunks_nil,
      add_zero]
    refine chunks_frameAddr fun i hi => ?_
    have := List.mem_range.mp hi
    simp only [ringSize, frameCount] at *
    omega
  · rw [total_txPlaces]
    simp only [Frames.start, XskSocket.create, htx.pending, hcomp.pending, inHand, List.map_nil,
      chunks_nil, add_zero]
    refine chunks_frameAddr fun i hi => ?_
    have := List.mem_range'_1.mp hi
    simp only [ringSize, frameCount] at *
    omega

/-! ## Every chunk is in one place -/

theorem mem_rxPlaces_or_txPlaces (p : Place) : p ∈ rxPlaces ∨ p ∈ txPlaces := by
  cases p <;> decide

theorem Inv.lt_of_mem_rx (h : Inv s) {p : Place} (hp : p ∈ rxPlaces) {c : ℕ} (hc : c ∈ s.held p) :
    c < ringSize := by
  have hmem := Multiset.mem_of_le (Custody.le_total hp) hc
  rw [h.rxTotal, Multiset.mem_coe] at hmem
  exact List.mem_range.mp hmem

theorem Inv.le_of_mem_tx (h : Inv s) {p : Place} (hp : p ∈ txPlaces) {c : ℕ} (hc : c ∈ s.held p) :
    ringSize ≤ c := by
  have hmem := Multiset.mem_of_le (Custody.le_total hp) hc
  rw [h.txTotal, Multiset.mem_coe] at hmem
  exact (List.mem_range'_1.mp hmem).1

theorem Inv.nodup_rx (h : Inv s) : (Custody.total rxPlaces s.held).Nodup := by
  rw [h.rxTotal]
  exact List.nodup_range

theorem Inv.nodup_tx (h : Inv s) : (Custody.total txPlaces s.held).Nodup := by
  rw [h.txTotal]
  exact List.nodup_range'

/-- Two places that hold the same chunk are one. -/
theorem Inv.place_unique (h : Inv s) {p q : Place} {c : ℕ} (hp : c ∈ s.held p) (hq : c ∈ s.held q) :
    p = q := by
  rcases mem_rxPlaces_or_txPlaces p with hpr | hpt <;> rcases mem_rxPlaces_or_txPlaces q with hqr | hqt
  · exact Custody.eq_of_mem h.nodup_rx hpr hqr hp hq
  · exact absurd (h.lt_of_mem_rx hpr hp) (h.le_of_mem_tx hqt hq).not_gt
  · exact absurd (h.lt_of_mem_rx hqr hq) (h.le_of_mem_tx hpt hp).not_gt
  · exact Custody.eq_of_mem h.nodup_tx hpt hqt hp hq

/-- A chunk occurs once in the place it is in. -/
theorem Inv.count_eq_one (h : Inv s) {p : Place} {c : ℕ} (hc : c ∈ s.held p) :
    (s.held p).count c = 1 := by
  apply Multiset.count_eq_one_of_mem _ hc
  rcases mem_rxPlaces_or_txPlaces p with hp | hp
  · exact Multiset.nodup_of_le (Custody.le_total hp) h.nodup_rx
  · exact Multiset.nodup_of_le (Custody.le_total hp) h.nodup_tx

/-- `p` holds the chunk once, and no other place does. -/
def OnlyIn (s : Frames) (c : ℕ) (p : Place) : Prop :=
  (s.held p).count c = 1 ∧ ∀ q, q ≠ p → c ∉ s.held q

theorem Inv.onlyIn (h : Inv s) {p : Place} {c : ℕ} (hc : c ∈ s.held p) : s.OnlyIn c p :=
  ⟨h.count_eq_one hc, fun _ hq hmem => hq (h.place_unique hmem hc)⟩

/-- At a loop boundary the worker has nothing in hand. -/
theorem exists_rx_place (h : Inv s) (hpc : s.pc = .loopHead) {c : ℕ} (hc : c < ringSize) :
    ∃ p ∈ [Place.fillRing, .kernelRx, .rxRing], s.OnlyIn c p := by
  have hmem : c ∈ Custody.total rxPlaces s.held := by
    rw [h.rxTotal]
    exact List.mem_range.mpr hc
  obtain ⟨p, hp, hcp⟩ := Custody.mem_total.mp hmem
  refine ⟨p, ?_, h.onlyIn hcp⟩
  cases p with
  | rxAddrs =>
    rw [held, hpc] at hcp
    exact absurd hcp (Multiset.notMem_zero c)
  | fillRing | kernelRx | rxRing => decide
  | txPool | descs | txRing | kernelTx | compRing => exact absurd hp (by decide)

theorem exists_tx_place (h : Inv s) (hpc : s.pc = .loopHead) {c : ℕ} (hc : ringSize ≤ c)
    (hc' : c < frameCount) :
    ∃ p ∈ [Place.txPool, .txRing, .kernelTx, .compRing], s.OnlyIn c p := by
  have hmem : c ∈ Custody.total txPlaces s.held := by
    rw [h.txTotal]
    refine List.mem_range'_1.mpr ⟨hc, ?_⟩
    simp only [ringSize, frameCount] at *
    omega
  obtain ⟨p, hp, hcp⟩ := Custody.mem_total.mp hmem
  refine ⟨p, ?_, h.onlyIn hcp⟩
  cases p with
  | descs =>
    rw [held, hpc] at hcp
    exact absurd hcp (Multiset.notMem_zero c)
  | txPool | txRing | kernelTx | compRing => decide
  | fillRing | kernelRx | rxRing | rxAddrs => exact absurd hp (by decide)

/-- A refused descriptor is in the pool after the call. -/
theorem mem_txPool_of_refused {descs : List XdpDesc} {d : XdpDesc}
    (hd : d ∈ descs.drop (produceTx s.sock.tx descs).2) : chunk d.addr ∈ (s.submit descs).held .txPool := by
  apply Multiset.mem_coe.mpr
  exact List.mem_map_of_mem (List.mem_append_right _ (List.mem_map_of_mem hd))

/-- No frame is lost or used twice.  For every run of the worker against every such kernel: at every
loop boundary each chunk is in exactly one of its places; at no time is a chunk that the worker may
write owned by the NIC; refused descriptors return to the pool; and the fill ring takes every frame
that is handed back. -/
theorem frames_conserved (fill comp : AddrRing) (rx tx : DescRing) (hfill : Fresh fill)
    (hcomp : Fresh comp) (hrx : Fresh rx) (htx : Fresh tx) (es : List FrameEvent) (s : Frames)
    (hrun : machine.run (start fill comp rx tx) es = some s) :
    (s.pc = .loopHead →
      (∀ c < ringSize, ∃ p ∈ [Place.fillRing, .kernelRx, .rxRing], s.OnlyIn c p) ∧
      ∀ c, ringSize ≤ c → c < frameCount →
        ∃ p ∈ [Place.txPool, .txRing, .kernelTx, .compRing], s.OnlyIn c p) ∧
    (∀ c, c ∈ s.held .txPool ∨ c ∈ s.held .descs →
      ∀ p ∈ [Place.fillRing, .kernelRx, .txRing, .kernelTx], c ∉ s.held p) ∧
    (∀ descs s', s.pc = .submit descs → machine.step s .submit = some s' →
      ∀ d ∈ descs.drop (produceTx s.sock.tx descs).2, chunk d.addr ∈ s'.held .txPool) ∧
    ∀ rxAddrs, s.pc = .refill rxAddrs → (enqueueBatch s.sock.fill rxAddrs).2 = rxAddrs.length := by
  have h : Inv s := machine.run_invariant (fun _ _ _ ht hstep => ht.step hstep)
    (Inv.start hfill hcomp hrx htx) hrun
  refine ⟨fun hpc => ⟨fun c hc => exists_rx_place h hpc hc, fun c hc hc' => exists_tx_place h hpc hc hc'⟩,
    ?_, ?_, fun rxAddrs hpc => h.refill_accepts hpc⟩
  · intro c hc p hp hcp
    rcases hc with hc | hc
    · obtain rfl := h.place_unique hc hcp
      exact absurd hp (by decide)
    · obtain rfl := h.place_unique hc hcp
      exact absurd hp (by decide)
  · intro descs s' hpc hstep d hd
    have hs' : s.submit descs = s' := by
      simpa [machine, Frames.step, hpc] using hstep
    exact hs' ▸ mem_txPool_of_refused hd

theorem ringSize_isPow : ∃ k < 32, (4096#32).toNat = 2 ^ k := ⟨12, by decide, rfl⟩

/-- A ring as the kernel maps it. -/
def mapped {α : Type} (a : α) : IndexRing 32 α := mmapRing 4096#32 ringSize_isPow 0#32 fun _ => a

/-- One iteration of the worker: a packet has arrived in the first frame, two frames are submitted, and the
kernel sends one of them. -/
def busyIteration : List FrameEvent :=
  [.kernelTakesFill, .kernelDelivers (frameAddr 0) ⟨256, 60, 0⟩, .checkShutdown false, .reclaim,
    .fillFrames 2 fun _ => 60, .submit, .kernelTakesTx, .kernelCompletes (frameAddr 16383), .receive, .refill]

theorem busyIteration_ends :
    (machine.run (start (mapped 0) (mapped 0) (mapped ⟨0, 0, 0⟩) (mapped ⟨0, 0, 0⟩)) busyIteration).map
      (fun s => (s.pc, s.kernelRx, s.kernelTx)) = some (.loopHead, [], []) := by
  decide +kernel

/-- The frame that was received and the one that was sent are in one place each after it. -/
theorem frames_conserved_busyIteration :
    ∃ s, machine.run (start (mapped 0) (mapped 0) (mapped ⟨0, 0, 0⟩) (mapped ⟨0, 0, 0⟩)) busyIteration
        = some s ∧
      (∃ p ∈ [Place.fillRing, .kernelRx, .rxRing], s.OnlyIn 0 p) ∧
      ∃ p ∈ [Place.txPool, .txRing, .kernelTx, .compRing], s.OnlyIn 16383 p := by
  obtain ⟨s, hrun, hend⟩ := Option.map_eq_some_iff.mp busyIteration_ends
  obtain ⟨hrx, htx⟩ := (frames_conserved (mapped 0) (mapped 0) (mapped ⟨0, 0, 0⟩) (mapped ⟨0, 0, 0⟩)
    ⟨rfl, rfl⟩ ⟨rfl, rfl⟩ ⟨rfl, rfl⟩ ⟨rfl, rfl⟩ busyIteration s hrun).1 (Prod.mk.inj hend).1
  exact ⟨s, hrun, hrx 0 (by decide), htx 16383 (by decide) (by decide)⟩

end Frames

end Dnsmark.Xdp
