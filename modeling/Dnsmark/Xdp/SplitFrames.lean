import Dnsmark.Xdp.ReplyPath
import Dnsmark.Xdp.TxBatch

/-!
# The TX frames of a shared queue

`XdpTxState` of `src/transport/xdp/receiver.rs`: on the split path any number of sender threads share the
TX ring, the completion ring, the pool and the UMEM area of one NIC queue.  Each of the first three has a
lock of its own and the area has none, so between two locked calls a sender has frames in hand that are
in none of the rings: popped and being written, written and not yet submitted, refused by the ring, or
read off the completion ring and not yet back in the pool.

One event is one locked call of one sender, its write of one frame, or one move of the kernel on the other
end of a ring (as in `Frames`).  The pacing of `xdp_tx_sender_thread`, its gate, its counters and its table
decide only which of these events come next and are left free.  The fill and the RX ring belong to the
receiver thread of the queue alone; it also owns the `Umem`, which is unmapped when it returns.

The queue belongs to one NIC stack, but `XDP_TX_STATES` is one list for the process, so the senders may be
of other stacks (`Wiring`).  Each stack has a shutdown flag of its own.  Stacks are numbered, and number 0 is
the one that the queue and its receiver thread belong to.

Addresses move between places and are never copied (`Stepped.moves`, `Outside.moves`), so a frame that a
sender writes is in no other place.  From this follows what the locks are for: the NIC finds in every frame
the bytes that the sender of its descriptor has put there.
-/

namespace Dnsmark.Xdp.SharedQueue

open Dnsmark.Xdp.Frames (popFrames popFrames_add Fresh pending_of_head chunk_frameAddr)
open Dnsmark.Xdp.TxSetup (IsFrame frameAt_overwrite_of_ne frameAt_overwrite_self)

/-- What the senders of a queue share, and what has become of it. -/
structure Queue where
  tx : DescRing
  comp : AddrRing
  pool : List UInt64
  /-- The UMEM area. -/
  area : List UInt8
  /-- The descriptors that the kernel has taken and not completed. -/
  kernelTx : List XdpDesc
  /-- The flag of each stack. -/
  shutdown : ℕ → Bool
  /-- The receiver thread has not dropped the `Umem`. -/
  mapped : Bool
  /-- History: the descriptors the TX ring took, each with the frame its sender had built. -/
  submitted : List (XdpDesc × List UInt8)
  /-- History: the completed descriptors, each with the bytes that the NIC found. -/
  transmitted : List (XdpDesc × List UInt8)

/-- The bytes a descriptor stands for. -/
def Queue.read (q : Queue) (desc : XdpDesc) : List UInt8 := (frameAt q.area desc.addr).take desc.len.toNat

/-- The frame of a query. -/
def frameOf (e : Endpoints) (dns : List UInt8) : List UInt8 :=
  e.wireHeader (FrameHeader.ipTot dns.length) ((FrameHeader.newWithVlan e).cksum dns.length) e.srcPort
    (FrameHeader.udpLen dns.length) ++ dns

/-! ## The senders and the kernel -/

/-- Where in its loop a sender is, with the frames it has in hand. -/
inductive SenderPc where
  /-- Before the load of `shutdown`. -/
  | loopHead
  /-- Before `dequeue_all` on the completion ring. -/
  | recycle
  /-- `done` is read off the completion ring. -/
  | recycled (done : List UInt64)
  /-- Before frames are popped from the pool. -/
  | transmit
  /-- `addrs` are popped and still to be written, `frames` are written. -/
  | filling (addrs : List UInt64) (frames : List (XdpDesc × List UInt8))
  /-- The TX ring refused `addrs`. -/
  | refused (addrs : List UInt64)
  | exited
deriving DecidableEq, Repr

inductive SenderAct where
  | checkShutdown
  | dequeueAll
  | extendPool
  /-- The gate is shut: `continue`. -/
  | hold
  /-- Sleep until `next_send`, then load `shutdown` once more. -/
  | sleep
  /-- `xdp_tx_one` pops one frame, `xdp_tx_batch_inline` up to its headroom. -/
  | pop (count : ℕ)
  /-- `dns` behind the header, and the header. -/
  | write (dns : List UInt8)
  | produceTx
  | pushBack
deriving DecidableEq, Repr

/-- A move of the kernel, of the engine, or of the receiver thread of the queue. -/
inductive OutsideAct where
  /-- The kernel takes the oldest TX descriptor. -/
  | takesTx
  /-- The kernel has sent the frame of `desc`. -/
  | completes (desc : XdpDesc)
  | setShutdown (stack : ℕ)
  /-- The receiver thread has seen the flag of its stack and drops its socket. -/
  | receiverLeaves
deriving DecidableEq, Repr

/-- One access of a sender of stack number `stack` to what it shares. -/
def SenderPc.step (e : Endpoints) (stack : ℕ) (pc : SenderPc) (q : Queue) (a : SenderAct) :
    Option (SenderPc × Queue) :=
  match pc, a with
  | .loopHead, .checkShutdown => some (if q.shutdown stack then .exited else .recycle, q)
  | .recycle, .dequeueAll =>
    let done := dequeueAll q.comp
    some (if done.2.isEmpty then .transmit else .recycled done.2, { q with comp := done.1 })
  | .recycled done, .extendPool => some (.transmit, { q with pool := q.pool ++ done })
  | .transmit, .hold => some (.loopHead, q)
  | .transmit, .sleep => some (if q.shutdown stack then .exited else .transmit, q)
  | .transmit, .pop count =>
    let popped := popFrames (min count q.pool.length) q.pool
    some (if popped.2.isEmpty then .loopHead else .filling popped.2 [], { q with pool := popped.1 })
  | .filling (addr :: addrs) frames, .write dns =>
    -- an access to the unmapped area, or past the end of a frame, ends the process
    if q.mapped then
      match (FrameHeader.newWithVlan e).writeFrame (frameAt q.area addr) dns with
      | .ok (buf, total) =>
        some (.filling addrs (frames ++ [(⟨addr, UInt32.ofNat total, 0⟩, frameOf e dns)]),
          { q with area := Slice.overwrite q.area addr.toNat buf })
      | .error _ => none
    else none
  | .filling [] frames, .produceTx =>
    let produced := produceTx q.tx (frames.map Prod.fst)
    let rest := (frames.drop produced.2).map fun frame => frame.1.addr
    some (if rest.isEmpty then .loopHead else .refused rest,
      { q with tx := produced.1, submitted := q.submitted ++ frames.take produced.2 })
  | .refused addrs, .pushBack => some (.loopHead, { q with pool := q.pool ++ addrs })
  | _, _ => none

/-- One move of the others. -/
def Queue.outside (q : Queue) : OutsideAct → Option Queue
  | .takesTx => q.tx.pending.head?.map fun desc =>
      { q with tx := q.tx.take 1, kernelTx := desc :: q.kernelTx }
  | .completes desc =>
    if desc ∈ q.kernelTx ∧ 0 < q.comp.room then
      some { q with
        comp := q.comp.post desc.addr
        kernelTx := q.kernelTx.erase desc
        transmitted := q.transmitted ++ [(desc, q.read desc)] }
    else none
  | .setShutdown stack => some { q with shutdown := Function.update q.shutdown stack true }
  | .receiverLeaves => if q.shutdown 0 then some { q with mapped := false } else none

/-- The senders of a queue, indexed by `ι`, each with the number of its stack. -/
def senders (ι : Type) (e : Endpoints) (stack : ι → ℕ) :
    Threads ι SenderPc Queue SenderAct OutsideAct where
  step i pc q a := pc.step e (stack i) q a
  env _ q k := q.outside k

abbrev State (ι : Type) := Threads.State ι SenderPc Queue

/-- The queue as `extract_tx` hands it over: empty rings, and every TX frame in the pool. -/
def Queue.start (tx : DescRing) (comp : AddrRing) (area : List UInt8) : Queue where
  tx := tx
  comp := comp
  pool := (XskSocket.create comp comp tx tx).txPool
  area := area
  kernelTx := []
  shutdown _ := false
  mapped := true
  submitted := []
  transmitted := []

/-- Every sender before its loop. -/
def start (ι : Type) (tx : DescRing) (comp : AddrRing) (area : List UInt8) : State ι :=
  ⟨fun _ => .loopHead, .start tx comp area⟩

/-- What a step of a sender can be. -/
inductive Stepped (e : Endpoints) (stack : ℕ) (q : Queue) :
    SenderPc → SenderAct → SenderPc → Queue → Prop
  | checkShutdown :
      Stepped e stack q .loopHead .checkShutdown (if q.shutdown stack then .exited else .recycle) q
  | drain :
      Stepped e stack q .recycle .dequeueAll
        (if (dequeueAll q.comp).2.isEmpty then .transmit else .recycled (dequeueAll q.comp).2)
        { q with comp := (dequeueAll q.comp).1 }
  | extendPool (done : List UInt64) :
      Stepped e stack q (.recycled done) .extendPool .transmit { q with pool := q.pool ++ done }
  | hold : Stepped e stack q .transmit .hold .loopHead q
  | sleep : Stepped e stack q .transmit .sleep (if q.shutdown stack then .exited else .transmit) q
  | pop (count : ℕ) :
      Stepped e stack q .transmit (.pop count)
        (if (popFrames (min count q.pool.length) q.pool).2.isEmpty then .loopHead
          else .filling (popFrames (min count q.pool.length) q.pool).2 [])
        { q with pool := (popFrames (min count q.pool.length) q.pool).1 }
  | write (addr : UInt64) (addrs : List UInt64) (frames : List (XdpDesc × List UInt8)) (dns buf : List UInt8)
      (total : ℕ) (hmapped : q.mapped)
      (hwrite : (FrameHeader.newWithVlan e).writeFrame (frameAt q.area addr) dns = .ok (buf, total)) :
      Stepped e stack q (.filling (addr :: addrs) frames) (.write dns)
        (.filling addrs (frames ++ [(⟨addr, UInt32.ofNat total, 0⟩, frameOf e dns)]))
        { q with area := Slice.overwrite q.area addr.toNat buf }
  | submit (frames : List (XdpDesc × List UInt8)) (enqueued : ℕ) (tx : DescRing)
      (hproduce : produceTx q.tx (frames.map Prod.fst) = (tx, enqueued)) :
      Stepped e stack q (.filling [] frames) .produceTx
        (if ((frames.drop enqueued).map fun frame => frame.1.addr).isEmpty then .loopHead
          else .refused ((frames.drop enqueued).map fun frame => frame.1.addr))
        { q with tx := tx, submitted := q.submitted ++ frames.take enqueued }
  | pushBack (addrs : List UInt64) :
      Stepped e stack q (.refused addrs) .pushBack .loopHead { q with pool := q.pool ++ addrs }

theorem step_cases {e : Endpoints} {stack : ℕ} {q q' : Queue} {pc pc' : SenderPc} {a : SenderAct}
    (h : pc.step e stack q a = some (pc', q')) : Stepped e stack q pc a pc' q' := by
  unfold SenderPc.step at h
  split at h
  · cases h
    exact .checkShutdown
  · cases h
    exact .drain
  · cases h
    exact .extendPool _
  · cases h
    exact .hold
  · cases h
    exact .sleep
  · cases h
    exact .pop _
  · split at h
    · rename_i hmapped
      split at h
      · rename_i hwrite
        cases h
        exact .write _ _ _ _ _ _ hmapped hwrite
      · cases h
    · cases h
  · cases h
    exact .submit _ _ _ rfl
  · cases h
    exact .pushBack _
  · cases h

/-- What a move of the others can be. -/
inductive Outside (q : Queue) : OutsideAct → Queue → Prop
  | takesTx (desc : XdpDesc) (hhead : q.tx.pending.head? = some desc) :
      Outside q .takesTx { q with tx := q.tx.take 1, kernelTx := desc :: q.kernelTx }
  | completes (desc : XdpDesc) (hmem : desc ∈ q.kernelTx) (hroom : 0 < q.comp.room) :
      Outside q (.completes desc)
        { q with
          comp := q.comp.post desc.addr
          kernelTx := q.kernelTx.erase desc
          transmitted := q.transmitted ++ [(desc, q.read desc)] }
  | setShutdown (stack : ℕ) :
      Outside q (.setShutdown stack) { q with shutdown := Function.update q.shutdown stack true }
  | receiverLeaves (hshutdown : q.shutdown 0 = true) : Outside q .receiverLeaves { q with mapped := false }

theorem outside_cases {q q' : Queue} {k : OutsideAct} (h : q.outside k = some q') : Outside q k q' := by
  cases k with
  | takesTx =>
    obtain ⟨desc, hhead, rfl⟩ := Option.map_eq_some_iff.mp h
    exact .takesTx desc hhead
  | completes desc =>
    rw [Queue.outside] at h
    split at h
    · rename_i hguard
      obtain rfl := Option.some.inj h
      exact .completes desc hguard.1 hguard.2
    · cases h
  | setShutdown stack =>
    obtain rfl := Option.some.inj h
    exact .setShutdown stack
  | receiverLeaves =>
    rw [Queue.outside] at h
    split at h
    · rename_i hshutdown
      obtain rfl := Option.some.inj h
      exact .receiverLeaves hshutdown
    · cases h

/-! ## Where the frames are -/

/-- The addresses a sender has in hand. -/
def SenderPc.hand : SenderPc → List UInt64
  | .recycled done => done
  | .filling addrs frames => addrs ++ frames.map fun frame => frame.1.addr
  | .refused addrs => addrs
  | _ => []

theorem SenderPc.hand_ite_recycled (done : List UInt64) :
    SenderPc.hand (if done.isEmpty then .transmit else .recycled done) = done := by
  cases done <;> rfl

theorem SenderPc.hand_ite_filling (popped : List UInt64) :
    SenderPc.hand (if popped.isEmpty then .loopHead else .filling popped []) = popped := by
  cases popped with
  | nil => rfl
  | cons addr popped => exact List.append_nil _

theorem SenderPc.hand_ite_refused (rest : List UInt64) :
    SenderPc.hand (if rest.isEmpty then .loopHead else .refused rest) = rest := by
  cases rest <;> rfl

/-- The frames a sender has written and not yet submitted. -/
def SenderPc.frames : SenderPc → List (XdpDesc × List UInt8)
  | .filling _ frames => frames
  | _ => []

/-- The descriptors that are on their way to the NIC. -/
def Queue.inFlight (q : Queue) : List XdpDesc := q.tx.pending ++ q.kernelTx

/-- Descriptors, each with the bytes it stands for. -/
def Queue.found (q : Queue) (descs : List XdpDesc) : Multiset (XdpDesc × List UInt8) :=
  (descs.map fun desc => (desc, q.read desc) : List _)

theorem Queue.found_append (q : Queue) (descs descs' : List XdpDesc) :
    q.found (descs ++ descs') = q.found descs + q.found descs' := by
  rw [found, List.map_append, ← Multiset.coe_add]
  rfl

theorem Queue.found_perm (q : Queue) {descs descs' : List XdpDesc} (h : descs.Perm descs') :
    q.found descs = q.found descs' := Multiset.coe_eq_coe.mpr (h.map _)

/-- Where the address of a TX frame can be. -/
inductive Place (ι : Type) where
  | pool
  | txRing
  | kernelTx
  | compRing
  /-- In the hands of a sender. -/
  | hand (i : ι)
deriving DecidableEq, Repr

/-- The addresses in a place. -/
def held {ι : Type} (s : State ι) : Place ι → Multiset UInt64
  | .pool => s.shared.pool
  | .txRing => s.shared.tx.pending.map XdpDesc.addr
  | .kernelTx => s.shared.kernelTx.map XdpDesc.addr
  | .compRing => s.shared.comp.pending
  | .hand i => (s.threads i).hand

/-- The addresses in the rings, the pool and the kernel. -/
def Queue.addrs (q : Queue) : Multiset UInt64 :=
  q.pool + q.tx.pending.map XdpDesc.addr + q.kernelTx.map XdpDesc.addr + q.comp.pending

/-- All TX frames. -/
def txAddrs : List UInt64 := (List.range' ringSize (frameCount - ringSize)).map frameAddr

/-- The indices of both rings are those of bounded queues. -/
def Queue.Bounded (q : Queue) : Prop := q.tx.Bounded ∧ q.comp.Bounded

section Steps

variable {e : Endpoints} {stack : ℕ} {q q' : Queue} {pc pc' : SenderPc} {a : SenderAct} {k : OutsideAct}

/-- The TX ring takes a front part of the descriptors. -/
theorem produceTx_spec {tx tx' : DescRing} {descs : List XdpDesc} {enqueued : ℕ} (hb : tx.Bounded)
    (h : produceTx tx descs = (tx', enqueued)) :
    tx'.pending = tx.pending ++ descs.take enqueued ∧ tx'.Bounded := by
  have hspec := IndexRing.produce_spec false hb descs
  rw [produceTx] at h
  rwa [h] at hspec

theorem Stepped.bounded (h : Stepped e stack q pc a pc' q') (hb : q.Bounded) : q'.Bounded := by
  cases h with
  | drain => exact ⟨hb.1, q.comp.consumeAll_bounded⟩
  | submit frames enqueued tx hproduce => exact ⟨(produceTx_spec hb.1 hproduce).2, hb.2⟩
  | checkShutdown | extendPool | hold | sleep | pop | write | pushBack => exact hb

theorem Outside.bounded (h : Outside q k q') (hb : q.Bounded) : q'.Bounded := by
  cases h with
  | takesTx desc hhead => exact ⟨(pending_of_head hb.1 hhead).2, hb.2⟩
  | completes desc hmem hroom => exact ⟨hb.1, (IndexRing.post_spec hb.2 hroom desc.addr).2⟩
  | setShutdown | receiverLeaves => exact hb

/-- A sender moves addresses between its hands and the queue. -/
theorem Stepped.moves (h : Stepped e stack q pc a pc' q') (hb : q.Bounded) :
    q'.addrs + (pc'.hand : Multiset UInt64) = q.addrs + pc.hand := by
  cases h with
  | checkShutdown => cases q.shutdown stack <;> rfl
  | sleep => cases q.shutdown stack <;> rfl
  | hold => rfl
  | drain =>
    have hall : (dequeueAll q.comp).1.pending = [] := q.comp.consumeAll_pending
    simp only [Queue.addrs, hall, SenderPc.hand_ite_recycled]
    change _ + 0 + ((q.comp.pending : List UInt64) : Multiset UInt64) = _ + _ + 0
    abel
  | extendPool done =>
    simp only [Queue.addrs, SenderPc.hand, ← Multiset.coe_add]
    change _ + 0 = _
    abel
  | pop count =>
    simp only [Queue.addrs, SenderPc.hand_ite_filling]
    rw [← popFrames_add (min count q.pool.length) q.pool]
    change _ = _ + 0
    abel
  | write addr addrs frames dns buf total hmapped hwrite =>
    refine congrArg (q.addrs + ·) (Multiset.coe_eq_coe.mpr ?_)
    simp only [SenderPc.hand, List.map_append, List.map_cons, List.map_nil, ← List.append_assoc]
    exact List.perm_append_singleton addr _
  | submit frames enqueued tx hproduce =>
    have hsplit : frames.map (fun frame => frame.1.addr)
        = (frames.take enqueued).map (fun frame => frame.1.addr) ++
          (frames.drop enqueued).map fun frame => frame.1.addr := by
      rw [← List.map_append, List.take_append_drop]
    rw [SenderPc.hand_ite_refused]
    simp only [Queue.addrs, (produceTx_spec hb.1 hproduce).1, SenderPc.hand, List.nil_append]
    rw [hsplit, List.map_append, ← List.map_take, List.map_map, ← Multiset.coe_add, ← Multiset.coe_add]
    change _ + (_ + (((frames.take enqueued).map fun frame => frame.1.addr : List UInt64) :
      Multiset UInt64)) + _ + _ + _ = _
    abel
  | pushBack addrs =>
    simp only [Queue.addrs, SenderPc.hand, ← Multiset.coe_add]
    change _ + 0 = _
    abel

/-- The kernel moves addresses from the TX ring to the completion ring. -/
theorem Outside.moves (h : Outside q k q') (hb : q.Bounded) : q'.addrs = q.addrs := by
  cases h with
  | takesTx desc hhead =>
    simp only [Queue.addrs, (pending_of_head hb.1 hhead).1, List.map_cons, ← Multiset.cons_coe,
      ← Multiset.singleton_add]
    abel
  | completes desc hmem hroom =>
    have herase : (q.kernelTx.map XdpDesc.addr : Multiset UInt64)
        = desc.addr ::ₘ ((q.kernelTx.erase desc).map XdpDesc.addr : List UInt64) :=
      Multiset.coe_eq_coe.mpr ((List.perm_cons_erase hmem).map XdpDesc.addr)
    simp only [Queue.addrs, herase, (IndexRing.post_spec hb.2 hroom desc.addr).1, ← Multiset.coe_add,
      ← Multiset.singleton_add]
    change _ + _ + _ + (_ + {desc.addr}) = _
    abel
  | setShutdown | receiverLeaves => rfl

/-- Apart from a write, a step leaves the area alone and leaves no written frames in hand. -/
theorem Stepped.area_eq (h : Stepped e stack q pc a pc' q') (ha : ∀ dns, a ≠ .write dns) :
    q'.area = q.area ∧ pc'.frames = [] := by
  cases h with
  | checkShutdown => exact ⟨rfl, by cases q.shutdown stack <;> rfl⟩
  | sleep => exact ⟨rfl, by cases q.shutdown stack <;> rfl⟩
  | drain => exact ⟨rfl, by split <;> rfl⟩
  | pop count => exact ⟨rfl, by split <;> rfl⟩
  | submit frames enqueued tx hproduce => exact ⟨rfl, by split <;> rfl⟩
  | hold | extendPool | pushBack => exact ⟨rfl, rfl⟩
  | write addr addrs frames dns => exact absurd rfl (ha dns)

theorem Queue.read_of_area_eq (h : q'.area = q.area) : q'.read = q.read := by
  funext desc
  rw [read, h, read]

end Steps

/-! ## What is in a frame -/

theorem length_frameOf (e : Endpoints) (dns : List UInt8) :
    (frameOf e dns).length = (FrameHeader.newWithVlan e).outer + dns.length := by
  rw [frameOf, List.length_append, FrameHeader.length_wireHeader]

/-- A `write_frame` that does not panic: the frame, and the rest of what was there. -/
theorem writeFrame_ok {e : Endpoints} {out dns buf : List UInt8} {total : ℕ}
    (h : (FrameHeader.newWithVlan e).writeFrame out dns = .ok (buf, total)) :
    buf = frameOf e dns ++ out.drop total ∧ total = (frameOf e dns).length ∧ total ≤ out.length := by
  by_cases hfit : (FrameHeader.newWithVlan e).outer + dns.length ≤ out.length
  · rw [FrameHeader.writeFrame_eq e hfit] at h
    obtain ⟨rfl, rfl⟩ := Prod.mk.inj (Except.ok.inj h)
    exact ⟨rfl, (length_frameOf e dns).symm, hfit⟩
  · rw [FrameHeader.writeFrame, Slice.copyFromSlice, if_neg hfit] at h
    cases h

/-- What a sender writes to a frame is what its descriptor stands for. -/
theorem read_written {e : Endpoints} {q : Queue} {addr : UInt64} {dns buf : List UInt8} {total : ℕ}
    (haddr : IsFrame q.area addr)
    (hwrite : (FrameHeader.newWithVlan e).writeFrame (frameAt q.area addr) dns = .ok (buf, total)) :
    buf.length = frameSize ∧
      Queue.read { q with area := Slice.overwrite q.area addr.toNat buf } ⟨addr, UInt32.ofNat total, 0⟩
        = frameOf e dns := by
  obtain ⟨rfl, htotal, hle⟩ := writeFrame_ok hwrite
  have hframe : (frameAt q.area addr).length = frameSize := Slice.length_window haddr.2
  rw [hframe] at hle
  have hlen : (frameOf e dns ++ (frameAt q.area addr).drop total).length = frameSize := by
    rw [List.length_append, List.length_drop, hframe]
    omega
  have hnat : (UInt32.ofNat total).toNat = total := by
    rw [UInt32.toNat_ofNat', Nat.mod_eq_of_lt]
    simp only [frameSize] at hle
    omega
  refine ⟨hlen, ?_⟩
  rw [Queue.read, frameAt_overwrite_self haddr hlen, hnat, htotal, List.take_left]

/-! ## Every interleaving -/

section Interleaving

variable {ι : Type} {s s' : State ι} {e : Endpoints} {stack : ℕ}

/-- A descriptor on its way to the NIC is in the TX ring or in the kernel. -/
theorem exists_place_of_inFlight {desc : XdpDesc} (h : desc ∈ s.shared.inFlight) :
    ∃ p : Place ι, (∀ i, p ≠ .hand i) ∧ desc.addr ∈ held s p := by
  rcases List.mem_append.mp h with h | h
  · exact ⟨.txRing, by simp, List.mem_map_of_mem h⟩
  · exact ⟨.kernelTx, by simp, List.mem_map_of_mem h⟩

/-- The frame that a sender is about to write is in its hands. -/
theorem mem_hand {i : ι} {addr : UInt64} {addrs : List UInt64} {frames : List (XdpDesc × List UInt8)}
    (hpc : s.threads i = .filling (addr :: addrs) frames) : addr ∈ held s (.hand i) := by
  rw [held, hpc]
  exact List.mem_cons_self

variable [Fintype ι]

/-- Every place of the queue. -/
noncomputable def places (ι : Type) [Fintype ι] : List (Place ι) :=
  [.pool, .txRing, .kernelTx, .compRing] ++ Finset.univ.toList.map .hand

theorem mem_places (p : Place ι) : p ∈ places ι := by
  cases p with
  | hand i => exact List.mem_append_right _ (List.mem_map_of_mem (Finset.mem_toList.mpr (Finset.mem_univ i)))
  | pool | txRing | kernelTx | compRing => exact List.mem_append_left _ (by simp)

theorem total_places (s : State ι) :
    Custody.total (places ι) (held s) = s.shared.addrs + ∑ i, ((s.threads i).hand : Multiset UInt64) := by
  rw [places, Custody.total_append]
  congr 1
  · simp only [Custody.total_cons, Custody.total_nil, held, Queue.addrs, add_zero, add_assoc]
  · rw [Custody.total, List.map_map, Finset.sum_map_toList]
    rfl

/-- The rings are bounded, every address is accounted for, and what has been written stays. -/
structure Inv (s : State ι) : Prop where
  bounded : s.shared.Bounded
  length_area : s.shared.area.length = frameCount * frameSize
  total : s.shared.addrs + ∑ i, ((s.threads i).hand : Multiset UInt64) = txAddrs
  written : ∀ i, ∀ frame ∈ (s.threads i).frames, s.shared.read frame.1 = frame.2
  log : (s.shared.submitted : Multiset (XdpDesc × List UInt8))
    = s.shared.transmitted + s.shared.found s.shared.inFlight

theorem nodup_txAddrs : txAddrs.Nodup := by
  refine List.Nodup.map_on ?_ List.nodup_range'
  intro c hc c' hc' heq
  have hlt : ∀ x ∈ List.range' ringSize (frameCount - ringSize), x < frameCount := by
    intro x hx
    have := List.mem_range'_1.mp hx
    simp only [ringSize, frameCount] at *
    omega
  rw [← chunk_frameAddr (hlt c hc), ← chunk_frameAddr (hlt c' hc'), heq]

/-- A TX frame lies in the area. -/
theorem isFrame_of_mem {area : List UInt8} (hlen : area.length = frameCount * frameSize) {addr : UInt64}
    (h : addr ∈ txAddrs) : IsFrame area addr := by
  obtain ⟨c, hc, rfl⟩ := List.mem_map.mp h
  have hrange := List.mem_range'_1.mp hc
  have htoNat : (frameAddr c).toNat = c * frameSize := by
    rw [frameAddr, UInt64.toNat_ofNat', Nat.mod_eq_of_lt]
    simp only [frameSize, ringSize, frameCount] at *
    omega
  rw [IsFrame, htoNat, hlen]
  refine ⟨Dvd.intro_left c rfl, ?_⟩
  simp only [frameSize, ringSize, frameCount] at *
  omega

theorem Inv.nodup (h : Inv s) : (Custody.total (places ι) (held s)).Nodup := by
  rw [total_places, h.total]
  exact Multiset.coe_nodup.mpr nodup_txAddrs

theorem Inv.isFrame (h : Inv s) {p : Place ι} {addr : UInt64} (haddr : addr ∈ held s p) :
    IsFrame s.shared.area addr := by
  have hmem := Multiset.mem_of_le (Custody.le_total (mem_places p)) haddr
  rw [total_places, h.total] at hmem
  exact isFrame_of_mem h.length_area hmem

/-- Two places that hold the same address are one. -/
theorem Inv.place_unique (h : Inv s) {p p' : Place ι} {addr : UInt64} (hp : addr ∈ held s p)
    (hp' : addr ∈ held s p') : p = p' :=
  Custody.eq_of_mem h.nodup (mem_places p) (mem_places p') hp hp'

/-- A write to a frame is not seen through the descriptor of another. -/
theorem Inv.read_other (h : Inv s) {p p' : Place ι} {addr : UInt64} {desc : XdpDesc} {buf : List UInt8}
    (haddr : addr ∈ held s p) (hdesc : desc.addr ∈ held s p') (hne : addr ≠ desc.addr)
    (hbuf : buf.length = frameSize) :
    Queue.read { s.shared with area := Slice.overwrite s.shared.area addr.toNat buf } desc
      = s.shared.read desc := by
  rw [Queue.read, frameAt_overwrite_of_ne (h.isFrame haddr) (h.isFrame hdesc) hne hbuf, Queue.read]

section Write

variable {i : ι} {addr : UInt64} {addrs : List UInt64} {frames : List (XdpDesc × List UInt8)}
  {dns buf : List UInt8} {total : ℕ}

/-- A write shows in no frame that is on its way, -/
theorem Inv.read_inFlight (h : Inv s) (hpc : s.threads i = .filling (addr :: addrs) frames)
    (hbuf : buf.length = frameSize) {desc : XdpDesc} (hdesc : desc ∈ s.shared.inFlight) :
    Queue.read { s.shared with area := Slice.overwrite s.shared.area addr.toNat buf } desc
      = s.shared.read desc := by
  obtain ⟨p, hp, hmem⟩ := exists_place_of_inFlight hdesc
  refine h.read_other (mem_hand hpc) hmem ?_ hbuf
  intro heq
  exact hp i (h.place_unique hmem (heq ▸ mem_hand hpc))

/-- nor in one that another sender has written, -/
theorem Inv.read_frames_of_ne (h : Inv s) (hpc : s.threads i = .filling (addr :: addrs) frames)
    (hbuf : buf.length = frameSize) {j : ι} (hj : j ≠ i) {frame : XdpDesc × List UInt8}
    (hframe : frame ∈ (s.threads j).frames) :
    Queue.read { s.shared with area := Slice.overwrite s.shared.area addr.toNat buf } frame.1
      = s.shared.read frame.1 := by
  have hmem : frame.1.addr ∈ held s (.hand j) := by
    cases hpc' : s.threads j with
    | filling addrs' frames' =>
      rw [hpc'] at hframe
      rw [held, hpc']
      exact List.mem_append_right _ (List.mem_map_of_mem hframe)
    | loopHead | recycle | recycled | transmit | refused | exited =>
      rw [hpc'] at hframe
      cases hframe
  refine h.read_other (mem_hand hpc) hmem ?_ hbuf
  intro heq
  exact hj (Place.hand.inj (h.place_unique hmem (heq ▸ mem_hand hpc)))

/-- nor in one of its own. -/
theorem Inv.read_frames_self (h : Inv s) (hpc : s.threads i = .filling (addr :: addrs) frames)
    (hbuf : buf.length = frameSize) {frame : XdpDesc × List UInt8} (hframe : frame ∈ frames) :
    Queue.read { s.shared with area := Slice.overwrite s.shared.area addr.toNat buf } frame.1
      = s.shared.read frame.1 := by
  have hhand : (addr :: (addrs ++ frames.map fun frame => frame.1.addr)).Nodup := by
    have hnodup := Multiset.nodup_of_le (Custody.le_total (mem_places (.hand i))) h.nodup
    rw [held, hpc] at hnodup
    exact Multiset.coe_nodup.mp hnodup
  have hmem : frame.1.addr ∈ addrs ++ frames.map fun frame => frame.1.addr :=
    List.mem_append_right _ (List.mem_map_of_mem hframe)
  have hheld : frame.1.addr ∈ held s (.hand i) := by
    rw [held, hpc]
    exact List.mem_cons_of_mem _ hmem
  refine h.read_other (mem_hand hpc) hheld ?_ hbuf
  intro heq
  exact (List.nodup_cons.mp hhand).1 (heq ▸ hmem)

end Write

/-- What the senders have written stays as they wrote it. -/
theorem Inv.written_thread [DecidableEq ι] (h : Inv s) {i : ι} {a : SenderAct} {pc' : SenderPc} {q' : Queue}
    (hstep : Stepped e stack s.shared (s.threads i) a pc' q') :
    ∀ j, ∀ frame ∈ (Function.update s.threads i pc' j).frames, q'.read frame.1 = frame.2 := by
  refine (Function.forall_update_iff s.threads
    fun _ pc => ∀ frame ∈ pc.frames, q'.read frame.1 = frame.2).mpr ?_
  by_cases ha : ∃ dns, a = .write dns
  · obtain ⟨dns, rfl⟩ := ha
    generalize hpc : s.threads i = pc at hstep
    cases hstep with
    | write addr addrs frames _ buf total hmapped hwrite =>
      obtain ⟨hbuf, hread⟩ := read_written (h.isFrame (mem_hand hpc)) hwrite
      refine ⟨fun frame hframe => ?_, fun j hj frame hframe => ?_⟩
      · rcases List.mem_append.mp hframe with hold | hnew
        · rw [h.read_frames_self hpc hbuf hold]
          exact h.written i frame (hpc ▸ hold)
        · obtain rfl := List.mem_singleton.mp hnew
          exact hread
      · rw [h.read_frames_of_ne hpc hbuf hj hframe]
        exact h.written j frame hframe
  · obtain ⟨harea, hframes⟩ := hstep.area_eq fun dns hdns => ha ⟨dns, hdns⟩
    rw [Queue.read_of_area_eq harea, hframes]
    exact ⟨fun frame hframe => absurd hframe List.not_mem_nil, fun j _ => h.written j⟩

/-- A step of a sender keeps the account of what was submitted. -/
theorem Inv.log_thread (h : Inv s) {i : ι} {a : SenderAct} {pc' : SenderPc} {q' : Queue}
    (hstep : Stepped e stack s.shared (s.threads i) a pc' q') :
    (q'.submitted : Multiset (XdpDesc × List UInt8)) = q'.transmitted + q'.found q'.inFlight := by
  generalize hpc : s.threads i = pc at hstep
  cases hstep with
  | write addr addrs frames dns buf total hmapped hwrite =>
    obtain ⟨hbuf, -⟩ := read_written (h.isFrame (mem_hand hpc)) hwrite
    refine h.log.trans (congrArg _ (congrArg _ (List.map_congr_left fun desc hdesc => ?_)))
    rw [h.read_inFlight hpc hbuf hdesc]
  | submit frames enqueued tx hproduce =>
    have hpending := (produceTx_spec h.bounded.1 hproduce).1
    -- each accepted frame is found as its sender has written it
    have hfound : s.shared.found ((frames.map Prod.fst).take enqueued) = (frames.take enqueued : List _) := by
      rw [Queue.found, ← List.map_take, List.map_map]
      refine congrArg _ ((List.map_congr_left fun frame hframe => ?_).trans (List.map_id _))
      have hmem : frame ∈ (s.threads i).frames := hpc ▸ List.mem_of_mem_take hframe
      exact Prod.ext rfl (h.written i frame hmem)
    show ↑(s.shared.submitted ++ frames.take enqueued)
      = ↑s.shared.transmitted + s.shared.found (tx.pending ++ s.shared.kernelTx)
    rw [← Multiset.coe_add, h.log, hpending, Queue.inFlight, Queue.found_append, Queue.found_append,
      Queue.found_append, hfound]
    abel
  | checkShutdown | drain | extendPool | hold | sleep | pop | pushBack => exact h.log

/-- So does a move of the others: the NIC takes descriptors, and finds what they stand for. -/
theorem Inv.log_outside (h : Inv s) {k : OutsideAct} {q' : Queue} (hstep : Outside s.shared k q') :
    (q'.submitted : Multiset (XdpDesc × List UInt8)) = q'.transmitted + q'.found q'.inFlight := by
  cases hstep with
  | takesTx desc hhead =>
    refine h.log.trans (congrArg _ (s.shared.found_perm ?_))
    show (s.shared.tx.pending ++ s.shared.kernelTx).Perm
      ((s.shared.tx.take 1).pending ++ desc :: s.shared.kernelTx)
    rw [(pending_of_head h.bounded.1 hhead).1]
    exact List.perm_middle.symm
  | completes desc hmem hroom =>
    have hperm : s.shared.inFlight.Perm
        ([desc] ++ (s.shared.tx.pending ++ s.shared.kernelTx.erase desc)) :=
      ((List.perm_cons_erase hmem).append_left _).trans List.perm_middle
    show ↑s.shared.submitted = ↑(s.shared.transmitted ++ [(desc, s.shared.read desc)]) +
      s.shared.found (s.shared.tx.pending ++ s.shared.kernelTx.erase desc)
    rw [h.log, s.shared.found_perm hperm, Queue.found_append, ← Multiset.coe_add, add_assoc]
    rfl
  | setShutdown => exact h.log
  | receiverLeaves => exact h.log

theorem Stepped.length_area {q q' : Queue} {pc pc' : SenderPc} {a : SenderAct}
    (h : Stepped e stack q pc a pc' q')
    (hframe : ∀ addr ∈ pc.hand, IsFrame q.area addr) : q'.area.length = q.area.length := by
  cases h with
  | write addr addrs frames dns buf total hmapped hwrite =>
    have haddr := hframe addr List.mem_cons_self
    exact Slice.length_overwrite ((read_written haddr hwrite).1 ▸ haddr.2)
  | checkShutdown | drain | extendPool | hold | sleep | pop | submit | pushBack => rfl

variable {stackOf : ι → ℕ} [DecidableEq ι]

/-- Every step of a sender and every move of the others keeps the invariant. -/
theorem Inv.step (h : Inv s) {ev : Threads.Event ι SenderAct OutsideAct}
    (hstep : (senders ι e stackOf).machine.step s ev = some s') : Inv s' := by
  have htotal := (senders ι e stackOf).sum_conserved (W := Queue.addrs)
    (w := fun pc => (pc.hand : Multiset UInt64)) (I := Queue.Bounded)
    (fun _ _ _ _ _ _ hb hp => (step_cases hp).moves hb)
    (fun _ _ _ _ hb hk => (outside_cases hk).moves hb) h.bounded hstep
  obtain ⟨i, a, pc', q', -, hp, rfl⟩ | ⟨k, q', -, hk, rfl⟩ :=
    (senders ι e stackOf).machine_step_cases hstep
  · have hp := step_cases hp
    exact ⟨hp.bounded h.bounded,
      (hp.length_area fun _ haddr => h.isFrame (p := .hand i) haddr).trans h.length_area,
      htotal.trans h.total, h.written_thread hp, h.log_thread hp⟩
  · have hk := outside_cases hk
    have harea : q'.area = s.shared.area := by cases hk <;> rfl
    refine ⟨hk.bounded h.bounded, harea ▸ h.length_area, htotal.trans h.total, ?_, h.log_outside hk⟩
    rw [Queue.read_of_area_eq harea]
    exact h.written

theorem txPool_create (fill comp : AddrRing) (rx tx : DescRing) :
    (XskSocket.create fill comp rx tx).txPool = txAddrs := rfl

omit [DecidableEq ι] in
theorem Inv.start {tx : DescRing} {comp : AddrRing} {area : List UInt8} (htx : Fresh tx) (hcomp : Fresh comp)
    (harea : area.length = frameCount * frameSize) : Inv (start ι tx comp area) where
  bounded := ⟨htx.bounded, hcomp.bounded⟩
  length_area := harea
  total := by
    have hhands : ∑ i : ι, (((SharedQueue.start ι tx comp area).threads i).hand : Multiset UInt64) = 0 :=
      Finset.sum_const_zero
    rw [hhands, add_zero]
    simp only [SharedQueue.start, Queue.start, Queue.addrs, htx.pending, hcomp.pending, txPool_create,
      List.map_nil, Multiset.coe_nil, add_zero]
  written := fun i frame hframe => absurd hframe List.not_mem_nil
  log := by
    simp only [SharedQueue.start, Queue.start, Queue.inFlight, htx.pending]
    rfl

/-- The senders of a queue share its frames.  In every interleaving of any number of senders with every
such kernel, each TX frame is in exactly one place: no two senders ever write the same frame, and none
writes a frame that the ring, the NIC or the completion ring has.  Together, the bytes that the NIC has
found in the frames it completed, and the bytes now in the frames on their way, are those that the senders
put into the frames they submitted. -/
theorem shared_frames_intact (tx : DescRing) (comp : AddrRing) (area : List UInt8) (htx : Fresh tx)
    (hcomp : Fresh comp) (harea : area.length = frameCount * frameSize)
    (es : List (Threads.Event ι SenderAct OutsideAct)) (s : State ι)
    (hrun : (senders ι e stackOf).machine.run (start ι tx comp area) es = some s) :
    (∀ addr ∈ txAddrs, ∃ p, (held s p).count addr = 1 ∧ ∀ p', p' ≠ p → addr ∉ held s p') ∧
    (∀ i addr addrs frames, s.threads i = .filling (addr :: addrs) frames →
      addr ∈ txAddrs ∧ ∀ p, p ≠ .hand i → addr ∉ held s p) ∧
    (s.shared.submitted : Multiset (XdpDesc × List UInt8))
      = s.shared.transmitted + s.shared.found s.shared.inFlight := by
  have h : Inv s := (senders ι e stackOf).machine.run_invariant (fun _ _ _ ht hstep => ht.step hstep)
    (Inv.start htx hcomp harea) hrun
  have hmem : ∀ addr, addr ∈ txAddrs ↔ ∃ p, addr ∈ held s p := by
    intro addr
    rw [← Multiset.mem_coe, ← h.total, ← total_places, Custody.mem_total]
    exact exists_congr fun p => and_iff_right (mem_places p)
  refine ⟨fun addr haddr => ?_, fun i addr addrs frames hpc => ?_, h.log⟩
  · obtain ⟨p, hp⟩ := (hmem addr).mp haddr
    refine ⟨p, ?_, fun p' hne hp' => hne (h.place_unique hp' hp)⟩
    exact Multiset.count_eq_one_of_mem
      (Multiset.nodup_of_le (Custody.le_total (mem_places p)) h.nodup) hp
  · exact ⟨(hmem addr).mpr ⟨_, mem_hand hpc⟩, fun p hne hp => hne (h.place_unique hp (mem_hand hpc))⟩

end Interleaving

/-! ## One frame -/

section Sender

variable {ι : Type} {e : Endpoints} {stackOf : ι → ℕ} {i : ι} {q : Queue}

/-- Popping one frame from a pool that has one. -/
theorem popFrames_one {pool : List UInt64} (h : pool ≠ []) :
    popFrames (min 1 pool.length) pool = (pool.dropLast, [pool.getLast h]) := by
  have hmin : min 1 pool.length = 1 := Nat.min_eq_left (List.length_pos_iff.mpr h)
  rw [hmin, popFrames, List.getLast?_eq_some_getLast h]
  rfl

variable (e stackOf i q) in
/-- A sender begins an iteration, finds no completion and pops one frame. -/
theorem alone_run_pop (hflag : q.shutdown (stackOf i) = false) (hcomp : q.comp.pending = [])
    (hpool : q.pool ≠ []) :
    ((senders ι e stackOf).alone i).run (.loopHead, q) [.checkShutdown, .dequeueAll, .pop 1]
      = some (.filling [q.pool.getLast hpool] [],
        { q with comp := (dequeueAll q.comp).1, pool := q.pool.dropLast }) := by
  have hcheck : (senders ι e stackOf).step i .loopHead q .checkShutdown = some (.recycle, q) := by
    show some (if q.shutdown (stackOf i) then SenderPc.exited else .recycle, q) = _
    rw [hflag]
    rfl
  have hempty : (dequeueAll q.comp).2 = [] := hcomp
  have hdrain : (senders ι e stackOf).step i .recycle q .dequeueAll
      = some (.transmit, { q with comp := (dequeueAll q.comp).1 }) := by
    show some (if (dequeueAll q.comp).2.isEmpty then SenderPc.transmit else .recycled _, _) = _
    rw [hempty]
    rfl
  have hpop : (senders ι e stackOf).step i .transmit { q with comp := (dequeueAll q.comp).1 } (.pop 1)
      = some (.filling [q.pool.getLast hpool] [],
        { q with comp := (dequeueAll q.comp).1, pool := q.pool.dropLast }) := by
    show some (if (popFrames (min 1 q.pool.length) q.pool).2.isEmpty then SenderPc.loopHead
      else .filling (popFrames (min 1 q.pool.length) q.pool).2 [],
        { q with
          comp := (dequeueAll q.comp).1
          pool := (popFrames (min 1 q.pool.length) q.pool).1 }) = _
    rw [popFrames_one hpool]
    rfl
  exact ((senders ι e stackOf).alone i).run_trans ((senders ι e stackOf).alone_single hcheck)
    (((senders ι e stackOf).alone i).run_trans ((senders ι e stackOf).alone_single hdrain)
      ((senders ι e stackOf).alone_single hpop))

variable (e stackOf i q) in
/-- It writes a query to the frame and submits it to an empty ring. -/
theorem alone_run_submit {addr : UInt64} (dns : List UInt8) (hmapped : q.mapped = true)
    (haddr : IsFrame q.area addr) (hfit : (FrameHeader.newWithVlan e).outer + dns.length ≤ frameSize)
    (htx : Fresh q.tx) :
    ∃ q' desc, ((senders ι e stackOf).alone i).run (.filling [addr] [], q) [.write dns, .produceTx]
        = some (.loopHead, q') ∧
      q'.tx.pending = [desc] ∧ q'.tx.Bounded ∧ q'.kernelTx = q.kernelTx ∧ q'.comp = q.comp ∧
      q'.submitted = q.submitted ++ [(desc, frameOf e dns)] ∧ q'.transmitted = q.transmitted := by
  have hlen : (frameAt q.area addr).length = frameSize := Slice.length_window haddr.2
  obtain ⟨buf, hwrite⟩ : ∃ buf, (FrameHeader.newWithVlan e).writeFrame (frameAt q.area addr) dns
      = .ok (buf, (FrameHeader.newWithVlan e).outer + dns.length) :=
    ⟨_, FrameHeader.writeFrame_eq e (hfit.trans_eq hlen.symm)⟩
  let desc : XdpDesc := ⟨addr, UInt32.ofNat ((FrameHeader.newWithVlan e).outer + dns.length), 0⟩
  let written : Queue := { q with area := Slice.overwrite q.area addr.toNat buf }
  have hput : (senders ι e stackOf).step i (.filling [addr] []) q (.write dns)
      = some (.filling [] [(desc, frameOf e dns)], written) := by
    show (if q.mapped = true then _ else none) = _
    rw [if_pos hmapped, hwrite]
    rfl
  -- an empty ring takes one descriptor
  have htook : (produceTx q.tx [desc]).2 = 1 := by
    rw [produceTx, IndexRing.produce_snd _ htx.bounded, ← IndexRing.length_pending, htx.pending, htx.size]
    rfl
  have hproduce : produceTx q.tx [desc] = ((produceTx q.tx [desc]).1, 1) := Prod.ext rfl htook
  obtain ⟨hpending, hbounded⟩ := produceTx_spec htx.bounded hproduce
  have hsubmit : (senders ι e stackOf).step i (.filling [] [(desc, frameOf e dns)]) written .produceTx
      = some (.loopHead, { written with
          tx := (produceTx q.tx [desc]).1, submitted := q.submitted ++ [(desc, frameOf e dns)] }) := by
    simp only [senders, SenderPc.step, List.map_cons, List.map_nil]
    rw [htook]
    rfl
  rw [htx.pending] at hpending
  exact ⟨_, desc, ((senders ι e stackOf).alone i).run_trans ((senders ι e stackOf).alone_single hput)
    ((senders ι e stackOf).alone_single hsubmit), hpending, hbounded, rfl, rfl, rfl, rfl⟩

variable (e stackOf) in
/-- The kernel takes the only descriptor of the ring and completes it. -/
theorem run_kernel_sends [DecidableEq ι] (threads : ι → SenderPc) {desc : XdpDesc}
    (htx : q.tx.pending = [desc]) (hbounded : q.tx.Bounded) (hkernel : q.kernelTx = [])
    (hroom : 0 < q.comp.room) :
    ∃ s, (senders ι e stackOf).machine.run ⟨threads, q⟩ [.env .takesTx, .env (.completes desc)] = some s ∧
      s.shared.submitted = q.submitted ∧ s.shared.transmitted = q.transmitted ++ [(desc, q.read desc)] ∧
      s.shared.inFlight = [] := by
  have hhead : q.tx.pending.head? = some desc := by
    rw [htx]
    rfl
  have htakes : (senders ι e stackOf).env threads q .takesTx
      = some { q with tx := q.tx.take 1, kernelTx := [desc] } := by
    show q.tx.pending.head?.map _ = _
    rw [hhead, hkernel]
    rfl
  have hcompletes : (senders ι e stackOf).env threads { q with tx := q.tx.take 1, kernelTx := [desc] }
      (.completes desc) = some { q with
        tx := q.tx.take 1
        comp := q.comp.post desc.addr
        kernelTx := [desc].erase desc
        transmitted := q.transmitted ++ [(desc, q.read desc)] } :=
    if_pos ⟨List.mem_singleton.mpr rfl, hroom⟩
  have hrest := (pending_of_head hbounded hhead).1
  rw [htx, List.cons_eq_cons] at hrest
  refine ⟨_, Machine.run_trans _
    (Machine.run_single _ ((senders ι e stackOf).machine_step_env htakes))
    (Machine.run_single _ ((senders ι e stackOf).machine_step_env hcompletes)), rfl, rfl, ?_⟩
  show (q.tx.take 1).pending ++ [desc].erase desc = []
  rw [← hrest.2, List.erase_cons_head]
  rfl

end Sender

/-- The first of two senders writes a query of 17 octets to one frame and submits it, and the NIC sends
it. -/
def oneFrame (desc : XdpDesc) : List (Threads.Event (Fin 2) SenderAct OutsideAct) :=
  [.checkShutdown, .dequeueAll, .pop 1, .write (List.replicate 17 5), .produceTx].map (.thread 0) ++
    [.env .takesTx, .env (.completes desc)]

theorem txAddrs_ne_nil : txAddrs ≠ [] := by
  rw [txAddrs, Ne, List.map_eq_nil_iff, List.range'_eq_nil_iff]
  decide

theorem fresh_mapped {α : Type} (a : α) : Fresh (Frames.mapped a) := ⟨rfl, rfl⟩

/-- Two senders of a fresh queue. -/
def twoSenders (area : List UInt8) : State (Fin 2) :=
  start (Fin 2) (Frames.mapped ⟨0, 0, 0⟩) (Frames.mapped 0) area

theorem run_oneFrame (stackOf : Fin 2 → ℕ) {area : List UInt8}
    (harea : area.length = frameCount * frameSize) :
    ∃ desc found s, (senders (Fin 2) (link 53 none) stackOf).machine.run (twoSenders area) (oneFrame desc)
        = some s ∧
      s.shared.submitted = [(desc, frameOf (link 53 none) (List.replicate 17 5))] ∧
      s.shared.transmitted = [(desc, found)] ∧ s.shared.inFlight = [] := by
  have hpop := alone_run_pop (link 53 none) stackOf 0 (twoSenders area).shared rfl
    (fresh_mapped 0).pending txAddrs_ne_nil
  obtain ⟨q, desc, hsubmit, htx, hbounded, hkernel, hcomp, hsubmitted, htransmitted⟩ :=
    alone_run_submit (link 53 none) stackOf 0
      { (twoSenders area).shared with
        comp := (dequeueAll (Frames.mapped 0)).1, pool := txAddrs.dropLast }
      (List.replicate 17 5) rfl
      (isFrame_of_mem harea (List.getLast_mem txAddrs_ne_nil)) (by decide) (fresh_mapped _)
  have hrun := (senders (Fin 2) (link 53 none) stackOf).run_alone (s := twoSenders area) (i := 0)
    (((senders (Fin 2) (link 53 none) stackOf).alone 0).run_trans hpop hsubmit)
  have hroom : 0 < q.comp.room := by
    rw [hcomp]
    exact show 0 < (dequeueAll (Frames.mapped 0)).1.room by decide
  obtain ⟨s, hsent, hsame, hfound, hidle⟩ := run_kernel_sends (link 53 none) stackOf
    (Function.update (twoSenders area).threads 0 .loopHead) htx hbounded hkernel hroom
  refine ⟨desc, q.read desc, s, Machine.run_trans _ hrun hsent, hsame.trans hsubmitted, ?_, hidle⟩
  rw [hfound, htransmitted]
  rfl

/-- The NIC finds in the frame what the sender wrote. -/
theorem shared_frames_intact_oneFrame :
    ∃ desc s, (senders (Fin 2) (link 53 none) ![0, 1]).machine.run
        (twoSenders (List.replicate (frameCount * frameSize) 0)) (oneFrame desc) = some s ∧
      s.shared.transmitted = [(desc, frameOf (link 53 none) (List.replicate 17 5))] := by
  have harea : (List.replicate (frameCount * frameSize) (0 : UInt8)).length = frameCount * frameSize :=
    List.length_replicate
  obtain ⟨desc, found, s, hrun, hsubmitted, htransmitted, hidle⟩ := run_oneFrame ![0, 1] harea
  have hlog := (shared_frames_intact (Frames.mapped ⟨0, 0, 0⟩) (Frames.mapped 0) _ (fresh_mapped _)
    (fresh_mapped _) harea _ s hrun).2.2
  rw [hsubmitted, htransmitted, hidle] at hlog
  refine ⟨desc, s, hrun, ?_⟩
  rw [htransmitted]
  exact (List.singleton_perm_singleton.mp (Multiset.coe_eq_coe.mp hlog)).symm ▸ rfl

/-! ## The area and its owner

The area is unmapped when the receiver thread of the queue returns.  It returns for the flag of its own
stack, a sender for the flag of its stack, and nothing makes the receiver wait for any sender. -/

section Owner

variable {ι : Type} {e : Endpoints} {stackOf : ι → ℕ}

/-- A sender between two iterations. -/
def SenderPc.Quiet (pc : SenderPc) : Prop := pc = .loopHead ∨ pc = .exited

/-- A sender that has returned, or that will find the flag of its stack when it looks at it next. -/
def Finished (stack : ℕ) (q : Queue) (pc : SenderPc) : Prop :=
  pc = .exited ∨ pc = .loopHead ∧ q.shutdown stack = true

/-- The next act of sender `i` is the write of a frame. -/
def AboutToWrite (s : State ι) (i : ι) : Prop :=
  ∃ addr addrs frames, s.threads i = .filling (addr :: addrs) frames

/-- The receiver leaves only between two iterations of every sender. -/
def ReceiverPauses (s : State ι) (ev : Threads.Event ι SenderAct OutsideAct) : Prop :=
  ev = .env .receiverLeaves → ∀ i, (s.threads i).Quiet

/-- The receiver leaves only when every sender has finished. -/
def ReceiverWaits (stackOf : ι → ℕ) (s : State ι) (ev : Threads.Event ι SenderAct OutsideAct) : Prop :=
  ev = .env .receiverLeaves → ∀ i, Finished (stackOf i) s.shared (s.threads i)

/-- Once the area is unmapped, every sender has finished. -/
def Abandoned (stackOf : ι → ℕ) (s : State ι) : Prop :=
  s.shared.mapped = false → ∀ i, Finished (stackOf i) s.shared (s.threads i)

/-- A flag stays. -/
theorem Finished.mono {stack : ℕ} {q q' : Queue} {pc : SenderPc} (h : Finished stack q pc)
    (hflag : q.shutdown stack = true → q'.shutdown stack = true) : Finished stack q' pc :=
  h.imp id fun h => ⟨h.1, hflag h.2⟩

/-- A sender that finds the flag at its loop head leaves. -/
theorem Stepped.finished {stack : ℕ} {q q' : Queue} {pc pc' : SenderPc} {a : SenderAct}
    (h : Stepped e stack q pc a pc' q') (hpc : Finished stack q pc) : Finished stack q' pc' := by
  rcases hpc with rfl | ⟨rfl, hflag⟩
  · cases h
  · cases h with
    | checkShutdown =>
      rw [if_pos hflag]
      exact .inl rfl

/-- No step of a sender touches the flags. -/
theorem Stepped.flags {stack : ℕ} {q q' : Queue} {pc pc' : SenderPc} {a : SenderAct}
    (h : Stepped e stack q pc a pc' q') : q'.mapped = q.mapped ∧ q'.shutdown = q.shutdown := by
  cases h <;> exact ⟨rfl, rfl⟩

variable [DecidableEq ι]

theorem Abandoned.step {s s' : State ι} {ev : Threads.Event ι SenderAct OutsideAct}
    (h : Abandoned stackOf s) (hwaits : ReceiverWaits stackOf s ev)
    (hstep : (senders ι e stackOf).machine.step s ev = some s') : Abandoned stackOf s' := by
  obtain ⟨i, a, pc', q', -, hp, rfl⟩ | ⟨k, q', rfl, hk, rfl⟩ :=
    (senders ι e stackOf).machine_step_cases hstep
  · have hp := step_cases hp
    intro hmapped
    have hfinished := h (hp.flags.1 ▸ hmapped)
    refine (Function.forall_update_iff s.threads fun j pc => Finished (stackOf j) q' pc).mpr
      ⟨hp.finished (hfinished i), fun j _ => (hfinished j).mono ?_⟩
    rw [hp.flags.2]
    exact id
  · cases outside_cases hk with
    | takesTx => exact h
    | completes => exact h
    | setShutdown stack =>
      intro hmapped i
      refine (h hmapped i).mono fun hflag => ?_
      by_cases hstack : stackOf i = stack
      · simp only [hstack, Function.update_self]
      · simp only [Function.update_of_ne hstack, hflag]
    | receiverLeaves => exact fun _ => hwaits rfl

variable (e stackOf) in
/-- The sender pops a frame, then the engine stores the flag of the queue's stack and the receiver
returns. -/
theorem run_unmap_in_iteration (i : ι) (tx : DescRing) {comp : AddrRing} (area : List UInt8)
    (hcomp : Fresh comp) :
    ∃ es, ∃ s : State ι, (senders ι e stackOf).machine.run (start ι tx comp area) es = some s ∧
      AboutToWrite s i ∧ s.shared.mapped = false := by
  have hpop := alone_run_pop e stackOf i (.start tx comp area) rfl hcomp.pending txAddrs_ne_nil
  have hrun := (senders ι e stackOf).run_alone (s := start ι tx comp area) (i := i) hpop
  refine ⟨_ ++ [.env (.setShutdown 0), .env .receiverLeaves], _,
    (senders ι e stackOf).machine.run_trans hrun rfl, ?_, rfl⟩
  exact ⟨_, [], [], Function.update_self i _ _⟩

variable (e) in
/-- The receiver returns while all senders are between two iterations, and a sender of another stack
begins the next one. -/
theorem run_unmap_between {i : ι} (hstack : stackOf i ≠ 0) (tx : DescRing) {comp : AddrRing}
    (area : List UInt8) (hcomp : Fresh comp) :
    ∃ es, ∃ s : State ι, (senders ι e stackOf).machine.run (start ι tx comp area) es = some s ∧
      (senders ι e stackOf).machine.Meets ReceiverPauses (start ι tx comp area) es ∧
      AboutToWrite s i ∧ s.shared.mapped = false := by
  let q : Queue :=
    { Queue.start tx comp area with
      shutdown := Function.update (fun _ => false) 0 true
      mapped := false }
  have hflag : q.shutdown (stackOf i) = false := Function.update_of_ne hstack true fun _ => false
  have hpop := alone_run_pop e stackOf i q hflag hcomp.pending txAddrs_ne_nil
  have hrun := (senders ι e stackOf).run_alone (s := ⟨fun _ => .loopHead, q⟩) (i := i) hpop
  have hunmap : (senders ι e stackOf).machine.run (start ι tx comp area)
      [.env (.setShutdown 0), .env .receiverLeaves] = some ⟨fun _ => .loopHead, q⟩ := rfl
  refine ⟨_, _, (senders ι e stackOf).machine.run_trans hunmap hrun, ?_, ?_, rfl⟩
  · -- only the second event is the receiver's
    refine Machine.meets_cons _ rfl (fun h => by cases h) (Machine.meets_cons _ rfl ?_ ?_)
    · exact fun _ _ => .inl rfl
    · refine Machine.meets_of_forall_mem _ (fun ev hev s h => ?_) _
      obtain ⟨a, -, rfl⟩ := List.mem_map.mp hev
      cases h
  · exact ⟨_, [], [], Function.update_self i _ _⟩

/-- Whether a write finds the area mapped is up to the schedule.  If the receiver of the queue leaves only
when every sender has returned or is between two iterations with the flag of its own stack stored, no
sender of any interleaving is ever about to write to an unmapped area.  Nothing in the source makes the
receiver wait: every sender has an interleaving in which it is about to, and a sender of another stack has
one even if the receiver leaves only between two iterations of every sender. -/
theorem unmap_races_with_writes (tx : DescRing) (comp : AddrRing) (area : List UInt8) (hcomp : Fresh comp) :
    (∀ es (s : State ι), (senders ι e stackOf).machine.run (start ι tx comp area) es = some s →
      (senders ι e stackOf).machine.Meets (ReceiverWaits stackOf) (start ι tx comp area) es →
      ∀ i, AboutToWrite s i → s.shared.mapped = true) ∧
    (∀ i, ∃ es, ∃ s : State ι, (senders ι e stackOf).machine.run (start ι tx comp area) es = some s ∧
      AboutToWrite s i ∧ s.shared.mapped = false) ∧
    ∀ i, stackOf i ≠ 0 →
      ∃ es, ∃ s : State ι, (senders ι e stackOf).machine.run (start ι tx comp area) es = some s ∧
        (senders ι e stackOf).machine.Meets ReceiverPauses (start ι tx comp area) es ∧
        AboutToWrite s i ∧ s.shared.mapped = false := by
  refine ⟨?_, fun i => run_unmap_in_iteration e stackOf i tx area hcomp,
    fun i hstack => run_unmap_between e hstack tx area hcomp⟩
  intro es s hrun hwaits i ⟨addr, addrs, frames, hpc⟩
  have habandoned : Abandoned stackOf s := (senders ι e stackOf).machine.run_invariant_of_meets
    (fun _ _ _ h hC hstep => h.step hC hstep) (fun hmapped => Bool.noConfusion hmapped) hwaits hrun
  by_contra hmapped
  rcases habandoned (Bool.eq_false_iff.mpr hmapped) i with hexited | ⟨hhead, -⟩
  · rw [hpc] at hexited
    cases hexited
  · rw [hpc] at hhead
    cases hhead

/-- Two senders, the second of another stack: it goes on after the receiver has left. -/
theorem unmap_races_with_writes_two :
    ∃ es, ∃ s : State (Fin 2), (senders (Fin 2) (link 53 none) ![0, 1]).machine.run (twoSenders []) es
        = some s ∧
      (senders (Fin 2) (link 53 none) ![0, 1]).machine.Meets ReceiverPauses (twoSenders []) es ∧
      AboutToWrite s 1 ∧ s.shared.mapped = false :=
  (unmap_races_with_writes (Frames.mapped ⟨0, 0, 0⟩) (Frames.mapped 0) [] (fresh_mapped 0)).2.2 1
    (by decide)

end Owner

end Dnsmark.Xdp.SharedQueue
