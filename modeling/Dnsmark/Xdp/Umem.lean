import Dnsmark.Common.Spsc

/-!
# UMEM rings

The four AF_XDP rings of `src/transport/xdp/umem.rs`.  The fill and the completion ring carry UMEM
offsets (`AddrRing`), the RX and the TX ring carry descriptors (`DescRing`); both are an `IndexRing`
with 32-bit indices, mapped with `mask = size - 1`.  The two types differ in one place: `enqueue_batch`
stores the producer index also when it accepted nothing, `produce_tx` does not.

The type of a ring leaves out `zeroed()`, the stub that is left behind when a ring is moved to another
thread; nothing is called on it.
-/

namespace Dnsmark.Xdp

/-- `FRAME_SIZE`: the bytes of one UMEM chunk. -/
def frameSize : ℕ := 2048

/-- `FRAME_COUNT`. -/
def frameCount : ℕ := 16384

/-- `RING_SIZE`, of each of the four rings. -/
def ringSize : ℕ := 4096

structure XdpDesc where
  addr : UInt64
  len : UInt32
  options : UInt32
deriving DecidableEq, Repr

/-- A fill or completion ring. -/
abbrev AddrRing := IndexRing 32 UInt64

/-- An RX or TX ring. -/
abbrev DescRing := IndexRing 32 XdpDesc

/-- `mmap_addr_ring` and `mmap_desc_ring`: a ring as the kernel hands it out, with both indices at
`index`. -/
def mmapRing {α : Type} (size : BitVec 32) (hsize : ∃ k < 32, size.toNat = 2 ^ k) (index : BitVec 32)
    (descs : ℕ → α) : IndexRing 32 α :=
  ⟨size, size - 1#32, index, index, descs, hsize, rfl⟩

/-- `AddrRing::enqueue_batch`: the ring after it and how many addresses were accepted. -/
def enqueueBatch (ring : AddrRing) (addrs : List UInt64) : AddrRing × ℕ := ring.produce true addrs

/-- `AddrRing::dequeue_all`. -/
def dequeueAll (ring : AddrRing) : AddrRing × List UInt64 := ring.consumeAll

/-- `DescRing::produce_tx`. -/
def produceTx (ring : DescRing) (descs : List XdpDesc) : DescRing × ℕ := ring.produce false descs

/-- `DescRing::consume_rx`. -/
def consumeRx (ring : DescRing) : DescRing × List XdpDesc := ring.consumeAll

/-! ## Both rings are bounded queues -/

/-- Which of the two ring types. -/
inductive RingKind where
  | addr
  | desc
deriving DecidableEq, Repr

namespace RingKind

/-- What a ring of this kind carries. -/
abbrev Entry : RingKind → Type
  | addr => UInt64
  | desc => XdpDesc

/-- The produce call of the kind. -/
def produce : (kind : RingKind) → IndexRing 32 kind.Entry → List kind.Entry → IndexRing 32 kind.Entry × ℕ
  | addr => enqueueBatch
  | desc => produceTx

/-- The consume call of the kind. -/
def consume : (kind : RingKind) → IndexRing 32 kind.Entry → IndexRing 32 kind.Entry × List kind.Entry
  | addr => dequeueAll
  | desc => consumeRx

/-- `enqueue_batch` stores the producer index in any case. -/
def storesEmpty : RingKind → Bool
  | addr => true
  | desc => false

theorem produce_eq (kind : RingKind) : kind.produce = IndexRing.produce kind.storesEmpty := by
  cases kind <;> rfl

theorem consume_eq (kind : RingKind) : kind.consume = IndexRing.consumeAll := by
  cases kind <;> rfl

/-- The calls on a ring of this kind, one access at a time, and a peer on either side. -/
def machine (kind : RingKind) : Machine (Spsc.State 32 kind.Entry) (Spsc.Event kind.Entry) :=
  Spsc.machine kind.storesEmpty

end RingKind

/-- What a ring that is a bounded queue does, in one state of its two sides. -/
structure BoundedFifo (kind : RingKind) (s : Spsc.State 32 kind.Entry) : Prop where
  /-- The indices stay within the size of the ring. -/
  occupancy_le : s.ring.occupancy ≤ s.ring.size.toNat
  /-- Nothing is lost, duplicated or reordered. -/
  fifo : s.consumed ++ s.ring.pending = s.accepted
  /-- A produce call that starts here accepts as much of its batch as there is room for, … -/
  accepts : ∀ batch s', kind.machine.step s (.loadProduce batch) = some s' →
    s'.producer = .writing s.ring.producer batch
      (min batch.length (s.ring.size.toNat - s.ring.occupancy)) 0
  /-- … stores only into slots that hold no pending entry … -/
  fresh : ∀ prod batch n i, s.producer = .writing prod batch n i → i < n →
    ∀ j < s.ring.occupancy,
      s.ring.slot (prod + BitVec.ofNat 32 i) ≠ s.ring.slot (s.ring.consumer + BitVec.ofNat 32 j)
  /-- … and in the end has added that prefix of its batch. -/
  publishes : ∀ prod batch n i s', s.producer = .writing prod batch n i →
    kind.machine.step s .publish = some s' → s'.accepted = s.accepted ++ batch.take n
  /-- A produce call that runs without interruption. -/
  produce : ∀ batch,
    (kind.produce s.ring batch).2 = min batch.length (s.ring.size.toNat - s.ring.occupancy) ∧
    (kind.produce s.ring batch).1.pending
      = s.ring.pending ++ batch.take (min batch.length (s.ring.size.toNat - s.ring.occupancy))
  /-- A consume call that runs without interruption. -/
  consume : (kind.consume s.ring).2 = s.ring.pending ∧ (kind.consume s.ring).1.pending = []

/-- The invariant of the two sides gives all of it. -/
theorem BoundedFifo.of_inv {kind : RingKind} {s : Spsc.State 32 kind.Entry} (h : Spsc.Inv s) :
    BoundedFifo kind s where
  occupancy_le := h.bounded
  fifo := h.fifo
  accepts batch s' hstep := by
    cases Spsc.step_cases hstep with
    | loadProduce =>
      simp only
      rw [s.ring.room_eq h.bounded]
  fresh prod batch n i hp hin j hj := h.write_fresh hp hin hj
  publishes prod batch n i s' hp hstep := by
    cases Spsc.step_cases hstep with
    | publish prod' batch' n' hp' =>
      obtain ⟨-, rfl, rfl, -⟩ := Spsc.Producer.writing.inj (hp.symm.trans hp')
      rfl
  produce batch := by
    have hspec := (IndexRing.produce_spec kind.storesEmpty h.bounded batch).1
    rw [IndexRing.produce_snd _ h.bounded] at hspec
    rw [kind.produce_eq]
    exact ⟨IndexRing.produce_snd _ h.bounded batch, hspec⟩
  consume := by
    rw [kind.consume_eq]
    exact ⟨rfl, s.ring.consumeAll_pending⟩

/-- Both rings refine a bounded queue: for every power-of-two size up to `2 ^ 31`, from every common
value of the two indices, after every interleaving of calls and peers. -/
theorem rings_refine_bounded_fifo (kind : RingKind) (size : BitVec 32)
    (hsize : ∃ k < 32, size.toNat = 2 ^ k) (index : BitVec 32) (descs : ℕ → kind.Entry)
    (es : List (Spsc.Event kind.Entry)) (s : Spsc.State 32 kind.Entry)
    (hrun : kind.machine.run (.atRest (mmapRing size hsize index descs)) es = some s) :
    s.ring.size = size ∧ BoundedFifo kind s := by
  have hempty : (mmapRing size hsize index descs).Bounded := by
    simp [IndexRing.Bounded, IndexRing.occupancy, mmapRing]
  exact ⟨Spsc.run_size hrun, .of_inv ((Spsc.Inv.atRest hempty).run hrun)⟩

theorem two_isPow : ∃ k < 32, (2#32).toNat = 2 ^ k := ⟨1, by decide, rfl⟩

/-- Three addresses are offered to a ring of two slots, in the middle of which the kernel takes one. -/
def offerThree : List (Spsc.Event UInt64) :=
  [.loadProduce [7, 8, 9], .write, .write, .publish, .loadProduce [10, 11], .peerConsume 1, .publish,
    .loadProduce [10, 11], .write, .publish]

/-- On a ring whose indices are about to wrap. -/
theorem rings_refine_bounded_fifo_offerThree :
    ∃ s, RingKind.addr.machine.run
        (.atRest (mmapRing 2#32 two_isPow 0xffffffff#32 fun _ => (0 : UInt64))) offerThree = some s ∧
      s.accepted = [7, 8, 10] ∧ s.consumed = [7] ∧ s.ring.producer = 2#32 ∧ BoundedFifo .addr s :=
  ⟨_, rfl, rfl, rfl, rfl,
    (rings_refine_bounded_fifo .addr 2#32 two_isPow 0xffffffff#32 (fun _ => (0 : UInt64)) offerThree _
      rfl).2⟩

end Dnsmark.Xdp
