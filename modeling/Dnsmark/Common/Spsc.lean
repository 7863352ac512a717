import Dnsmark.Common.IndexRing
import Dnsmark.Common.Machine

/-!
# A producer and a consumer on one ring

`Spsc` runs the two sides of an `IndexRing`: each is idle or in the middle of a call, and where a side
is not a call but a peer, the peer works on the slots and its index directly.  One event is one access
to the shared ring, so a run is one interleaving of the two sides.

A produce call reads the two indices, stores the entries it accepts and only then advances the producer
index; a consume call reads the indices, reads the entries and then advances the consumer index.  The
invariant (`Inv`) says that what was consumed, followed by what is pending, is what was accepted, and
what each side may rely on in the middle of its call: a producer's room can only grow, a consumer's
entries stay where they are.

A produce call that nobody interrupts is the function `IndexRing.produce` (`run_produce`), which gives it
its specification.
-/

namespace Spsc

variable {w : ℕ} {α : Type*}

/-- Where the producer is: in a call it has read the producer index `prod`, accepted the first `n`
entries of `batch` and stored `i` of them. -/
inductive Producer (w : ℕ) (α : Type*) where
  | idle
  | writing (prod : BitVec w) (batch : List α) (n i : ℕ)

/-- Where the consumer is: in a call it has read the consumer index `cons`, found `available` entries
and read `out`. -/
inductive Consumer (w : ℕ) (α : Type*) where
  | idle
  | reading (cons : BitVec w) (available : ℕ) (out : List α)

/-- A ring and its two sides; `accepted` and `consumed` record everything that went in and out. -/
structure State (w : ℕ) (α : Type*) where
  ring : IndexRing w α
  producer : Producer w α
  consumer : Consumer w α
  accepted : List α
  consumed : List α

/-- One access to the ring. -/
inductive Event (α : Type*) where
  /-- A produce call reads the two indices. -/
  | loadProduce (batch : List α)
  | write
  | publish
  /-- A consume call reads the two indices. -/
  | loadConsume
  | read
  | release
  /-- A peer on the producer side stores one entry and advances its index. -/
  | peerProduce (a : α)
  /-- A peer on the consumer side takes the oldest `n` entries. -/
  | peerConsume (n : ℕ)

/-- Both sides idle at a ring; what is pending counts as accepted. -/
def State.atRest (r : IndexRing w α) : State w α := ⟨r, .idle, .idle, r.pending, []⟩

open IndexRing

/-- The access `e`, if the side it belongs to is at that point. -/
def step (storeEmpty : Bool) (s : State w α) (e : Event α) : Option (State w α) :=
  match e, s.producer, s.consumer with
  | .loadProduce batch, .idle, _ =>
    some { s with producer := .writing s.ring.producer batch (min batch.length s.ring.room) 0 }
  | .write, .writing prod batch n i, _ =>
    if i < n then
      batch[i]?.map fun a => { s with
        ring := s.ring.write (prod + BitVec.ofNat w i) a
        producer := .writing prod batch n (i + 1) }
    else none
  | .publish, .writing prod batch n i, _ =>
    if i = n then
      some { s with
        ring := if storeEmpty || 0 < n then s.ring.publish (prod + BitVec.ofNat w n) else s.ring
        producer := .idle
        accepted := s.accepted ++ batch.take n }
    else none
  | .loadConsume, _, .idle =>
    some { s with consumer := .reading s.ring.consumer s.ring.occupancy [] }
  | .read, _, .reading cons available out =>
    if out.length < available then
      let a := s.ring.descs (s.ring.slot (cons + BitVec.ofNat w out.length))
      some { s with consumer := .reading cons available (out ++ [a]) }
    else none
  | .release, _, .reading cons available out =>
    if out.length = available then
      some { s with
        ring := if 0 < available then s.ring.release (cons + BitVec.ofNat w available) else s.ring
        consumer := .idle
        consumed := s.consumed ++ out }
    else none
  | .peerProduce a, .idle, _ =>
    if 0 < s.ring.room then
      some { s with
        ring := s.ring.post a
        accepted := s.accepted ++ [a] }
    else none
  | .peerConsume n, _, .idle =>
    if n ≤ s.ring.occupancy then
      some { s with
        ring := s.ring.take n
        consumed := s.consumed ++ s.ring.pending.take n }
    else none
  | _, _, _ => none

/-- A ring with its two sides. -/
def machine (storeEmpty : Bool) : Machine (State w α) (Event α) := ⟨step storeEmpty⟩

/-- What a step can be. -/
inductive Stepped (storeEmpty : Bool) (s : State w α) : Event α → State w α → Prop
  | loadProduce (batch : List α) (hp : s.producer = .idle) :
      Stepped storeEmpty s (.loadProduce batch)
        { s with producer := .writing s.ring.producer batch (min batch.length s.ring.room) 0 }
  | write (prod : BitVec w) (batch : List α) (n i : ℕ) (a : α) (hp : s.producer = .writing prod batch n i)
      (hin : i < n) (ha : batch[i]? = some a) :
      Stepped storeEmpty s .write
        { s with
          ring := s.ring.write (prod + BitVec.ofNat w i) a
          producer := .writing prod batch n (i + 1) }
  | publish (prod : BitVec w) (batch : List α) (n : ℕ) (hp : s.producer = .writing prod batch n n) :
      Stepped storeEmpty s .publish
        { s with
          ring := if storeEmpty || 0 < n then s.ring.publish (prod + BitVec.ofNat w n) else s.ring
          producer := .idle
          accepted := s.accepted ++ batch.take n }
  | loadConsume (hc : s.consumer = .idle) :
      Stepped storeEmpty s .loadConsume
        { s with consumer := .reading s.ring.consumer s.ring.occupancy [] }
  | read (cons : BitVec w) (available : ℕ) (out : List α) (hc : s.consumer = .reading cons available out)
      (hlt : out.length < available) :
      Stepped storeEmpty s .read
        { s with
          consumer := .reading cons available
            (out ++ [s.ring.descs (s.ring.slot (cons + BitVec.ofNat w out.length))]) }
  | release (cons : BitVec w) (out : List α) (hc : s.consumer = .reading cons out.length out) :
      Stepped storeEmpty s .release
        { s with
          ring := if 0 < out.length then s.ring.release (cons + BitVec.ofNat w out.length) else s.ring
          consumer := .idle
          consumed := s.consumed ++ out }
  | peerProduce (a : α) (hp : s.producer = .idle) (hroom : 0 < s.ring.room) :
      Stepped storeEmpty s (.peerProduce a)
        { s with
          ring := s.ring.post a
          accepted := s.accepted ++ [a] }
  | peerConsume (n : ℕ) (hc : s.consumer = .idle) (hn : n ≤ s.ring.occupancy) :
      Stepped storeEmpty s (.peerConsume n)
        { s with
          ring := s.ring.take n
          consumed := s.consumed ++ s.ring.pending.take n }

theorem step_cases {storeEmpty : Bool} {s s' : State w α} {e : Event α}
    (h : step storeEmpty s e = some s') : Stepped storeEmpty s e s' := by
  unfold step at h
  split at h
  · cases h
    exact .loadProduce _ ‹_›
  · split at h
    · obtain ⟨a, ha, rfl⟩ := Option.map_eq_some_iff.mp h
      exact .write _ _ _ _ a ‹_› ‹_› ha
    · cases h
  · split at h
    · rename_i hin
      subst hin
      cases h
      exact .publish _ _ _ ‹_›
    · cases h
  · cases h
    exact .loadConsume ‹_›
  · split at h
    · cases h
      exact .read _ _ _ ‹_› ‹_›
    · cases h
  · split at h
    · rename_i hlen
      subst hlen
      cases h
      exact .release _ _ ‹_›
    · cases h
  · split at h
    · cases h
      exact .peerProduce _ ‹_› ‹_›
    · cases h
  · split at h
    · cases h
      exact .peerConsume _ ‹_› ‹_›
    · cases h
  · cases h

/-! ## The invariant -/

/-- What a producer in a call relies on: its copy of the index, room for what it accepted, and the
entries it stored. -/
def Producer.Ok (r : IndexRing w α) : Producer w α → Prop
  | .idle => True
  | .writing prod batch n i =>
    prod = r.producer ∧ n ≤ batch.length ∧ r.occupancy + n ≤ r.size.toNat ∧ i ≤ n ∧ r.Written batch i

/-- What a consumer in a call relies on: its copy of the index, and the entries it read. -/
def Consumer.Ok (r : IndexRing w α) : Consumer w α → Prop
  | .idle => True
  | .reading cons available out =>
    cons = r.consumer ∧ available ≤ r.occupancy ∧ out.length ≤ available ∧ out <+: r.pending

/-- The ring is a bounded queue: what was consumed and then what is pending is what was accepted. -/
structure Inv (s : State w α) : Prop where
  bounded : s.ring.Bounded
  fifo : s.consumed ++ s.ring.pending = s.accepted
  producer : s.producer.Ok s.ring
  consumer : s.consumer.Ok s.ring

theorem Inv.atRest {r : IndexRing w α} (h : r.Bounded) : Inv (State.atRest r) :=
  ⟨h, rfl, trivial, trivial⟩

/-- A store of the producer is invisible to the consumer. -/
theorem Consumer.Ok.write {r : IndexRing w α} {c : Consumer w α} (h : c.Ok r) {i : ℕ}
    (hi : r.occupancy + i < r.size.toNat) (a : α) :
    c.Ok (r.write (r.producer + BitVec.ofNat w i) a) := by
  cases c with
  | idle => trivial
  | reading cons available out =>
    obtain ⟨hcons, havail, hlen, hout⟩ := h
    exact ⟨hcons, havail, hlen, by rwa [pending_write hi]⟩

/-- A consumer in a call keeps what it found when more is published. -/
theorem Consumer.Ok.publish {r : IndexRing w α} {c : Consumer w α} (h : c.Ok r) {n : ℕ}
    (hn : r.occupancy + n ≤ r.size.toNat) :
    c.Ok (r.publish (r.producer + BitVec.ofNat w n)) := by
  cases c with
  | idle => trivial
  | reading cons available out =>
    obtain ⟨hcons, havail, hlen, hout⟩ := h
    refine ⟨hcons, ?_, hlen, ?_⟩
    · rw [occupancy_publish hn]
      omega
    · rw [pending_publish hn]
      exact hout.trans (List.prefix_append _ _)

/-- A producer in a call keeps its room and its stored entries when some are released. -/
theorem Producer.Ok.release {r : IndexRing w α} {p : Producer w α} (h : p.Ok r) {n : ℕ}
    (hn : n ≤ r.occupancy) : p.Ok (r.release (r.consumer + BitVec.ofNat w n)) := by
  cases p with
  | idle => trivial
  | writing prod batch m i =>
    obtain ⟨hprod, hlen, hroom, him, hwritten⟩ := h
    refine ⟨hprod, hlen, ?_, him, hwritten.release hn⟩
    rw [occupancy_release hn, size_release]
    omega

/-- Entries published after a prefix was taken. -/
theorem Inv.publish {s : State w α} (h : Inv s) {batch : List α} {n : ℕ}
    (hwritten : s.ring.Written batch n) (hn : s.ring.occupancy + n ≤ s.ring.size.toNat)
    (hlen : n ≤ batch.length) :
    Inv { s with
      ring := s.ring.publish (s.ring.producer + BitVec.ofNat w n)
      producer := .idle
      accepted := s.accepted ++ batch.take n } := by
  refine ⟨?_, ?_, trivial, h.consumer.publish hn⟩
  · exact (occupancy_publish hn).trans_le hn
  · rw [pending_publish hn, hwritten.map_eq hlen, ← List.append_assoc, h.fifo]

/-- The oldest entries released after they were read. -/
theorem Inv.release {s : State w α} (h : Inv s) {n : ℕ} (hn : n ≤ s.ring.occupancy) :
    Inv { s with
      ring := s.ring.release (s.ring.consumer + BitVec.ofNat w n)
      consumer := .idle
      consumed := s.consumed ++ s.ring.pending.take n } := by
  refine ⟨?_, ?_, h.producer.release hn, trivial⟩
  · exact (occupancy_release hn).trans_le ((Nat.sub_le _ _).trans h.bounded)
  · rw [pending_release hn, List.append_assoc, List.take_append_drop, h.fifo]

/-- A store into a slot that is free. -/
theorem Inv.write {s : State w α} (h : Inv s) {p : Producer w α} {i : ℕ} {a : α}
    (hfree : s.ring.occupancy + i < s.ring.size.toNat)
    (hp : p.Ok (s.ring.write (s.ring.producer + BitVec.ofNat w i) a)) :
    Inv { s with ring := s.ring.write (s.ring.producer + BitVec.ofNat w i) a, producer := p } := by
  refine ⟨h.bounded, ?_, hp, h.consumer.write hfree a⟩
  rw [pending_write hfree]
  exact h.fifo

/-- The next pending entry, read by the consumer. -/
theorem Inv.read {s : State w α} (h : Inv s) {available : ℕ} {out : List α}
    (hc : s.consumer = .reading s.ring.consumer available out) (hlt : out.length < available) :
    Inv { s with
      consumer := .reading s.ring.consumer available (out ++ [s.ring.entry out.length]) } := by
  have hok := h.consumer
  rw [hc] at hok
  obtain ⟨-, havail, -, hout⟩ := hok
  refine ⟨h.bounded, h.fifo, h.producer, rfl, havail, ?_, ?_⟩
  · rw [List.length_append, List.length_singleton]
    exact hlt
  · have hnext : out.length < s.ring.pending.length := by
      rw [length_pending]
      omega
    have hentry : s.ring.pending[out.length] = s.ring.entry out.length := by simp [pending]
    rw [← hentry]
    nth_rewrite 1 [List.prefix_iff_eq_take.mp hout]
    rw [← List.take_succ_eq_append_getElem hnext]
    exact List.take_prefix _ _

/-- Every access keeps the invariant. -/
theorem Inv.step {storeEmpty : Bool} {s s' : State w α} {e : Event α} (h : Inv s)
    (hstep : step storeEmpty s e = some s') : Inv s' := by
  have hbound : s.ring.occupancy ≤ s.ring.size.toNat := h.bounded
  have hproducer := h.producer
  have hconsumer := h.consumer
  cases step_cases hstep with
  | loadProduce batch hp =>
    refine ⟨h.bounded, h.fifo, ⟨rfl, min_le_left _ _, ?_, Nat.zero_le _, .zero _⟩, h.consumer⟩
    have hroom := s.ring.room_eq h.bounded
    simp only
    omega
  | write prod batch n i a hp hin ha =>
    rw [hp] at hproducer
    obtain ⟨rfl, hlen, hroom, -, hwritten⟩ := hproducer
    have hfree : s.ring.occupancy + i < s.ring.size.toNat := by omega
    exact h.write hfree ⟨rfl, hlen, hroom, hin, hwritten.write hfree ha⟩
  | publish prod batch n hp =>
    rw [hp] at hproducer
    obtain ⟨rfl, hlen, hroom, -, hwritten⟩ := hproducer
    rw [publish_ite]
    exact h.publish hwritten hroom hlen
  | loadConsume hc =>
    exact ⟨h.bounded, h.fifo, h.producer, rfl, le_rfl, Nat.zero_le _, List.nil_prefix⟩
  | read cons available out hc hlt =>
    rw [hc] at hconsumer
    obtain ⟨rfl, -⟩ := hconsumer
    exact h.read hc hlt
  | release cons out hc =>
    rw [hc] at hconsumer
    obtain ⟨rfl, havail, -, hout⟩ := hconsumer
    have hreleased := h.release havail
    rw [← List.prefix_iff_eq_take.mp hout] at hreleased
    rw [release_ite]
    exact hreleased
  | peerProduce a hp hroom =>
    rw [s.ring.room_eq h.bounded] at hroom
    have hfree : s.ring.occupancy + 0 < s.ring.size.toNat := by omega
    have hwritten := (Written.zero [a]).write hfree rfl
    have hpublished := (h.write (p := .idle) hfree trivial).publish hwritten hfree le_rfl
    simp only [BitVec.add_zero] at hpublished
    rw [← hp] at hpublished
    exact hpublished
  | peerConsume n hc hn =>
    have hreleased := h.release hn
    rw [← hc] at hreleased
    exact hreleased

/-- The invariant holds after every interleaving. -/
theorem Inv.run {storeEmpty : Bool} {s s' : State w α} {es : List (Event α)} (h : Inv s)
    (hrun : (machine storeEmpty).run s es = some s') : Inv s' :=
  (machine storeEmpty).run_invariant (fun _ _ _ hs hstep => hs.step hstep) h hrun

/-- No access changes the size of the ring. -/
theorem run_size {storeEmpty : Bool} {s s' : State w α} {es : List (Event α)}
    (hrun : (machine storeEmpty).run s es = some s') : s'.ring.size = s.ring.size := by
  refine (machine storeEmpty).run_invariant (I := fun t => t.ring.size = s.ring.size) ?_ rfl hrun
  intro t e t' ht hstep
  rw [← ht]
  cases step_cases hstep with
  | publish | release =>
    simp only
    split <;> rfl
  | loadProduce | write | loadConsume | read | peerProduce | peerConsume => rfl

/-- The slot a producer is about to store into holds no pending entry. -/
theorem Inv.write_fresh {s : State w α} (h : Inv s) {prod : BitVec w} {batch : List α} {n i : ℕ}
    (hproducer : s.producer = .writing prod batch n i) (hin : i < n) {j : ℕ}
    (hj : j < s.ring.occupancy) :
    s.ring.slot (prod + BitVec.ofNat w i) ≠ s.ring.slot (s.ring.consumer + BitVec.ofNat w j) := by
  have hok := h.producer
  rw [hproducer] at hok
  obtain ⟨rfl, -, hroom, -, -⟩ := hok
  rw [s.ring.producer_eq, BitVec.add_assoc, ← BitVec.ofNat_add]
  intro heq
  have := s.ring.slot_injective (by omega) (by omega) heq
  omega

/-! ## A call without interruption -/

/-- The stores of a produce call. -/
theorem run_write (storeEmpty : Bool) {prod : BitVec w} {batch : List α} {n : ℕ} (k i : ℕ)
    (hk : i + k ≤ n) (hn : n ≤ batch.length) (s : State w α)
    (hp : s.producer = .writing prod batch n i) :
    (machine storeEmpty).run s (List.replicate k .write) = some { s with
      ring := s.ring.writeFrom prod i ((batch.drop i).take k)
      producer := .writing prod batch n (i + k) } := by
  induction k generalizing i s with
  | zero =>
    rw [List.take_zero, Nat.add_zero, ← hp]
    rfl
  | succ k ih =>
    have hi : i < batch.length := by omega
    have hstep : (machine storeEmpty).step s .write = some { s with
        ring := s.ring.write (prod + BitVec.ofNat w i) batch[i]
        producer := .writing prod batch n (i + 1) } := by
      have hin : i < n := by omega
      simp [machine, step, hp, hin, hi]
    rw [List.replicate_succ, Machine.run_cons, hstep, Option.bind_some, ih (i + 1) (by omega) _ rfl,
      List.drop_eq_getElem_cons hi, List.take_succ_cons, Nat.add_right_comm]
    rfl

/-- A produce call that nobody interrupts is `produce`. -/
theorem run_produce (storeEmpty : Bool) (r : IndexRing w α) (batch : List α) :
    (machine storeEmpty).run (.atRest r)
        (.loadProduce batch :: (List.replicate (r.produce storeEmpty batch).2 .write ++ [.publish]))
      = some { State.atRest r with
          ring := (r.produce storeEmpty batch).1
          accepted := r.pending ++ batch.take (r.produce storeEmpty batch).2 } := by
  have hwrites := run_write storeEmpty (min batch.length r.room) 0 (Nat.zero_add _).le
    (min_le_left batch.length r.room)
    { State.atRest r with producer := .writing r.producer batch (min batch.length r.room) 0 } rfl
  rw [Nat.zero_add] at hwrites
  refine (Machine.run_cons_eq_some _).mpr ⟨_, rfl, Machine.run_trans _ hwrites ?_⟩
  refine Machine.run_single _ ?_
  simp only [machine, step, if_true]
  rfl

end Spsc

namespace IndexRing

variable {w : ℕ} {α : Type*} {r : IndexRing w α}

/-! ## What the calls do -/

theorem produce_snd (storeEmpty : Bool) (h : r.Bounded) (batch : List α) :
    (r.produce storeEmpty batch).2 = min batch.length (r.size.toNat - r.occupancy) := by
  rw [← r.room_eq h]
  rfl

theorem writeFrom_size (x : BitVec w) (as : List α) (i : ℕ) : (r.writeFrom x i as).size = r.size := by
  induction as generalizing r i with
  | nil => rfl
  | cons a as ih => exact ih (i + 1)

@[simp] theorem produce_size (storeEmpty : Bool) (batch : List α) :
    (r.produce storeEmpty batch).1.size = r.size := by
  unfold produce
  simp only
  split <;> exact writeFrom_size _ _ _

/-- A produce call appends the prefix it accepts and keeps the ring bounded. -/
theorem produce_spec (storeEmpty : Bool) (h : r.Bounded) (batch : List α) :
    (r.produce storeEmpty batch).1.pending = r.pending ++ batch.take (r.produce storeEmpty batch).2 ∧
      (r.produce storeEmpty batch).1.Bounded := by
  have hinv := (Spsc.Inv.atRest h).run (Spsc.run_produce storeEmpty r batch)
  exact ⟨hinv.fifo, hinv.bounded⟩

/-- A consume call returns what is pending and leaves nothing. -/
theorem consumeAll_eq (r : IndexRing w α) :
    r.consumeAll = (r.release (r.consumer + BitVec.ofNat w r.occupancy), r.pending) :=
  congrArg (·, r.pending) (release_ite r r.occupancy)

@[simp] theorem consumeAll_snd (r : IndexRing w α) : r.consumeAll.2 = r.pending := rfl

@[simp] theorem consumeAll_size (r : IndexRing w α) : r.consumeAll.1.size = r.size := by
  rw [consumeAll_eq]
  rfl

theorem consumeAll_pending (r : IndexRing w α) : r.consumeAll.1.pending = [] := by
  rw [consumeAll_eq]
  simp only
  rw [pending_release le_rfl, ← length_pending, List.drop_length]

theorem consumeAll_bounded (r : IndexRing w α) : r.consumeAll.1.Bounded := by
  rw [Bounded, ← length_pending, consumeAll_pending]
  exact Nat.zero_le _

/-- A peer with room appends one entry. -/
theorem post_spec (h : r.Bounded) (hroom : 0 < r.room) (a : α) :
    (r.post a).pending = r.pending ++ [a] ∧ (r.post a).Bounded := by
  have hstep : Spsc.step true (.atRest r) (.peerProduce a)
      = some { Spsc.State.atRest r with ring := r.post a, accepted := r.pending ++ [a] } := if_pos hroom
  have hinv := (Spsc.Inv.atRest h).step hstep
  exact ⟨hinv.fifo, hinv.bounded⟩

/-- A peer drops the entries it takes. -/
theorem take_spec (h : r.Bounded) {n : ℕ} (hn : n ≤ r.occupancy) :
    (r.take n).pending = r.pending.drop n ∧ (r.take n).Bounded := by
  refine ⟨pending_release hn, ?_⟩
  exact (occupancy_release hn).trans_le ((Nat.sub_le _ _).trans h)

end IndexRing
