import Mathlib.Data.Nat.ModEq

/-!
# Single-producer, single-consumer rings

A ring of `2 ^ k` slots with two free-running `w`-bit indices, `k < w`.  The indices are only ever
advanced and wrap at `2 ^ w`; entry number `x` lives in slot `x & mask`, and the entries between the
consumer and the producer index are pending.

The abstraction is the list of pending entries, oldest first (`IndexRing.pending`).  Three primitives
change a ring, and each does one thing to that list as long as the two indices stay within `size` of
each other: a `write` into a free slot does nothing, `publish n` appends the `n` entries written past
the producer index, `release n` drops the first `n`.
-/

/-- A ring of a power of two of slots with `w`-bit indices.  `descs` is the slot memory. -/
structure IndexRing (w : ℕ) (α : Type*) where
  size : BitVec w
  mask : BitVec w
  producer : BitVec w
  consumer : BitVec w
  descs : ℕ → α
  size_eq : ∃ k < w, size.toNat = 2 ^ k
  mask_eq : mask = size - 1#w

namespace IndexRing

variable {w : ℕ} {α : Type*} (r : IndexRing w α)

/-- The slot of entry number `x`. -/
def slot (x : BitVec w) : ℕ := (x &&& r.mask).toNat

/-- How far the producer index is ahead of the consumer index. -/
def occupancy : ℕ := (r.producer - r.consumer).toNat

/-- The free slots, as a producer computes them. -/
def room : ℕ := (r.size - (r.producer - r.consumer)).toNat

/-- The entry `i` places after the consumer index. -/
def entry (i : ℕ) : α := r.descs (r.slot (r.consumer + BitVec.ofNat w i))

/-- The pending entries, oldest first. -/
def pending : List α := (List.range r.occupancy).map r.entry

/-- The indices are within `size` of each other. -/
def Bounded : Prop := r.occupancy ≤ r.size.toNat

/-- Store `a` as entry number `x`. -/
def write (x : BitVec w) (a : α) : IndexRing w α := { r with descs := Function.update r.descs (r.slot x) a }

/-- Advance the producer index to `x`. -/
def publish (x : BitVec w) : IndexRing w α := { r with producer := x }

/-- Advance the consumer index to `x`. -/
def release (x : BitVec w) : IndexRing w α := { r with consumer := x }

/-- A peer stores `a` in the next free slot and advances the producer index. -/
def post (a : α) : IndexRing w α := (r.write r.producer a).publish (r.producer + 1#w)

/-- A peer takes the oldest `n` entries by advancing the consumer index. -/
def take (n : ℕ) : IndexRing w α := r.release (r.consumer + BitVec.ofNat w n)

/-! ## Indices and slots -/

theorem size_pos : 0 < r.size.toNat := by
  obtain ⟨k, -, hk⟩ := r.size_eq
  rw [hk]
  exact Nat.two_pow_pos k

theorem size_dvd : r.size.toNat ∣ 2 ^ w := by
  obtain ⟨k, hkw, hk⟩ := r.size_eq
  rw [hk]
  exact Nat.pow_dvd_pow 2 hkw.le

theorem toNat_mask : r.mask.toNat = r.size.toNat - 1 := by
  obtain ⟨k, hkw, -⟩ := r.size_eq
  have hpos := r.size_pos
  have hone : (1#w).toNat = 1 := by
    rw [BitVec.toNat_ofNat]
    exact Nat.mod_eq_of_lt (Nat.one_lt_two_pow (by omega))
  rw [r.mask_eq, BitVec.toNat_sub_of_le, hone]
  rw [BitVec.le_def, hone]
  exact hpos

/-- `x & mask` is `x` modulo the size. -/
theorem slot_eq_mod (x : BitVec w) : r.slot x = x.toNat % r.size.toNat := by
  obtain ⟨k, -, hk⟩ := r.size_eq
  rw [slot, BitVec.toNat_and, r.toNat_mask, hk, Nat.and_two_pow_sub_one_eq_mod]

/-- The wrap of the indices does not show in the slots. -/
theorem slot_add (x : BitVec w) (i : ℕ) :
    r.slot (x + BitVec.ofNat w i) = (x.toNat + i) % r.size.toNat := by
  rw [slot_eq_mod, BitVec.toNat_add, BitVec.toNat_ofNat, Nat.add_mod_mod,
    Nat.mod_mod_of_dvd _ r.size_dvd]

/-- Entries less than `size` apart have different slots. -/
theorem slot_injective {x : BitVec w} {i j : ℕ} (hi : i < r.size.toNat) (hj : j < r.size.toNat)
    (h : r.slot (x + BitVec.ofNat w i) = r.slot (x + BitVec.ofNat w j)) : i = j := by
  rw [slot_add, slot_add] at h
  have hmod : i ≡ j [MOD r.size.toNat] := Nat.ModEq.add_left_cancel' x.toNat h
  exact Nat.ModEq.eq_of_lt_of_lt hmod hi hj

/-- The producer index, counted from the consumer index. -/
theorem producer_eq : r.producer = r.consumer + BitVec.ofNat w r.occupancy := by
  rw [occupancy, BitVec.ofNat_toNat, BitVec.setWidth_eq, BitVec.add_comm, BitVec.sub_add_cancel]

/-- What the producer computes is the free space. -/
theorem room_eq (h : r.Bounded) : r.room = r.size.toNat - r.occupancy :=
  BitVec.toNat_sub_of_le h

/-! ## What the primitives do to the pending entries -/

variable {r}

@[simp] theorem occupancy_write (x : BitVec w) (a : α) : (r.write x a).occupancy = r.occupancy := rfl

@[simp] theorem size_write (x : BitVec w) (a : α) : (r.write x a).size = r.size := rfl

@[simp] theorem size_publish (x : BitVec w) : (r.publish x).size = r.size := rfl

@[simp] theorem size_release (x : BitVec w) : (r.release x).size = r.size := rfl

@[simp] theorem entry_publish (x : BitVec w) : (r.publish x).entry = r.entry := rfl

@[simp] theorem length_pending : r.pending.length = r.occupancy := by
  rw [pending, List.length_map, List.length_range]

/-- A store past the producer index is one entry; the others are left alone. -/
theorem entry_write {i j : ℕ} (hi : i < r.size.toNat) (hj : r.occupancy + j < r.size.toNat) (a : α) :
    (r.write (r.producer + BitVec.ofNat w j) a).entry i
      = if i = r.occupancy + j then a else r.entry i := by
  have hindex : r.producer + BitVec.ofNat w j = r.consumer + BitVec.ofNat w (r.occupancy + j) := by
    rw [BitVec.ofNat_add, ← BitVec.add_assoc, ← r.producer_eq]
  have hentry : ∀ b : IndexRing w α, b.entry i = b.descs (b.slot (b.consumer + BitVec.ofNat w i)) :=
    fun _ => rfl
  rw [hentry, hindex]
  by_cases h : i = r.occupancy + j
  · subst h
    rw [if_pos rfl]
    exact Function.update_self ..
  · rw [if_neg h]
    exact Function.update_of_ne (fun heq => h (r.slot_injective hi hj heq)) ..

/-- A store into a free slot changes no pending entry. -/
theorem pending_write {j : ℕ} (hj : r.occupancy + j < r.size.toNat) (a : α) :
    (r.write (r.producer + BitVec.ofNat w j) a).pending = r.pending := by
  unfold pending
  rw [occupancy_write]
  apply List.map_congr_left
  intro i hi
  have hi' : i < r.occupancy := List.mem_range.mp hi
  rw [entry_write (by omega) hj, if_neg (by omega)]

/-- Publishing `n` written entries. -/
theorem occupancy_publish {n : ℕ} (hn : r.occupancy + n ≤ r.size.toNat) :
    (r.publish (r.producer + BitVec.ofNat w n)).occupancy = r.occupancy + n := by
  have hdiff : r.producer + BitVec.ofNat w n - r.consumer = BitVec.ofNat w (r.occupancy + n) := by
    rw [BitVec.ofNat_add, occupancy, BitVec.ofNat_toNat, BitVec.setWidth_eq, BitVec.sub_eq_add_neg,
      BitVec.sub_eq_add_neg, BitVec.add_assoc, BitVec.add_assoc, BitVec.add_comm (BitVec.ofNat w n)]
  have hsize := r.size.isLt
  change (r.producer + BitVec.ofNat w n - r.consumer).toNat = r.occupancy + n
  rw [hdiff, BitVec.toNat_ofNat, Nat.mod_eq_of_lt (by omega)]

theorem pending_publish {n : ℕ} (hn : r.occupancy + n ≤ r.size.toNat) :
    (r.publish (r.producer + BitVec.ofNat w n)).pending
      = r.pending ++ (List.range n).map fun j => r.entry (r.occupancy + j) := by
  rw [pending, occupancy_publish hn, entry_publish, List.range_add, List.map_append, List.map_map]
  rfl

/-- Releasing the `n` oldest entries. -/
theorem occupancy_release {n : ℕ} (hn : n ≤ r.occupancy) :
    (r.release (r.consumer + BitVec.ofNat w n)).occupancy = r.occupancy - n := by
  have hlt := (r.producer - r.consumer).isLt
  have hocc : r.occupancy = (r.producer - r.consumer).toNat := rfl
  have hmod : (BitVec.ofNat w n).toNat = n := by
    rw [BitVec.toNat_ofNat, Nat.mod_eq_of_lt (by omega)]
  have hdiff : r.producer - (r.consumer + BitVec.ofNat w n)
      = r.producer - r.consumer - BitVec.ofNat w n := by
    rw [BitVec.sub_eq_add_neg, BitVec.neg_add, BitVec.sub_eq_add_neg (-r.consumer),
      ← BitVec.add_assoc, ← BitVec.sub_eq_add_neg, ← BitVec.sub_eq_add_neg]
  change (r.producer - (r.consumer + BitVec.ofNat w n)).toNat = r.occupancy - n
  rw [hdiff, BitVec.toNat_sub_of_le, hmod, hocc]
  rw [BitVec.le_def, hmod]
  exact hn

theorem entry_release (n i : ℕ) :
    (r.release (r.consumer + BitVec.ofNat w n)).entry i = r.entry (n + i) := by
  change r.descs (r.slot (r.consumer + BitVec.ofNat w n + BitVec.ofNat w i)) = _
  rw [BitVec.add_assoc, ← BitVec.ofNat_add]
  rfl

theorem pending_release {n : ℕ} (hn : n ≤ r.occupancy) :
    (r.release (r.consumer + BitVec.ofNat w n)).pending = r.pending.drop n := by
  apply List.ext_getElem
  · rw [length_pending, occupancy_release hn, List.length_drop, length_pending]
  · intro i _ _
    simp only [pending, List.getElem_map, List.getElem_range, List.getElem_drop]
    exact entry_release n i

/-- The first `i` entries of `batch` are stored past the producer index. -/
def Written (r : IndexRing w α) (batch : List α) (i : ℕ) : Prop :=
  ∀ j < i, batch[j]? = some (r.entry (r.occupancy + j))

theorem Written.zero (batch : List α) : r.Written batch 0 :=
  fun _ hj => absurd hj (Nat.not_lt_zero _)

/-- One more store. -/
theorem Written.write {batch : List α} {i : ℕ} {a : α} (h : r.Written batch i)
    (hi : r.occupancy + i < r.size.toNat) (ha : batch[i]? = some a) :
    (r.write (r.producer + BitVec.ofNat w i) a).Written batch (i + 1) := by
  intro j hj
  rw [occupancy_write, entry_write (by omega) hi]
  rcases Nat.lt_succ_iff_lt_or_eq.mp hj with hlt | rfl
  · rw [if_neg (by omega)]
    exact h j hlt
  · rw [if_pos rfl]
    exact ha

/-- The entries a producer has stored are the first ones of its batch. -/
theorem Written.map_eq {batch : List α} {n : ℕ} (h : r.Written batch n) (hn : n ≤ batch.length) :
    (List.range n).map (fun j => r.entry (r.occupancy + j)) = batch.take n := by
  apply List.ext_getElem
  · rw [List.length_map, List.length_range, List.length_take, min_eq_left hn]
  · intro j hj _
    have hjn : j < n := by simpa using hj
    have hentry := h j hjn
    rw [List.getElem?_eq_getElem (by omega), Option.some.injEq] at hentry
    simp [hentry]

/-- A release moves no stored entry. -/
theorem Written.release {batch : List α} {i n : ℕ} (h : r.Written batch i) (hn : n ≤ r.occupancy) :
    (r.release (r.consumer + BitVec.ofNat w n)).Written batch i := by
  intro j hj
  rw [occupancy_release hn, entry_release, h j hj]
  congr 2
  omega

/-! ## Calls -/

/-- Store the entries of a batch as the entries number `x + i`, `x + i + 1`, …. -/
def writeFrom (r : IndexRing w α) (x : BitVec w) : ℕ → List α → IndexRing w α
  | _, [] => r
  | i, a :: as => (r.write (x + BitVec.ofNat w i) a).writeFrom x (i + 1) as

/-- Append as much of a batch as there is room for, and say how much.  `storeEmpty`: the producer
index is stored also when nothing was accepted. -/
def produce (storeEmpty : Bool) (r : IndexRing w α) (batch : List α) : IndexRing w α × ℕ :=
  let prod := r.producer
  let n := min batch.length r.room
  let r := r.writeFrom prod 0 (batch.take n)
  (if storeEmpty || 0 < n then r.publish (prod + BitVec.ofNat w n) else r, n)

/-- Take everything that is pending. -/
def consumeAll (r : IndexRing w α) : IndexRing w α × List α :=
  let cons := r.consumer
  let available := r.occupancy
  let out := (List.range available).map fun i => r.descs (r.slot (cons + BitVec.ofNat w i))
  (if 0 < available then r.release (cons + BitVec.ofNat w available) else r, out)

/-- Storing the index where it already is changes nothing. -/
theorem publish_ite (r : IndexRing w α) (b : Bool) (n : ℕ) :
    (if b || 0 < n then r.publish (r.producer + BitVec.ofNat w n) else r)
      = r.publish (r.producer + BitVec.ofNat w n) := by
  split
  · rfl
  · rename_i hn
    obtain rfl : n = 0 := by
      by_contra hne
      exact hn (by simp [Nat.pos_of_ne_zero hne])
    simp [publish]

theorem release_ite (r : IndexRing w α) (n : ℕ) :
    (if 0 < n then r.release (r.consumer + BitVec.ofNat w n) else r)
      = r.release (r.consumer + BitVec.ofNat w n) := by
  split
  · rfl
  · obtain rfl : n = 0 := by omega
    simp [release]

end IndexRing
