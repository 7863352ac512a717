import Mathlib.Algebra.BigOperators.Fin
import Mathlib.Data.Finset.Card
import Mathlib.Data.Fintype.Basic

/-!
# Direct-indexed slot tables

A slot table has one slot for every index; a slot holds a nonzero stamp, or `0` when it is empty.
Storing, clearing and sweeping are described by what they do to the set of occupied slots
(`live`); the counting lemmas below are the cardinalities of those sets.
-/

/-- One slot for every index, `0` = empty. -/
abbrev SlotTable (ι : Type*) := ι → ℕ

namespace SlotTable

variable {ι : Type*}

/-- The table with every slot empty. -/
def empty : SlotTable ι := fun _ => 0

/-- Write `v` into slot `i`. -/
def store [DecidableEq ι] (t : SlotTable ι) (i : ι) (v : ℕ) : SlotTable ι := Function.update t i v

/-- Empty slot `i`. -/
def clear [DecidableEq ι] (t : SlotTable ι) (i : ι) : SlotTable ι := Function.update t i 0

/-- Empty every occupied slot whose stamp is `stale`. -/
def sweep (stale : ℕ → Bool) (t : SlotTable ι) : SlotTable ι :=
  fun i => if t i ≠ 0 ∧ stale (t i) then 0 else t i

/-! ## Reading back -/

@[simp] theorem empty_apply (i : ι) : (empty : SlotTable ι) i = 0 := rfl

/-- A slot that a sweep leaves occupied was occupied with the same stamp. -/
theorem sweep_eq_of_ne_zero {t : SlotTable ι} {stale : ℕ → Bool} {i : ι}
    (h : t.sweep stale i ≠ 0) : t.sweep stale i = t i := by
  unfold sweep at h ⊢
  split at h
  · exact absurd rfl h
  · rename_i hc
    rw [if_neg hc]

section Read

variable [DecidableEq ι] (t : SlotTable ι)

@[simp] theorem store_self (i : ι) (v : ℕ) : t.store i v i = v := Function.update_self ..

theorem store_of_ne {i j : ι} (h : j ≠ i) (v : ℕ) : t.store i v j = t j :=
  Function.update_of_ne h ..

@[simp] theorem clear_self (i : ι) : t.clear i i = 0 := Function.update_self ..

theorem clear_of_ne {i j : ι} (h : j ≠ i) : t.clear i j = t j := Function.update_of_ne h ..

/-- Clearing what was just stored into an empty slot restores the table. -/
theorem clear_store_of_empty {i : ι} (v : ℕ) (h : t i = 0) : (t.store i v).clear i = t := by
  rw [store, clear, Function.update_idem, ← h, Function.update_eq_self]

/-- A store decides its slot alone, cleared before or not. -/
theorem store_clear (i : ι) (v : ℕ) : (t.clear i).store i v = t.store i v :=
  Function.update_idem ..

/-- Clearing an empty slot changes nothing. -/
theorem clear_of_empty {i : ι} (h : t i = 0) : t.clear i = t := by
  rw [clear, ← h, Function.update_eq_self]

/-- Write one slot after the other. -/
def storeAll (vs : List (ι × ℕ)) : SlotTable ι := vs.foldl (fun t p => t.store p.1 p.2) t

/-- Empty one slot after the other. -/
def clearAll (is : List ι) : SlotTable ι := is.foldl clear t

theorem storeAll_of_notMem {vs : List (ι × ℕ)} {i : ι} (h : i ∉ vs.map Prod.fst) :
    t.storeAll vs i = t i := by
  induction vs generalizing t with
  | nil => rfl
  | cons p vs ih =>
    rw [List.map_cons, List.mem_cons, not_or] at h
    rw [storeAll, List.foldl_cons, ← storeAll, ih _ h.2, store_of_ne t h.1]

/-- A slot that is written once has what was written. -/
theorem storeAll_of_mem {vs : List (ι × ℕ)} (hnodup : (vs.map Prod.fst).Nodup) {i : ι} {v : ℕ}
    (h : (i, v) ∈ vs) : t.storeAll vs i = v := by
  induction vs generalizing t with
  | nil => cases h
  | cons p vs ih =>
    rw [List.map_cons, List.nodup_cons] at hnodup
    rw [storeAll, List.foldl_cons, ← storeAll]
    rcases List.mem_cons.mp h with rfl | h
    · rw [storeAll_of_notMem _ hnodup.1, store_self]
    · exact ih _ hnodup.2 h

theorem clearAll_apply (is : List ι) (i : ι) : t.clearAll is i = if i ∈ is then 0 else t i := by
  induction is generalizing t with
  | nil => rfl
  | cons j is ih =>
    rw [clearAll, List.foldl_cons, ← clearAll, ih]
    by_cases hij : i = j
    · subst hij
      simp
    · simp [clear_of_ne t hij, hij]

end Read

/-! ## Occupied slots -/

section Count

variable [Fintype ι]

/-- The occupied slots. -/
def live (t : SlotTable ι) : Finset ι := Finset.univ.filter fun i => t i ≠ 0

/-- The number of occupied slots. -/
def occupancy (t : SlotTable ι) : ℕ := t.live.card

/-- The number of occupied slots with a stale stamp: what a sweep frees. -/
def staleCount (stale : ℕ → Bool) (t : SlotTable ι) : ℕ :=
  (t.live.filter fun i => stale (t i)).card

@[simp] theorem mem_live {t : SlotTable ι} {i : ι} : i ∈ t.live ↔ t i ≠ 0 := by simp [live]

@[simp] theorem live_empty : (empty : SlotTable ι).live = ∅ := by simp [live]

@[simp] theorem occupancy_empty : (empty : SlotTable ι).occupancy = 0 := by simp [occupancy]

/-- A table with no occupied slot is the empty one. -/
theorem occupancy_eq_zero {t : SlotTable ι} : t.occupancy = 0 ↔ ∀ i, t i = 0 := by
  simp [occupancy, live, Finset.filter_eq_empty_iff]

/-- An occupied slot counts. -/
theorem occupancy_pos {t : SlotTable ι} {i : ι} (h : t i ≠ 0) : 0 < t.occupancy :=
  Finset.card_pos.mpr ⟨i, mem_live.mpr h⟩

theorem live_sweep (stale : ℕ → Bool) (t : SlotTable ι) :
    (t.sweep stale).live = t.live.filter fun i => ¬ stale (t i) := by
  ext i
  simp only [mem_live, sweep, Finset.mem_filter]
  by_cases h : t i = 0 <;> by_cases hs : stale (t i) <;> simp [h, hs]

/-- What a sweep frees and what it leaves is what was there. -/
theorem occupancy_sweep (stale : ℕ → Bool) (t : SlotTable ι) :
    (t.sweep stale).occupancy + t.staleCount stale = t.occupancy := by
  rw [occupancy, live_sweep, staleCount, Nat.add_comm, Finset.card_filter_add_card_filter_not,
    occupancy]

variable [DecidableEq ι]

theorem live_store (t : SlotTable ι) (i : ι) {v : ℕ} (hv : v ≠ 0) :
    (t.store i v).live = insert i t.live := by
  ext j
  by_cases h : j = i
  · subst h
    simp [hv]
  · simp [store_of_ne t h, h]

theorem live_clear (t : SlotTable ι) (i : ι) : (t.clear i).live = t.live.erase i := by
  ext j
  by_cases h : j = i
  · subst h
    simp
  · simp [clear_of_ne t h, h]

/-- Storing into an empty slot occupies one more. -/
theorem occupancy_store_of_empty {t : SlotTable ι} {i : ι} {v : ℕ} (hv : v ≠ 0) (h : t i = 0) :
    (t.store i v).occupancy = t.occupancy + 1 := by
  rw [occupancy, live_store t i hv, Finset.card_insert_of_notMem (by simp [h]), occupancy]

/-- Storing into an occupied slot overwrites it and occupies nothing more. -/
theorem occupancy_store_of_occupied {t : SlotTable ι} {i : ι} {v : ℕ} (hv : v ≠ 0)
    (h : t i ≠ 0) : (t.store i v).occupancy = t.occupancy := by
  rw [occupancy, live_store t i hv, Finset.insert_eq_of_mem (by simp [h]), occupancy]

/-- Clearing an occupied slot frees one. -/
theorem occupancy_clear {t : SlotTable ι} {i : ι} (h : t i ≠ 0) :
    (t.clear i).occupancy + 1 = t.occupancy := by
  rw [occupancy, live_clear, Finset.card_erase_add_one (by simp [h]), occupancy]

end Count

-- counting never unfolds to an enumeration of the index type
attribute [irreducible] occupancy staleCount

end SlotTable
