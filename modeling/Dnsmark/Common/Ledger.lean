import Dnsmark.Common.SlotTable

/-!
# A ledger of what entered and left a slot table

The stamps in a slot table are not unique, so "this value left the table once" cannot be said about
the stamps.  A `Ledger` gives every stored value a serial number, remembers which serial each slot
holds, and lists the serials that left together with how.  It is bookkeeping beside the table: it is
written, never read.

`Balanced t L` says that `L` is the history of the table `t`: a serial either left, once, or sits in
exactly one slot.  Emptying a slot and filling an empty one both keep it, whatever the table
operation they are part of.
-/

/-- The serials given out, the serial in each slot, and the serials that left, latest first. -/
structure Ledger (ι κ : Type*) where
  inserts : ℕ
  owner : ι → ℕ
  exits : List (ℕ × κ)

namespace Ledger

variable {ι κ : Type*}

/-- Nothing stored yet. -/
def empty : Ledger ι κ := ⟨0, fun _ => 0, []⟩

/-- The value in slot `i`, if there is one, leaves by `how`. -/
def leave (L : Ledger ι κ) (t : SlotTable ι) (i : ι) (how : κ) : Ledger ι κ :=
  if t i = 0 then L else { L with exits := (L.owner i, how) :: L.exits }

/-- A new value enters slot `i`. -/
def enter [DecidableEq ι] (L : Ledger ι κ) (i : ι) : Ledger ι κ :=
  { L with inserts := L.inserts + 1, owner := Function.update L.owner i L.inserts }

/-- The serials that left. -/
def left (L : Ledger ι κ) : List ℕ := L.exits.map Prod.fst

/-- How many values left by `how`. -/
def tally [DecidableEq κ] (L : Ledger ι κ) (how : κ) : ℕ := (L.exits.map Prod.snd).count how

/-- `L` is a history of the table `t`. -/
structure Balanced [Fintype ι] (t : SlotTable ι) (L : Ledger ι κ) : Prop where
  left_nodup : L.left.Nodup
  left_lt : ∀ k ∈ L.left, k < L.inserts
  owner_lt : ∀ i, t i ≠ 0 → L.owner i < L.inserts
  owner_inj : ∀ i j, t i ≠ 0 → t j ≠ 0 → L.owner i = L.owner j → i = j
  owner_stays : ∀ i, t i ≠ 0 → L.owner i ∉ L.left
  complete : ∀ k < L.inserts, k ∈ L.left ∨ ∃ i, t i ≠ 0 ∧ L.owner i = k
  count : L.inserts = L.left.length + t.occupancy

/-! ## Emptying a slot -/

section Leave

variable {t : SlotTable ι} {i : ι} {L : Ledger ι κ}

theorem leave_of_empty (h : t i = 0) (how : κ) : L.leave t i how = L := if_pos h

theorem leave_of_occupied (h : t i ≠ 0) (how : κ) :
    L.leave t i how = { L with exits := (L.owner i, how) :: L.exits } := if_neg h

@[simp] theorem leave_inserts (how : κ) : (L.leave t i how).inserts = L.inserts := by
  unfold leave
  split <;> rfl

/-- Only the way taken is tallied, and only for a value that was there. -/
theorem tally_leave [DecidableEq κ] (how how' : κ) :
    (L.leave t i how).tally how' = L.tally how' + if t i ≠ 0 ∧ how = how' then 1 else 0 := by
  by_cases h : t i = 0
  · simp [leave_of_empty h, h]
  · simp [leave_of_occupied h, tally, List.count_cons, h]

variable [Fintype ι] [DecidableEq ι]

/-- Emptying a slot keeps the balance. -/
theorem Balanced.leave (hL : L.Balanced t) (i : ι) (how : κ) :
    (L.leave t i how).Balanced (t.clear i) := by
  by_cases h : t i = 0
  · rw [leave_of_empty h, t.clear_of_empty h]
    exact hL
  rw [leave_of_occupied h]
  have hne : ∀ j, t.clear i j ≠ 0 → j ≠ i ∧ t j ≠ 0 := by
    intro j hj
    have hji : j ≠ i := fun hji => hj (hji ▸ t.clear_self i)
    exact ⟨hji, by rwa [t.clear_of_ne hji] at hj⟩
  refine ⟨?_, ?_, ?_, ?_, ?_, ?_, ?_⟩
  · exact List.nodup_cons.mpr ⟨hL.owner_stays i h, hL.left_nodup⟩
  · intro k hk
    rcases List.mem_cons.mp hk with rfl | hk
    · exact hL.owner_lt i h
    · exact hL.left_lt k hk
  · exact fun j hj => hL.owner_lt j (hne j hj).2
  · exact fun j j' hj hj' => hL.owner_inj j j' (hne j hj).2 (hne j' hj').2
  · intro j hj hleft
    rcases List.mem_cons.mp hleft with heq | hleft
    · exact (hne j hj).1 (hL.owner_inj j i (hne j hj).2 h heq)
    · exact hL.owner_stays j (hne j hj).2 hleft
  · intro k hk
    rcases hL.complete k hk with hleft | ⟨j, hj, rfl⟩
    · exact .inl (List.mem_cons_of_mem _ hleft)
    · by_cases hji : j = i
      · subst hji
        exact .inl (List.mem_cons_self ..)
      · exact .inr ⟨j, by rwa [t.clear_of_ne hji], rfl⟩
  · have hocc := SlotTable.occupancy_clear h
    have hcount := hL.count
    simp only [left, List.map_cons, List.length_cons] at hcount ⊢
    omega

end Leave

/-! ## Filling an empty slot -/

section Enter

variable [DecidableEq ι] {t : SlotTable ι} {i : ι} {L : Ledger ι κ}

@[simp] theorem enter_inserts : (L.enter i).inserts = L.inserts + 1 := rfl
@[simp] theorem enter_exits : (L.enter i).exits = L.exits := rfl
@[simp] theorem enter_left : (L.enter i).left = L.left := rfl

@[simp] theorem tally_enter [DecidableEq κ] (how : κ) : (L.enter i).tally how = L.tally how := rfl

variable [Fintype ι]

/-- Filling an empty slot keeps the balance. -/
theorem Balanced.enter (hL : L.Balanced t) (h : t i = 0) {v : ℕ} (hv : v ≠ 0) :
    (L.enter i).Balanced (t.store i v) := by
  -- the new serial is above every serial in use
  have howner : ∀ j, j ≠ i → (L.enter i).owner j = L.owner j := fun j hj => Function.update_of_ne hj ..
  have hself : (L.enter i).owner i = L.inserts := Function.update_self ..
  have hother : ∀ j, j ≠ i → t.store i v j ≠ 0 → t j ≠ 0 := by
    intro j hji hj
    rwa [t.store_of_ne hji] at hj
  refine ⟨hL.left_nodup, ?_, ?_, ?_, ?_, ?_, ?_⟩
  · exact fun k hk => (hL.left_lt k hk).trans (Nat.lt_succ_self _)
  · intro j hj
    by_cases hji : j = i
    · rw [hji, hself]
      exact Nat.lt_succ_self _
    · rw [howner j hji]
      exact (hL.owner_lt j (hother j hji hj)).trans (Nat.lt_succ_self _)
  · intro j j' hj hj' heq
    by_cases hji : j = i <;> by_cases hji' : j' = i
    · exact hji.trans hji'.symm
    · rw [hji, hself, howner j' hji'] at heq
      exact absurd heq (hL.owner_lt j' (hother j' hji' hj')).ne'
    · rw [hji', hself, howner j hji] at heq
      exact absurd heq (hL.owner_lt j (hother j hji hj)).ne
    · rw [howner j hji, howner j' hji'] at heq
      exact hL.owner_inj j j' (hother j hji hj) (hother j' hji' hj') heq
  · intro j hj hleft
    by_cases hji : j = i
    · rw [hji, hself] at hleft
      exact absurd (hL.left_lt _ hleft) (Nat.lt_irrefl _)
    · rw [howner j hji] at hleft
      exact hL.owner_stays j (hother j hji hj) hleft
  · intro k hk
    rcases Nat.lt_succ_iff_lt_or_eq.mp hk with hk | rfl
    · rcases hL.complete k hk with hleft | ⟨j, hj, rfl⟩
      · exact .inl hleft
      · have hji : j ≠ i := fun hji => hj (hji ▸ h)
        exact .inr ⟨j, by rwa [t.store_of_ne hji], howner j hji⟩
    · exact .inr ⟨i, by rwa [t.store_self], hself⟩
  · rw [enter_inserts, enter_left, SlotTable.occupancy_store_of_empty hv h, hL.count]
    omega

/-- Storing into a slot, whatever it held: the old value leaves, the new one enters. -/
theorem Balanced.store (hL : L.Balanced t) (i : ι) (how : κ) {v : ℕ} (hv : v ≠ 0) :
    ((L.leave t i how).enter i).Balanced (t.store i v) := by
  have h := (hL.leave i how).enter (t.clear_self i) hv
  rwa [t.store_clear] at h

end Enter

/-- The empty history of the empty table. -/
theorem balanced_empty [Fintype ι] : (empty : Ledger ι κ).Balanced (.empty : SlotTable ι) := by
  refine ⟨List.nodup_nil, ?_, ?_, ?_, ?_, ?_, ?_⟩
  · exact fun k hk => absurd hk (List.not_mem_nil)
  · exact fun i hi => absurd rfl hi
  · exact fun i _ hi => absurd rfl hi
  · exact fun i hi => absurd rfl hi
  · exact fun k hk => absurd hk (Nat.not_lt_zero k)
  · rw [SlotTable.occupancy_empty]
    rfl

/-- In a balanced table every serial left exactly once or sits in exactly one slot, not both. -/
theorem Balanced.xor [Fintype ι] {t : SlotTable ι} {L : Ledger ι κ} (hL : L.Balanced t) {k : ℕ}
    (hk : k < L.inserts) : Xor (k ∈ L.left) (∃! i, t i ≠ 0 ∧ L.owner i = k) := by
  rcases hL.complete k hk with hleft | ⟨i, hi, rfl⟩
  · refine .inl ⟨hleft, ?_⟩
    rintro ⟨i, ⟨hi, rfl⟩, -⟩
    exact hL.owner_stays i hi hleft
  · refine .inr ⟨⟨i, ⟨hi, rfl⟩, ?_⟩, hL.owner_stays i hi⟩
    exact fun j hj => hL.owner_inj j i hj.1 hi hj.2

end Ledger
