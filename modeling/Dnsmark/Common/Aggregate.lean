import Mathlib.Algebra.BigOperators.Group.List.Basic
import Mathlib.Algebra.Ring.Nat
import Mathlib.Data.List.Perm.Basic
import Mathlib.Order.Basic

/-!
# Aggregates of a list

Folds that summarise a list of values by one value of the same kind: a sum, a maximum, a minimum over what
is not zero, a sum of what is present.  Each of them does not depend on the order of the list and can be
computed in two parts (`IsAggregate`).  A record whose fields are merged by such folds inherits both.

The maximum and the minimum are used through what they mean (`maxOrZero_le_iff`, `minNonzero_eq_iff`).
-/

namespace Aggregate

/-- The fold sees a list only up to order, and a list in two parts through the parts' results. -/
structure IsAggregate {α : Type*} (F : List α → α) : Prop where
  perm : ∀ {xs ys : List α}, xs.Perm ys → F xs = F ys
  append : ∀ xs ys : List α, F (xs ++ ys) = F [F xs, F ys]

section

variable {α σ : Type*} {F : List α → α} (merge : List σ → σ) (field : σ → α)

/-- A field that is merged by an aggregate does not depend on the order of the list. -/
theorem IsAggregate.field_perm (h : IsAggregate F) (hfield : ∀ l, field (merge l) = F (l.map field))
    {l l' : List σ} (hperm : l.Perm l') : field (merge l) = field (merge l') := by
  rw [hfield, hfield, h.perm (hperm.map field)]

/-- A list can be merged in two parts. -/
theorem IsAggregate.field_append (h : IsAggregate F) (hfield : ∀ l, field (merge l) = F (l.map field))
    (l l' : List σ) : field (merge (l ++ l')) = field (merge [merge l, merge l']) := by
  calc field (merge (l ++ l'))
      _ = F (l.map field ++ l'.map field) := by rw [hfield, List.map_append]
      _ = F [F (l.map field), F (l'.map field)] := h.append _ _
      _ = F [field (merge l), field (merge l')] := by rw [hfield, hfield]
      _ = field (merge [merge l, merge l']) := (hfield [merge l, merge l']).symm

end

/-! ## Sums -/

/-- A sum in words of `w` bits. -/
def wrappingSum (w : ℕ) (xs : List ℕ) : ℕ := xs.sum % 2 ^ w

theorem wrappingSum_of_lt {w : ℕ} {xs : List ℕ} (h : xs.sum < 2 ^ w) : wrappingSum w xs = xs.sum :=
  Nat.mod_eq_of_lt h

theorem isAggregate_wrappingSum (w : ℕ) : IsAggregate (wrappingSum w) where
  perm h := by rw [wrappingSum, h.sum_eq, wrappingSum]
  append xs ys := by
    simp only [wrappingSum, List.sum_append, List.sum_cons, List.sum_nil, Nat.add_zero]
    exact Nat.add_mod _ _ _

/-- A sum of what is present; nothing if it is 0. -/
def optionalSum (w : ℕ) (xs : List (Option ℕ)) : Option ℕ :=
  if 0 < wrappingSum w (xs.filterMap id) then some (wrappingSum w (xs.filterMap id)) else none

/-- As an addend, an optional sum is its sum. -/
theorem sum_filterMap_optionalSum (w : ℕ) (xs : List (Option ℕ)) (rest : List (Option ℕ)) :
    ((optionalSum w xs :: rest).filterMap id).sum
      = wrappingSum w (xs.filterMap id) + (rest.filterMap id).sum := by
  unfold optionalSum
  split
  · rfl
  · rename_i hzero
    rw [Nat.eq_zero_of_not_pos hzero, Nat.zero_add]
    rfl

theorem isAggregate_optionalSum (w : ℕ) : IsAggregate (optionalSum w) where
  perm h := by
    unfold optionalSum
    rw [(isAggregate_wrappingSum w).perm (h.filterMap id)]
  append xs ys := by
    have hsum : wrappingSum w ((xs ++ ys).filterMap id)
        = wrappingSum w ([optionalSum w xs, optionalSum w ys].filterMap id) := by
      rw [List.filterMap_append, (isAggregate_wrappingSum w).append]
      unfold wrappingSum
      rw [sum_filterMap_optionalSum, sum_filterMap_optionalSum]
      rfl
    rw [optionalSum, hsum]
    rfl

/-! ## The largest value -/

/-- The maximum, 0 for no values. -/
def maxOrZero (xs : List ℕ) : ℕ := xs.max?.getD 0

theorem maxOrZero_le_iff {xs : List ℕ} {b : ℕ} : maxOrZero xs ≤ b ↔ ∀ x ∈ xs, x ≤ b := by
  unfold maxOrZero
  cases hmax : xs.max? with
  | none =>
    rw [List.max?_eq_none_iff] at hmax
    subst hmax
    simp
  | some a => exact List.max?_le_iff hmax

theorem le_maxOrZero {xs : List ℕ} {x : ℕ} (h : x ∈ xs) : x ≤ maxOrZero xs :=
  maxOrZero_le_iff.mp (Nat.le_refl _) x h

theorem isAggregate_maxOrZero : IsAggregate maxOrZero where
  perm h := by
    refine eq_of_forall_ge_iff fun b => ?_
    rw [maxOrZero_le_iff, maxOrZero_le_iff]
    exact forall_congr' fun x => by rw [h.mem_iff]
  append xs ys := by
    refine eq_of_forall_ge_iff fun b => ?_
    simp only [maxOrZero_le_iff, List.mem_append, List.mem_cons, List.not_mem_nil, or_false, or_imp,
      forall_and, forall_eq]

/-! ## The smallest value that is not zero -/

/-- The minimum of what is not zero, 0 for no such value. -/
def minNonzero (xs : List ℕ) : ℕ := (xs.filter (0 < ·)).min?.getD 0

theorem minNonzero_eq_iff {xs : List ℕ} {m : ℕ} :
    minNonzero xs = m ↔
      (m = 0 ∧ ∀ x ∈ xs, x = 0) ∨ (0 < m ∧ m ∈ xs ∧ ∀ x ∈ xs, 0 < x → m ≤ x) := by
  have hmem (x : ℕ) : x ∈ xs.filter (0 < ·) ↔ x ∈ xs ∧ 0 < x := by
    rw [List.mem_filter, decide_eq_true_eq]
  unfold minNonzero
  cases hmin : (xs.filter (0 < ·)).min? with
  | none =>
    rw [List.min?_eq_none_iff] at hmin
    have hzero : ∀ x ∈ xs, x = 0 := fun x hx => by
      by_contra hne
      have hx' := (hmem x).mpr ⟨hx, Nat.pos_of_ne_zero hne⟩
      rw [hmin] at hx'
      exact List.not_mem_nil hx'
    constructor
    · rintro rfl
      exact .inl ⟨rfl, hzero⟩
    · rintro (⟨rfl, -⟩ | ⟨hpos, hm, -⟩)
      · rfl
      · exact absurd (hzero m hm) hpos.ne'
  | some a =>
    obtain ⟨ha, hle⟩ := List.min?_eq_some_iff.mp hmin
    obtain ⟨hax, hapos⟩ := (hmem a).mp ha
    constructor
    · rintro rfl
      exact .inr ⟨hapos, hax, fun x hx hpos => hle x ((hmem x).mpr ⟨hx, hpos⟩)⟩
    · rintro (⟨-, hzero⟩ | ⟨hpos, hm, hle'⟩)
      · exact absurd (hzero a hax) hapos.ne'
      · exact Nat.le_antisymm (hle m ((hmem m).mpr ⟨hm, hpos⟩)) (hle' a hax hapos)

theorem minNonzero_spec (xs : List ℕ) :
    (minNonzero xs = 0 ∧ ∀ x ∈ xs, x = 0) ∨
      (0 < minNonzero xs ∧ minNonzero xs ∈ xs ∧ ∀ x ∈ xs, 0 < x → minNonzero xs ≤ x) :=
  minNonzero_eq_iff.mp rfl

theorem minNonzero_eq_zero_iff {xs : List ℕ} : minNonzero xs = 0 ↔ ∀ x ∈ xs, x = 0 := by
  rw [minNonzero_eq_iff]
  simp

theorem minNonzero_mem {xs : List ℕ} (h : 0 < minNonzero xs) : minNonzero xs ∈ xs := by
  obtain ⟨hzero, -⟩ | ⟨-, hmem, -⟩ := minNonzero_spec xs
  · exact absurd hzero h.ne'
  · exact hmem

/-- A value that is not zero bounds the minimum, which then is not zero. -/
theorem minNonzero_le {xs : List ℕ} {x : ℕ} (hx : x ∈ xs) (hpos : 0 < x) :
    0 < minNonzero xs ∧ minNonzero xs ≤ x := by
  obtain ⟨-, hall⟩ | ⟨hm, -, hle⟩ := minNonzero_spec xs
  · exact absurd (hall x hx) hpos.ne'
  · exact ⟨hm, hle x hx hpos⟩

theorem isAggregate_minNonzero : IsAggregate minNonzero where
  perm {xs ys} h := by
    refine minNonzero_eq_iff.mpr ?_
    have hspec := minNonzero_spec ys
    simpa only [h.mem_iff] using hspec
  append xs ys := by
    refine minNonzero_eq_iff.mpr ?_
    simp only [List.mem_append]
    obtain ⟨hm, hall⟩ | ⟨hm, hmem, hle⟩ := minNonzero_spec [minNonzero xs, minNonzero ys]
    · have hxs := minNonzero_eq_zero_iff.mp (hall (minNonzero xs) (by simp))
      have hys := minNonzero_eq_zero_iff.mp (hall (minNonzero ys) (by simp))
      exact .inl ⟨hm, fun x hx => hx.elim (hxs x) (hys x)⟩
    · refine .inr ⟨hm, ?_, ?_⟩
      · rcases List.mem_pair.mp hmem with heq | heq
        · rw [heq] at hm ⊢
          exact .inl (minNonzero_mem hm)
        · rw [heq] at hm ⊢
          exact .inr (minNonzero_mem hm)
      · rintro x (hx | hx) hpos
        · obtain ⟨hpart, hpart'⟩ := minNonzero_le hx hpos
          exact (hle _ (by simp) hpart).trans hpart'
        · obtain ⟨hpart, hpart'⟩ := minNonzero_le hx hpos
          exact (hle _ (by simp) hpart).trans hpart'

end Aggregate
