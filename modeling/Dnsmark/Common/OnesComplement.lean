import Mathlib.Algebra.Order.Group.Nat
import Mathlib.Data.Nat.Bitwise

/-!
# One's-complement sums

The Internet checksum adds 16-bit words and folds the carries: what stands above the low 16 bits is
added to them, until nothing is left above.  Folding keeps a sum modulo `2 ^ 16 - 1`, and it keeps a
positive sum positive, so what is left in the end is the one representative in `1 .. 2 ^ 16 - 1`
(`foldAll_eq_of_mod_eq`).  That makes the loop comparable with code that folds a fixed number of times.
-/

namespace OnesComplement

/-- One fold: the carries are added to the low 16 bits. -/
def fold (sum : ℕ) : ℕ := (sum &&& 0xffff) + (sum >>> 16)

theorem fold_eq (sum : ℕ) : fold sum = sum % 65536 + sum / 65536 := by
  unfold fold
  rw [Nat.shiftRight_eq_div_pow, show 0xffff = 2 ^ 16 - 1 from rfl, Nat.and_two_pow_sub_one_eq_mod]

theorem shiftRight_ne_zero_iff (sum : ℕ) : sum >>> 16 ≠ 0 ↔ 65536 ≤ sum := by
  rw [Nat.shiftRight_eq_div_pow, Nat.div_ne_zero_iff]
  omega

theorem fold_lt {sum : ℕ} (h : sum >>> 16 ≠ 0) : fold sum < sum := by
  rw [shiftRight_ne_zero_iff] at h
  rw [fold_eq]
  omega

/-- The loop: fold as long as there are carries. -/
def foldAll (sum : ℕ) : ℕ := if sum >>> 16 ≠ 0 then foldAll (fold sum) else sum
termination_by sum
decreasing_by exact fold_lt ‹_›

theorem foldAll_of_lt {sum : ℕ} (h : sum < 65536) : foldAll sum = sum := by
  rw [foldAll, if_neg (by rw [shiftRight_ne_zero_iff]; omega)]

/-- A fold more or less does not matter. -/
theorem foldAll_fold (sum : ℕ) : foldAll (fold sum) = foldAll sum := by
  by_cases h : sum >>> 16 ≠ 0
  · rw [foldAll.eq_def sum, if_pos h]
  · rw [shiftRight_ne_zero_iff, not_le] at h
    rw [fold_eq, Nat.mod_eq_of_lt h, Nat.div_eq_of_lt h, Nat.add_zero]

/-- What the loop ends with. -/
theorem foldAll_spec (sum : ℕ) :
    foldAll sum < 65536 ∧ foldAll sum % 65535 = sum % 65535 ∧ (0 < sum → 0 < foldAll sum) := by
  induction sum using foldAll.induct with
  | case1 sum h ih =>
    obtain ⟨hlt, hmod, hpos⟩ := ih
    rw [foldAll_fold] at hlt hmod hpos
    rw [shiftRight_ne_zero_iff] at h
    rw [fold_eq] at hmod hpos
    refine ⟨hlt, ?_, fun _ => hpos (by omega)⟩
    omega
  | case2 sum h =>
    rw [shiftRight_ne_zero_iff, not_le] at h
    rw [foldAll_of_lt h]
    exact ⟨h, rfl, id⟩

/-- A positive sum folds to its representative in `1 .. 2 ^ 16 - 1`. -/
theorem foldAll_eq_of_mod_eq {sum r : ℕ} (hsum : 0 < sum) (hr : 0 < r) (hlt : r < 65536)
    (hmod : r % 65535 = sum % 65535) : foldAll sum = r := by
  obtain ⟨hlt', hmod', hpos'⟩ := foldAll_spec sum
  have := hpos' hsum
  omega

/-- Two folds are enough for a sum of 32 bits. -/
theorem fold_fold_eq_foldAll {sum : ℕ} (h : sum < 2 ^ 32) : fold (fold sum) = foldAll sum := by
  have hlt : fold (fold sum) < 65536 := by
    rw [fold_eq (fold sum), fold_eq sum]
    omega
  rw [← foldAll_fold sum, ← foldAll_fold (fold sum), foldAll_of_lt hlt]

/-- A sum with the complement of its own fold added folds to all ones. -/
theorem foldAll_add_complement {sum : ℕ} (h : 0 < sum) :
    foldAll (sum + (65535 - foldAll sum)) = 65535 := by
  obtain ⟨hlt, hmod, hpos⟩ := foldAll_spec sum
  apply foldAll_eq_of_mod_eq (by omega) (by decide) (by decide)
  omega

end OnesComplement
