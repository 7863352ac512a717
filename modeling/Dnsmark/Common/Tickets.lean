import Mathlib.Data.List.Nodup
import Mathlib.Logic.Function.Basic

/-!
# Tickets

Counters that hand out numbers: drawing from a counter gives its value and increments it (`fetch_add`).
Several holders draw, each from the counter it is assigned to, and keep some of what they drew.

`Issued` says that nobody holds a number twice and that holders of one counter share no number.  Drawing
keeps it (`draw`), and so does giving numbers up (`of_sublist`, `shrink`).
-/

namespace Tickets

variable {ι κ : Type*} {key : ι → κ} {next : κ → ℕ} {held held' : ι → List ℕ}

/-- What the holders have was drawn, and no two of them drew the same from one counter. -/
structure Issued (key : ι → κ) (next : κ → ℕ) (held : ι → List ℕ) : Prop where
  lt : ∀ i, ∀ g ∈ held i, g < next (key i)
  nodup : ∀ i, (held i).Nodup
  disjoint : ∀ i j, i ≠ j → key i = key j → (held i).Disjoint (held j)

namespace Issued

theorem nil (key : ι → κ) (next : κ → ℕ) : Issued key next fun _ => [] :=
  ⟨fun _ _ hmem => absurd hmem List.not_mem_nil, fun _ => List.nodup_nil,
    fun _ _ _ _ => List.disjoint_nil_left _⟩

theorem of_sublist (h : Issued key next held) (hsub : ∀ i, (held' i).Sublist (held i)) :
    Issued key next held' :=
  ⟨fun i g hg => h.lt i g ((hsub i).subset hg), fun i => (h.nodup i).sublist (hsub i),
    fun i j hne hkey => List.disjoint_of_subset_left (hsub i).subset
      (List.disjoint_of_subset_right (hsub j).subset (h.disjoint i j hne hkey))⟩

/-- The next number of a counter is held by nobody who draws from it. -/
theorem next_not_mem (h : Issued key next held) {i j : ι} (hkey : key i = key j) :
    next (key i) ∉ held j :=
  fun hmem => Nat.lt_irrefl _ (hkey ▸ h.lt j _ hmem)

variable [DecidableEq ι]

/-- Holder `i` gives numbers up. -/
theorem shrink (h : Issued key next held) {i : ι} {l : List ℕ} (hsub : l.Sublist (held i)) :
    Issued key next (Function.update held i l) :=
  h.of_sublist ((Function.forall_update_iff held fun j l => l.Sublist (held j)).mpr
    ⟨hsub, fun _ _ => List.Sublist.refl _⟩)

variable [DecidableEq κ]

/-- Holder `i` draws. -/
theorem draw (h : Issued key next held) (i : ι) :
    Issued key (Function.update next (key i) (next (key i) + 1))
      (Function.update held i (next (key i) :: held i)) := by
  have hnext : ∀ j, next (key j) ≤ Function.update next (key i) (next (key i) + 1) (key j) := by
    intro j
    by_cases hkey : key j = key i
    · rw [hkey, Function.update_self]
      exact Nat.le_succ _
    · exact Nat.le_of_eq (Function.update_of_ne hkey _ next).symm
  -- against another holder, whichever side of the pair `i` is
  have hcons : ∀ j, j ≠ i → key i = key j → (next (key i) :: held i).Disjoint (held j) := by
    intro j hne hkey
    rw [List.disjoint_cons_left]
    exact ⟨h.next_not_mem hkey, h.disjoint i j hne.symm hkey⟩
  constructor
  · rw [Function.forall_update_iff held fun j l => ∀ g ∈ l, g < _]
    refine ⟨?_, fun j _ g hg => Nat.lt_of_lt_of_le (h.lt j g hg) (hnext j)⟩
    intro g hg
    rw [Function.update_self]
    obtain rfl | hg := List.mem_cons.mp hg
    · exact Nat.lt_succ_self _
    · exact Nat.lt_succ_of_lt (h.lt i g hg)
  · rw [Function.forall_update_iff held fun _ l => l.Nodup]
    exact ⟨List.nodup_cons.mpr ⟨h.next_not_mem rfl, h.nodup i⟩, fun j _ => h.nodup j⟩
  · intro j k hne hkey
    by_cases hj : j = i
    · subst hj
      rw [Function.update_self, Function.update_of_ne hne.symm]
      exact hcons k hne.symm hkey
    · by_cases hk : k = i
      · subst hk
        rw [Function.update_self, Function.update_of_ne hj]
        exact List.disjoint_comm.mp (hcons j hj hkey.symm)
      · rw [Function.update_of_ne hj, Function.update_of_ne hk]
        exact h.disjoint j k hne hkey

end Issued

end Tickets
