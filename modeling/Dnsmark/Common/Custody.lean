import Mathlib.Algebra.BigOperators.Group.Multiset.Basic
import Mathlib.Data.Multiset.Basic

/-!
# Tokens and the places that hold them

Tokens of a type `τ` are spread over finitely many places; a place holds a multiset of them.  If
moving tokens around never changes the multiset of all of them together, and no token occurs twice in
it, then every token is in exactly one place.
-/

namespace Custody

variable {ι τ : Type*}

/-- Everything the places hold together. -/
def total (places : List ι) (held : ι → Multiset τ) : Multiset τ := (places.map held).sum

@[simp] theorem total_nil (held : ι → Multiset τ) : total [] held = 0 := rfl

@[simp] theorem total_cons (p : ι) (places : List ι) (held : ι → Multiset τ) :
    total (p :: places) held = held p + total places held := rfl

theorem total_append (places places' : List ι) (held : ι → Multiset τ) :
    total (places ++ places') held = total places held + total places' held := by
  rw [total, List.map_append, List.sum_append]
  rfl

theorem mem_total {places : List ι} {held : ι → Multiset τ} {t : τ} :
    t ∈ total places held ↔ ∃ p ∈ places, t ∈ held p := by
  induction places with
  | nil => simp
  | cons p places ih => simp [ih]

/-- No place holds more than the total. -/
theorem le_total {places : List ι} {held : ι → Multiset τ} {p : ι} (hp : p ∈ places) :
    held p ≤ total places held := by
  induction places with
  | nil => cases hp
  | cons q places ih =>
    rw [total_cons]
    rcases List.mem_cons.mp hp with rfl | hp
    · exact Multiset.le_add_right _ _
    · exact (ih hp).trans (Multiset.le_add_left _ _)

/-- When no token occurs twice, two places that hold the same token are one. -/
theorem eq_of_mem {places : List ι} {held : ι → Multiset τ} (hnodup : (total places held).Nodup)
    {p q : ι} {t : τ} (hp : p ∈ places) (hq : q ∈ places) (htp : t ∈ held p) (htq : t ∈ held q) :
    p = q := by
  induction places with
  | nil => cases hp
  | cons r places ih =>
    obtain ⟨-, hrest, hdisj⟩ := Multiset.nodup_add.mp hnodup
    -- a token of the first place is in none of the others
    have hother : ∀ {p'}, p' ∈ places → t ∈ held p' → t ∉ held r := fun hp' ht hr =>
      Multiset.disjoint_left.mp hdisj hr (mem_total.mpr ⟨_, hp', ht⟩)
    rcases List.mem_cons.mp hp with rfl | hp' <;> rcases List.mem_cons.mp hq with rfl | hq'
    · rfl
    · exact absurd htp (hother hq' htq)
    · exact absurd htq (hother hp' htp)
    · exact ih hrest hp' hq'

end Custody
