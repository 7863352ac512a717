import Mathlib.Data.List.Pairwise

/-!
# One of each class

A scan of a list that keeps an element if it has a key and no element before it had the same one.  The
scan keeps the first element of each class, in the order of the list; if the list is ordered, the least
one.
-/

namespace Representatives

variable {α κ : Type*} [DecidableEq κ] (key : α → Option κ)

/-- The loop with its set of keys.  An element without a key is passed over. -/
def firsts : List α → List κ → List α
  | [], _ => []
  | a :: l, seen =>
    match key a with
    | none => firsts l seen
    | some k => if k ∈ seen then firsts l seen else a :: firsts l (k :: seen)

variable {key} {l : List α} {seen : List κ} {a : α} {k : κ}

theorem firsts_of_none (h : key a = none) : firsts key (a :: l) seen = firsts key l seen := by
  rw [firsts, h]

theorem firsts_of_mem (h : key a = some k) (hk : k ∈ seen) :
    firsts key (a :: l) seen = firsts key l seen := by
  rw [firsts, h]
  exact if_pos hk

theorem firsts_of_not_mem (h : key a = some k) (hk : k ∉ seen) :
    firsts key (a :: l) seen = a :: firsts key l (k :: seen) := by
  rw [firsts, h]
  exact if_neg hk

variable (key a l seen) in
/-- What one element does to the scan. -/
theorem firsts_cons_cases :
    (firsts key (a :: l) seen = firsts key l seen ∧ ∀ k, key a = some k → k ∈ seen) ∨
      ∃ k, key a = some k ∧ k ∉ seen ∧ firsts key (a :: l) seen = a :: firsts key l (k :: seen) := by
  cases h : key a with
  | none =>
    refine .inl ⟨firsts_of_none h, fun k hk => ?_⟩
    cases hk
  | some k =>
    by_cases hk : k ∈ seen
    · refine .inl ⟨firsts_of_mem h hk, fun k' hk' => ?_⟩
      exact Option.some.inj hk' ▸ hk
    · exact .inr ⟨k, rfl, hk, firsts_of_not_mem h hk⟩

variable (key l seen) in
theorem firsts_sublist : (firsts key l seen).Sublist l := by
  induction l generalizing seen with
  | nil => exact List.Sublist.refl []
  | cons a l ih =>
    obtain ⟨heq, -⟩ | ⟨k, -, -, heq⟩ := firsts_cons_cases key l seen a
    · rw [heq]
      exact (ih seen).cons a
    · rw [heq]
      exact (ih (k :: seen)).cons_cons a

/-- What is kept has a key, and a new one. -/
theorem exists_key_of_mem (h : a ∈ firsts key l seen) : ∃ k, key a = some k ∧ k ∉ seen := by
  induction l generalizing seen with
  | nil => cases h
  | cons b l ih =>
    obtain ⟨heq, -⟩ | ⟨k, hk, hnew, heq⟩ := firsts_cons_cases key l seen b
    · exact ih (heq ▸ h)
    · rw [heq] at h
      rcases List.mem_cons.mp h with rfl | h
      · exact ⟨k, hk, hnew⟩
      · obtain ⟨k', hk', hnot⟩ := ih h
        exact ⟨k', hk', fun hmem => hnot (List.mem_cons_of_mem k hmem)⟩

variable (key l seen) in
/-- No two of one class are kept. -/
theorem pairwise_firsts : (firsts key l seen).Pairwise fun a b => key a ≠ key b := by
  induction l generalizing seen with
  | nil => exact List.Pairwise.nil
  | cons a l ih =>
    obtain ⟨heq, -⟩ | ⟨k, hk, -, heq⟩ := firsts_cons_cases key l seen a
    · rw [heq]
      exact ih seen
    · rw [heq]
      refine List.pairwise_cons.mpr ⟨fun b hb hab => ?_, ih (k :: seen)⟩
      obtain ⟨k', hk', hnot⟩ := exists_key_of_mem hb
      rw [hk, hk', Option.some.injEq] at hab
      exact hnot (hab ▸ List.mem_cons_self)

theorem eq_of_key_eq {b : α} (ha : a ∈ firsts key l seen) (hb : b ∈ firsts key l seen)
    (h : key a = key b) : a = b := by
  by_contra hne
  have hsymm : Std.Symm fun a b => key a ≠ key b := ⟨fun _ _ => Ne.symm⟩
  exact (pairwise_firsts key l seen).forall ha hb hne h

/-- One of each class is kept, and none of the class stands before it. -/
theorem exists_first {R : α → α → Prop} (hl : l.Pairwise R) (ha : a ∈ l) (hk : key a = some k)
    (hnew : k ∉ seen) : ∃ b ∈ firsts key l seen, key b = some k ∧ (b = a ∨ R b a) := by
  induction l generalizing seen with
  | nil => cases ha
  | cons c l ih =>
    obtain ⟨hc, hl⟩ := List.pairwise_cons.mp hl
    obtain ⟨heq, hseen⟩ | ⟨k', hk', hnew', heq⟩ := firsts_cons_cases key l seen c
    · rcases List.mem_cons.mp ha with rfl | ha
      · exact absurd (hseen k hk) hnew
      · rw [heq]
        exact ih hl ha hnew
    · rw [heq]
      by_cases hkk : k = k'
      · -- the class of `c`: `c` is the one
        refine ⟨c, List.mem_cons_self, hkk ▸ hk', ?_⟩
        exact (List.mem_cons.mp ha).imp Eq.symm (hc a)
      · have ha : a ∈ l := by
          refine (List.mem_cons.mp ha).resolve_left ?_
          rintro rfl
          exact hkk (Option.some.inj (hk.symm.trans hk'))
        obtain ⟨b, hb, hfirst⟩ := ih hl ha fun h => (List.mem_cons.mp h).elim hkk hnew
        exact ⟨b, List.mem_cons_of_mem c hb, hfirst⟩

end Representatives
