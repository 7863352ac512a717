import Dnsmark.Common.SlotTable
import Mathlib.Data.Finset.Basic
import Mathlib.Data.List.Nodup

/-!
# Registering requests after they are sent

Several senders hand requests, named by slot indices, to a server and only then register each of
them in a shared slot table with a time stamp.  A reply is matched by emptying its slot; stamps that
are `late` are swept.

`Open` describes the states in which nothing has gone wrong: `awaiting i` are the requests sender
`i` has handed over and not registered, `unanswered` those whose reply has not been received.  The
lemmas say what sending, registering, receiving and waiting do to such a state.  Receiving is the
delicate one: the reply is found in the table when its request is registered, and missed when it is
still awaited.
-/

namespace Registration

variable {ι κ : Type*}

/-- Every outstanding request is awaiting its registration at one sender, or registered with a stamp
that is not late; and nothing else is. -/
structure Open (late : ℕ → Bool) (slots : SlotTable κ) (awaiting : ι → List κ)
    (unanswered : Finset κ) : Prop where
  nodup : ∀ i, (awaiting i).Nodup
  disjoint : ∀ i j, i ≠ j → ∀ id ∈ awaiting i, id ∉ awaiting j
  empty : ∀ i, ∀ id ∈ awaiting i, slots id = 0
  awaited : ∀ i, ∀ id ∈ awaiting i, id ∈ unanswered
  owed : ∀ id, slots id ≠ 0 → id ∈ unanswered
  known : ∀ id ∈ unanswered, slots id ≠ 0 ∨ ∃ i, id ∈ awaiting i
  fresh : ∀ id, slots id ≠ 0 → late (slots id) = false

/-- Whether a request is awaited anywhere can be computed. -/
instance decidableNotAwaited [Fintype ι] [DecidableEq κ] (awaiting : ι → List κ) (id : κ) :
    Decidable (∀ i, id ∉ awaiting i) := inferInstance

namespace Open

variable {late late' : ℕ → Bool} {slots : SlotTable κ} {awaiting : ι → List κ} {unanswered : Finset κ}

/-- Nothing sent yet. -/
theorem start : Open late (.empty : SlotTable κ) (fun _ : ι => []) ∅ where
  nodup _ := List.nodup_nil
  disjoint _ _ _ _ h := absurd h List.not_mem_nil
  empty _ _ h := absurd h List.not_mem_nil
  awaited _ _ h := absurd h List.not_mem_nil
  owed _ h := absurd rfl h
  known _ h := absurd h (Finset.notMem_empty _)
  fresh _ h := absurd rfl h

/-- Waiting, as long as no registered request becomes late. -/
theorem wait (h : Open late slots awaiting unanswered)
    (hfresh : ∀ id ∈ unanswered, slots id ≠ 0 → late' (slots id) = false) :
    Open late' slots awaiting unanswered :=
  { h with fresh := fun id hid => hfresh id (h.owed id hid) hid }

/-- A sweep finds nothing late. -/
theorem not_late (h : Open late slots awaiting unanswered) {id : κ} (hid : slots id ≠ 0) :
    ¬ late (slots id) = true := by
  rw [h.fresh id hid]
  exact Bool.false_ne_true

section Send

variable [DecidableEq ι] [DecidableEq κ]

/-- Sender `i` hands over a batch of requests that are neither registered nor awaited. -/
theorem send (h : Open late slots awaiting unanswered) {i : ι} (hi : awaiting i = []) {ids : List κ}
    (hnodup : ids.Nodup) (hnew : ∀ id ∈ ids, slots id = 0 ∧ ∀ j, id ∉ awaiting j) :
    Open late slots (Function.update awaiting i ids) (unanswered ∪ ids.toFinset) := by
  have hself : Function.update awaiting i ids i = ids := Function.update_self ..
  have hother : ∀ j, j ≠ i → Function.update awaiting i ids j = awaiting j :=
    fun j hj => Function.update_of_ne hj ..
  refine ⟨?_, ?_, ?_, ?_, ?_, ?_, h.fresh⟩
  · intro j
    by_cases hj : j = i
    · rw [hj, hself]
      exact hnodup
    · rw [hother j hj]
      exact h.nodup j
  · intro j k hjk id
    by_cases hj : j = i
    · have hk : k ≠ i := fun hk => hjk (hj.trans hk.symm)
      rw [hj, hself, hother k hk]
      exact fun hid => (hnew id hid).2 k
    · by_cases hk : k = i
      · rw [hother j hj, hk, hself]
        exact fun hid hmem => (hnew id hmem).2 j hid
      · rw [hother j hj, hother k hk]
        exact h.disjoint j k hjk id
  · intro j id
    by_cases hj : j = i
    · rw [hj, hself]
      exact fun hid => (hnew id hid).1
    · rw [hother j hj]
      exact h.empty j id
  · intro j id hid
    by_cases hj : j = i
    · rw [hj, hself] at hid
      exact Finset.mem_union_right _ (List.mem_toFinset.mpr hid)
    · rw [hother j hj] at hid
      exact Finset.mem_union_left _ (h.awaited j id hid)
  · exact fun id hid => Finset.mem_union_left _ (h.owed id hid)
  · intro id hid
    rcases Finset.mem_union.mp hid with hid | hid
    · rcases h.known id hid with hreg | ⟨j, hj⟩
      · exact .inl hreg
      · have hji : j ≠ i := by
          rintro rfl
          rw [hi] at hj
          exact List.not_mem_nil hj
        exact .inr ⟨j, by rwa [hother j hji]⟩
    · exact .inr ⟨i, by rw [hself]; exact List.mem_toFinset.mp hid⟩

/-- Sender `i` registers the next request of its batch. -/
theorem register (h : Open late slots awaiting unanswered) {i : ι} {id : κ} {ids : List κ}
    (hi : awaiting i = id :: ids) {v : ℕ} (hv : v ≠ 0) (hlate : late v = false) :
    Open late (slots.store id v) (Function.update awaiting i ids) unanswered := by
  have hself : Function.update awaiting i ids i = ids := Function.update_self ..
  have hother : ∀ j, j ≠ i → Function.update awaiting i ids j = awaiting j :=
    fun j hj => Function.update_of_ne hj ..
  have hsub : ∀ j, ∀ id' ∈ Function.update awaiting i ids j, id' ∈ awaiting j ∧ id' ≠ id := by
    intro j id' hid'
    have hnodup := h.nodup i
    rw [hi, List.nodup_cons] at hnodup
    by_cases hj : j = i
    · rw [hj, hself] at hid'
      refine ⟨by rw [hj, hi]; exact List.mem_cons_of_mem _ hid', ?_⟩
      rintro rfl
      exact hnodup.1 hid'
    · rw [hother j hj] at hid'
      refine ⟨hid', ?_⟩
      rintro rfl
      exact h.disjoint i j (Ne.symm hj) id' (by rw [hi]; exact List.mem_cons_self ..) hid'
  have hid : id ∈ unanswered := h.awaited i id (by rw [hi]; exact List.mem_cons_self ..)
  refine ⟨?_, ?_, ?_, ?_, ?_, ?_, ?_⟩
  · intro j
    by_cases hj : j = i
    · have hnodup := h.nodup i
      rw [hi] at hnodup
      rw [hj, hself]
      exact hnodup.of_cons
    · rw [hother j hj]
      exact h.nodup j
  · exact fun j k hjk id' hid' hk => h.disjoint j k hjk id' (hsub j id' hid').1 (hsub k id' hk).1
  · intro j id' hid'
    rw [slots.store_of_ne (hsub j id' hid').2]
    exact h.empty j id' (hsub j id' hid').1
  · exact fun j id' hid' => h.awaited j id' (hsub j id' hid').1
  · intro id' hne
    by_cases heq : id' = id
    · rw [heq]
      exact hid
    · rw [slots.store_of_ne heq] at hne
      exact h.owed id' hne
  · intro id' hun
    by_cases heq : id' = id
    · rw [heq, slots.store_self]
      exact .inl hv
    · rcases h.known id' hun with hreg | ⟨j, hj⟩
      · exact .inl (by rwa [slots.store_of_ne heq])
      · refine .inr ⟨j, ?_⟩
        by_cases hji : j = i
        · rw [hji, hself]
          rw [hji, hi] at hj
          exact (List.mem_cons.mp hj).resolve_left heq
        · rwa [hother j hji]
  · intro id' hne
    by_cases heq : id' = id
    · rw [heq, slots.store_self]
      exact hlate
    · rw [slots.store_of_ne heq] at hne ⊢
      exact h.fresh id' hne

end Send

section Receive

variable {id : κ}

/-- The reply to a registered request is found. -/
theorem found (h : Open late slots awaiting unanswered) (hid : id ∈ unanswered)
    (hreg : ∀ i, id ∉ awaiting i) : slots id ≠ 0 :=
  (h.known id hid).resolve_right fun ⟨i, hi⟩ => hreg i hi

/-- The reply to an awaited request is missed. -/
theorem missed (h : Open late slots awaiting unanswered) (hreg : ¬ ∀ i, id ∉ awaiting i) :
    slots id = 0 := by
  push Not at hreg
  obtain ⟨i, hi⟩ := hreg
  exact h.empty i id hi

/-- Matching the reply to a registered request. -/
theorem receive [DecidableEq κ] (h : Open late slots awaiting unanswered) (hreg : ∀ i, id ∉ awaiting i) :
    Open late (slots.clear id) awaiting (unanswered.erase id) := by
  have hne : ∀ id', slots.clear id id' ≠ 0 → id' ≠ id ∧ slots id' ≠ 0 := by
    intro id' hid'
    have heq : id' ≠ id := fun heq => hid' (heq ▸ slots.clear_self id)
    exact ⟨heq, by rwa [slots.clear_of_ne heq] at hid'⟩
  have hawait : ∀ i, ∀ id' ∈ awaiting i, id' ≠ id := by
    rintro i id' hid' rfl
    exact hreg i hid'
  refine ⟨h.nodup, h.disjoint, ?_, ?_, ?_, ?_, ?_⟩
  · intro i id' hid'
    rw [slots.clear_of_ne (hawait i id' hid')]
    exact h.empty i id' hid'
  · exact fun i id' hid' => Finset.mem_erase.mpr ⟨hawait i id' hid', h.awaited i id' hid'⟩
  · exact fun id' hid' => Finset.mem_erase.mpr ⟨(hne id' hid').1, h.owed id' (hne id' hid').2⟩
  · intro id' hid'
    obtain ⟨heq, hun⟩ := Finset.mem_erase.mp hid'
    rw [slots.clear_of_ne heq]
    exact h.known id' hun
  · intro id' hid'
    rw [slots.clear_of_ne (hne id' hid').1]
    exact h.fresh id' (hne id' hid').2

end Receive

end Open

end Registration
