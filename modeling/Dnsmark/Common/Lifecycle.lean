import Mathlib.Data.List.Induction
import Mathlib.Data.List.Nodup
import Mathlib.Logic.ExistsUnique

/-!
# The life of an entry in a history of events

A store is described by its history: an event may put in one value, and it may make values that are
there leave, each in some way.  The same value can be put in twice, so an entry is a value together
with the number of the event that put it in.  An entry survives a history when no later event makes it
leave.

`survives_concat` says what one event does to the survivors.  From it a store whose step obeys the same
equation holds exactly the values that survive (`holds_foldl`).  That an entry which does not survive
left once, by one event and in one way, is a fact about histories alone (`existsUnique_leaves`).
-/

/-- What an event puts in, and in which way it makes a value leave, if it does. -/
structure Lifecycle (ε β κ : Type*) where
  puts : ε → Option β
  exit : ε → β → Option κ

namespace Lifecycle

/-- A value and the number of the event that put it in. -/
@[ext]
structure Entry (β : Type*) where
  serial : ℕ
  value : β
deriving DecidableEq, Repr

variable {ε β κ : Type*} (L : Lifecycle ε β κ)

/-- The entry was put in. -/
def Written (es : List ε) (a : Entry β) : Prop :=
  ∃ e, es[a.serial]? = some e ∧ L.puts e = some a.value

/-- The entry was put in, and no later event made it leave. -/
def Survives (es : List ε) (a : Entry β) : Prop :=
  L.Written es a ∧ ∀ j e, a.serial < j → es[j]? = some e → L.exit e a.value = none

/-- Event number `j` found the entry there and made it leave by `how`. -/
def Leaves (es : List ε) (a : Entry β) (j : ℕ) (how : κ) : Prop :=
  L.Survives (es.take j) a ∧ ∃ e, es[j]? = some e ∧ L.exit e a.value = some how

variable {L} {es : List ε} {a a' : Entry β}

theorem Written.serial_lt (h : L.Written es a) : a.serial < es.length := by
  obtain ⟨e, he, -⟩ := h
  exact (List.getElem?_eq_some_iff.mp he).1

/-- An event puts in one value only. -/
theorem Written.eq_of_serial_eq (h : L.Written es a) (h' : L.Written es a')
    (hserial : a.serial = a'.serial) : a = a' := by
  obtain ⟨e, he, hputs⟩ := h
  obtain ⟨e', he', hputs'⟩ := h'
  rw [← hserial, he, Option.some.injEq] at he'
  rw [← he', hputs, Option.some.injEq] at hputs'
  exact Entry.ext hserial hputs'

/-! ## Prefixes and one more event -/

theorem getElem?_take_eq_some {j i : ℕ} {e : ε} :
    (es.take j)[i]? = some e ↔ i < j ∧ es[i]? = some e := by
  rw [List.getElem?_take]
  split <;> simp [*]

theorem written_take {j : ℕ} : L.Written (es.take j) a ↔ a.serial < j ∧ L.Written es a := by
  simp only [Written, getElem?_take_eq_some, and_assoc, exists_and_left]

theorem written_concat {e : ε} :
    L.Written (es ++ [e]) a ↔
      L.Written es a ∨ a.serial = es.length ∧ L.puts e = some a.value := by
  rcases Nat.lt_trichotomy a.serial es.length with hlt | heq | hgt
  · simp [Written, List.getElem?_append_left hlt, Nat.ne_of_lt hlt]
  · simp [Written, heq]
  · have hnone : (es ++ [e])[a.serial]? = none := by
      rw [List.getElem?_eq_none_iff, List.length_append, List.length_singleton]
      exact hgt
    simp [Written, hnone, List.getElem?_eq_none (Nat.le_of_lt hgt), Nat.ne_of_gt hgt]

/-- What one event does to the survivors: those it makes leave are gone, and the one it puts in is
there. -/
theorem survives_concat {e : ε} :
    L.Survives (es ++ [e]) a ↔
      L.Survives es a ∧ L.exit e a.value = none ∨
        a.serial = es.length ∧ L.puts e = some a.value := by
  constructor
  · rintro ⟨hwritten, hstays⟩
    rcases written_concat.mp hwritten with hbefore | hnow
    · refine .inl ⟨⟨hbefore, fun j e' hj he' => hstays j e' hj ?_⟩, ?_⟩
      · rw [List.getElem?_append_left (List.getElem?_eq_some_iff.mp he').1]
        exact he'
      · exact hstays es.length e hbefore.serial_lt List.getElem?_concat_length
    · exact .inr hnow
  · rintro (⟨⟨hbefore, hstays⟩, hexit⟩ | hnow)
    · refine ⟨written_concat.mpr (.inl hbefore), fun j e' hj he' => ?_⟩
      rcases Nat.lt_or_ge j es.length with hlt | hge
      · rw [List.getElem?_append_left hlt] at he'
        exact hstays j e' hj he'
      · rw [List.getElem?_append_right hge, List.getElem?_singleton] at he'
        split at he'
        · rw [← Option.some.inj he']
          exact hexit
        · exact absurd he'.symm (Option.some_ne_none e')
    · refine ⟨written_concat.mpr (.inr hnow), fun j e' hj he' => ?_⟩
      -- no event comes after the last one
      have hlt := (List.getElem?_eq_some_iff.mp he').1
      rw [List.length_append, List.length_singleton] at hlt
      omega

/-! ## Leaving once -/

theorem Leaves.written {j : ℕ} {how : κ} (h : L.Leaves es a j how) :
    a.serial < j ∧ L.Written es a := written_take.mp h.1.1

/-- An entry that leaves was not made to leave before. -/
theorem Leaves.exit_eq_none {i j : ℕ} {how : κ} {e : ε} (h : L.Leaves es a j how)
    (hi : a.serial < i) (hij : i < j) (he : es[i]? = some e) : L.exit e a.value = none :=
  h.1.2 i e hi (getElem?_take_eq_some.mpr ⟨hij, he⟩)

theorem Leaves.le {i j : ℕ} {how how' : κ} (h : L.Leaves es a i how)
    (h' : L.Leaves es a j how') : j ≤ i := by
  by_contra hij
  obtain ⟨e, he, hexit⟩ := h.2
  rw [h'.exit_eq_none h.written.1 (Nat.not_le.mp hij) he] at hexit
  exact absurd hexit.symm (Option.some_ne_none how)

/-- An entry leaves by one event and in one way. -/
theorem Leaves.unique {i j : ℕ} {how how' : κ} (h : L.Leaves es a i how)
    (h' : L.Leaves es a j how') : i = j ∧ how = how' := by
  obtain rfl : i = j := Nat.le_antisymm (h'.le h) (h.le h')
  obtain ⟨e, he, hexit⟩ := h.2
  obtain ⟨e', he', hexit'⟩ := h'.2
  rw [he, Option.some.injEq] at he'
  rw [← he', hexit, Option.some.injEq] at hexit'
  exact ⟨rfl, hexit'⟩

/-- An entry survives when it was put in and never leaves. -/
theorem survives_iff :
    L.Survives es a ↔ L.Written es a ∧ ∀ j how, ¬ L.Leaves es a j how := by
  constructor
  · rintro ⟨hwritten, hstays⟩
    refine ⟨hwritten, fun j how hleaves => ?_⟩
    obtain ⟨e, he, hexit⟩ := hleaves.2
    rw [hstays j e hleaves.written.1 he] at hexit
    exact absurd hexit.symm (Option.some_ne_none how)
  · rintro ⟨hwritten, hnever⟩
    refine ⟨hwritten, fun j => ?_⟩
    -- an event that made it leave, with none before it, would be where it leaves
    induction j using Nat.strongRecOn with
    | _ j ih =>
      intro e hj he
      by_contra hexit
      obtain ⟨how, hexit⟩ := Option.ne_none_iff_exists'.mp hexit
      refine hnever j how ⟨⟨written_take.mpr ⟨hj, hwritten⟩, fun i e' hi he' => ?_⟩, e, he, hexit⟩
      obtain ⟨hij, he'⟩ := getElem?_take_eq_some.mp he'
      exact ih i hij e' hi he'

/-- An entry that was put in and does not survive leaves by exactly one event, in exactly one way. -/
theorem existsUnique_leaves (hwritten : L.Written es a) (hgone : ¬ L.Survives es a) :
    ∃! p : ℕ × κ, L.Leaves es a p.1 p.2 := by
  rw [survives_iff, not_and] at hgone
  obtain ⟨j, hj⟩ := not_forall.mp (hgone hwritten)
  obtain ⟨how, hleaves⟩ := not_forall_not.mp hj
  refine ⟨(j, how), hleaves, fun p hp => ?_⟩
  obtain ⟨hserial, hhow⟩ := hp.unique hleaves
  exact Prod.ext hserial hhow

/-! ## Survivors that exclude each other -/

/-- If putting in a value makes every value leave that it conflicts with, two survivors in conflict are
one entry. -/
theorem Survives.unique (Conflict : β → β → Prop) (hsymm : ∀ b b', Conflict b b' → Conflict b' b)
    (hputs : ∀ e b b', L.puts e = some b → Conflict b b' → L.exit e b' ≠ none)
    (h : L.Survives es a) (h' : L.Survives es a') (hconflict : Conflict a.value a'.value) :
    a = a' := by
  have hle : ∀ {c c' : Entry β}, L.Survives es c → L.Survives es c' → Conflict c.value c'.value →
      c.serial ≤ c'.serial := by
    intro c c' hc hc' hcc'
    obtain ⟨e, he, hput⟩ := hc.1
    by_contra hlt
    exact hputs e _ _ hput hcc' (hc'.2 c.serial e (Nat.not_le.mp hlt) he)
  exact h.1.eq_of_serial_eq h'.1
    (Nat.le_antisymm (hle h h' hconflict) (hle h' h (hsymm _ _ hconflict)))

/-! ## Stores -/

/-- A store that starts empty and whose step loses what the event makes leave and gains what it puts in
holds the values of the survivors. -/
theorem holds_foldl {σ : Type*} {step : σ → ε → σ} {s₀ : σ} (Holds : σ → β → Prop)
    (Inv : σ → Prop) (Ok : ε → Prop) (hinit : Inv s₀) (hinv : ∀ s e, Inv s → Inv (step s e))
    (hempty : ∀ b, ¬ Holds s₀ b)
    (hstep : ∀ s e b, Inv s → Ok e →
      (Holds (step s e) b ↔ Holds s b ∧ L.exit e b = none ∨ L.puts e = some b))
    (es : List ε) (hok : ∀ e ∈ es, Ok e) :
    Inv (es.foldl step s₀) ∧
      ∀ b, Holds (es.foldl step s₀) b ↔ ∃ n, L.Survives es ⟨n, b⟩ := by
  induction es using List.reverseRecOn with
  | nil =>
    refine ⟨hinit, fun b => iff_of_false (hempty b) ?_⟩
    rintro ⟨n, hwritten, -⟩
    exact absurd hwritten.serial_lt (Nat.not_lt_zero n)
  | append_singleton es e ih =>
    obtain ⟨hes, hholds⟩ := ih fun e' he' => hok e' (List.mem_append_left [e] he')
    rw [List.foldl_append, List.foldl_cons, List.foldl_nil]
    refine ⟨hinv _ e hes, fun b => ?_⟩
    rw [hstep _ e b hes (hok e List.mem_concat_self), hholds b]
    simp only [survives_concat, exists_or, exists_and_right, exists_eq, true_and]

/-- The survivors that an event makes leave, listed along with the values of the store. -/
theorem exists_leaving {held : List β} (hnodup : held.Nodup)
    (hheld : ∀ b, b ∈ held ↔ ∃ n, L.Survives es ⟨n, b⟩)
    (hunique : ∀ a a', L.Survives es a → L.Survives es a' → a.value = a'.value → a = a') (e : ε) :
    ∃ gone : List (Entry β), gone.Nodup ∧
      gone.map Entry.value = held.filter (fun b => (L.exit e b).isSome) ∧
      ∀ a, a ∈ gone ↔ L.Survives es a ∧ ∃ how, L.exit e a.value = some how := by
  classical
  -- the number of the event that put a held value in
  let serialOf : β → ℕ := fun b => if h : b ∈ held then ((hheld b).mp h).choose else 0
  have hserial : ∀ b, b ∈ held → L.Survives es ⟨serialOf b, b⟩ := by
    intro b hb
    simp only [serialOf, dif_pos hb]
    exact ((hheld b).mp hb).choose_spec
  have hinj : Function.Injective fun b => (⟨serialOf b, b⟩ : Entry β) :=
    fun b b' h => congrArg Entry.value h
  refine ⟨(held.filter fun b => (L.exit e b).isSome).map fun b => ⟨serialOf b, b⟩,
    (hnodup.filter _).map hinj, ?_, fun a => ?_⟩
  · rw [List.map_map]
    exact List.map_id _
  · simp only [List.mem_map, List.mem_filter, Option.isSome_iff_exists]
    constructor
    · rintro ⟨b, ⟨hb, hexit⟩, rfl⟩
      exact ⟨hserial b hb, hexit⟩
    · rintro ⟨ha, hexit⟩
      have hmem := (hheld a.value).mpr ⟨a.serial, ha⟩
      exact ⟨a.value, ⟨hmem, hexit⟩, hunique _ _ (hserial _ hmem) ha rfl⟩

end Lifecycle
