import Mathlib.Data.List.Basic

/-!
# Queues with a history

A FIFO queue together with everything that ever arrived in it.  The queue is always the end of the
history, so how much has been read and what comes next are functions of the arrivals: the next element
is the one that arrived as number `read`.
-/

/-- A queue (first element first) and all arrivals, in order. -/
structure Fifo (α : Type*) where
  arrivals : List α
  queue : List α
  suffix : queue <:+ arrivals

namespace Fifo

variable {α : Type*}

theorem push_suffix (q : Fifo α) (a : α) : q.queue ++ [a] <:+ q.arrivals ++ [a] := by
  obtain ⟨front, hfront⟩ := q.suffix
  exact ⟨front, by rw [← hfront, List.append_assoc]⟩

theorem tail_suffix (q : Fifo α) {a : α} {rest : List α} (h : q.queue = a :: rest) :
    rest <:+ q.arrivals :=
  (List.suffix_cons a rest).trans (h ▸ q.suffix)

/-- Nothing has arrived. -/
def empty : Fifo α := ⟨[], [], List.suffix_rfl⟩

/-- An arrival. -/
def push (q : Fifo α) (a : α) : Fifo α := ⟨q.arrivals ++ [a], q.queue ++ [a], q.push_suffix a⟩

/-- Take the first element out. -/
def pop (q : Fifo α) : Option (α × Fifo α) :=
  match h : q.queue with
  | [] => none
  | a :: rest => some (a, ⟨q.arrivals, rest, q.tail_suffix h⟩)

/-- How many arrivals have been taken out. -/
def read (q : Fifo α) : ℕ := q.arrivals.length - q.queue.length

theorem read_add_length (q : Fifo α) : q.read + q.queue.length = q.arrivals.length :=
  Nat.sub_add_cancel q.suffix.length_le

@[simp] theorem read_push (q : Fifo α) (a : α) : (q.push a).read = q.read := by
  simp [read, push]

/-- An arrival does not change what arrived before. -/
theorem getElem?_push_of_lt (q : Fifo α) (a : α) {n : ℕ} (h : n < q.arrivals.length) :
    (q.push a).arrivals[n]? = q.arrivals[n]? :=
  List.getElem?_append_left h

/-- What is taken out is the arrival that is due, and one more has been read. -/
theorem pop_eq_some {q q' : Fifo α} {a : α} (h : q.pop = some (a, q')) :
    q.arrivals[q.read]? = some a ∧ q'.arrivals = q.arrivals ∧ q'.read = q.read + 1 := by
  unfold pop at h
  split at h
  · cases h
  · rename_i b rest hqueue
    cases h
    obtain ⟨front, hfront⟩ := q.suffix
    have hlength : front.length = q.read := by
      have hall := congrArg List.length hfront
      have hread := q.read_add_length
      rw [List.length_append] at hall
      omega
    refine ⟨?_, rfl, ?_⟩
    · rw [← hfront, ← hlength, hqueue, List.getElem?_append_right (Nat.le_refl _),
        Nat.sub_self]
      rfl
    · have hread := q.read_add_length
      rw [hqueue, List.length_cons] at hread
      change q.arrivals.length - rest.length = q.read + 1
      omega

end Fifo
