import Dnsmark.Common.RoundRobin
import Dnsmark.Query.Source

/-!
# The mix of the queries

A worker takes its queries in one of two ways.  `next` of `src/query/file.rs` and `src/query/builtin.rs`
hands out the entries in turn, from one atomic cursor that all workers share.  The pool of
`src/query/wire.rs` leaves the cursor to its caller: each worker has one of its own, which starts anywhere.
Both cursors are a `usize` that wraps.

On either way each query gets its share of what is sent, up to one round more or less (`RoundRobin`).
-/

namespace Dnsmark

/-- `next` over a list of entries: the one under the cursor, and the cursor afterwards.  There is none in
an empty list, where the source divides by zero. -/
def nextEntry (entries : List QueryEntry) (index : UInt64) : Option (QueryEntry × UInt64) :=
  entries[index.toNat % entries.length]?.map fun e => (e, index + 1)

/-- `FileQuerySource::next`. -/
def FileQuerySource.next (source : FileQuerySource) (index : UInt64) : Option (QueryEntry × UInt64) :=
  nextEntry source.entries index

structure BuiltinQuerySource where
  entries : List QueryEntry

/-- `BuiltinQuerySource::new`, from the text that is compiled in. -/
def BuiltinQuerySource.new (corpus : Text) : BuiltinQuerySource :=
  ⟨(queryLines corpus).map QueryEntry.ofLine⟩

/-- `BuiltinQuerySource::next`. -/
def BuiltinQuerySource.next (source : BuiltinQuerySource) (index : UInt64) :
    Option (QueryEntry × UInt64) :=
  nextEntry source.entries index

/-- Workers that ask one source; each keeps what it was handed. -/
def asking (ι : Type) (next : UInt64 → Option (QueryEntry × UInt64)) :
    Threads ι (List QueryEntry) UInt64 Unit Empty where
  step _ handed index _ := (next index).map fun (e, index) => (handed ++ [e], index)
  env _ _ k := nomatch k

/-! ## The cursor -/

/-- A `usize` after `k` increments. -/
theorem toNat_iterate_succ (start : UInt64) (k : ℕ) :
    ((· + 1)^[k] start).toNat = (start.toNat + k) % 2 ^ 64 := by
  induction k with
  | zero => exact (Nat.mod_eq_of_lt start.toNat_lt).symm
  | succ k ih =>
    rw [Function.iterate_succ_apply', UInt64.toNat_add, ih]
    show ((start.toNat + k) % 2 ^ 64 + 1) % 2 ^ 64 = (start.toNat + (k + 1)) % 2 ^ 64
    rw [Nat.mod_add_mod, Nat.add_assoc]

/-- A list with entries always has one under the cursor. -/
theorem nextEntry_eq {entries : List QueryEntry} (h : entries ≠ []) (d : QueryEntry) (index : UInt64) :
    nextEntry entries index = some (entries.getD (index.toNat % entries.length) d, index + 1) := by
  have hlt : index.toNat % entries.length < entries.length := Nat.mod_lt _ (List.length_pos_iff.mpr h)
  rw [nextEntry, List.getElem?_eq_getElem hlt, List.getD_eq_getElem _ _ hlt]
  rfl

/-- The workers deal the entries out among them. -/
theorem asking_eq_dealers {ι : Type} {entries : List QueryEntry} (h : entries ≠ []) (d : QueryEntry) :
    asking ι (nextEntry entries)
      = RoundRobin.dealers (· + 1) fun index : UInt64 => entries.getD (index.toNat % entries.length) d := by
  unfold asking RoundRobin.dealers
  congr 1
  funext i handed index a
  rw [nextEntry_eq h d]
  rfl

section Shares

variable {α : Type} (values : List α) (hvalues : values ≠ []) (d : α) (start n : ℕ)

include hvalues

theorem picks_lt (w : ℕ) : ∀ j ∈ RoundRobin.picks w values.length start n, j < values.length := by
  intro j hj
  obtain ⟨k, -, rfl⟩ := List.mem_map.mp hj
  exact Nat.mod_lt _ (List.length_pos_iff.mpr hvalues)

variable [BEq α]

/-- The share of a value in `n` turns of a `usize` cursor. -/
theorem share_of_picks (hn : n ≤ 2 ^ 64) (a : α) :
    values.count a * (n / values.length)
        ≤ ((RoundRobin.picks 64 values.length start n).map fun j => values.getD j d).count a
          + values.count a ∧
      ((RoundRobin.picks 64 values.length start n).map fun j => values.getD j d).count a
        ≤ values.count a * (n / values.length + 2) := by
  have hlo : ∀ j < values.length,
      n / values.length - 1 ≤ (RoundRobin.picks 64 values.length start n).count j := fun j hj =>
    Nat.sub_le_of_le_add (RoundRobin.count_picks hj hn).1
  have hhi : ∀ j < values.length,
      (RoundRobin.picks 64 values.length start n).count j ≤ n / values.length + 2 := fun j hj =>
    (RoundRobin.count_picks hj hn).2
  obtain ⟨hlo, hhi⟩ := RoundRobin.count_map_bounds values d (picks_lt values hvalues start n 64) hlo hhi a
  refine ⟨?_, hhi⟩
  calc values.count a * (n / values.length)
      ≤ values.count a * (n / values.length - 1 + 1) := Nat.mul_le_mul_left _ (by omega)
    _ = values.count a * (n / values.length - 1) + values.count a := Nat.mul_succ _ _
    _ ≤ _ := Nat.add_le_add_right hlo _

/-- The same where the cursor does not wrap. -/
theorem share_of_turns (hstart : start < 2 ^ 64) (hwrap : start + n ≤ 2 ^ 64) (a : α) :
    values.count a * (n / values.length)
        ≤ ((RoundRobin.picks 64 values.length start n).map fun j => values.getD j d).count a ∧
      ((RoundRobin.picks 64 values.length start n).map fun j => values.getD j d).count a
        ≤ values.count a * (n / values.length + 1) := by
  have hmod : start % 2 ^ 64 = start := Nat.mod_eq_of_lt hstart
  have hpicks : RoundRobin.picks 64 values.length start n = RoundRobin.turns values.length start n := by
    rw [RoundRobin.picks_eq_turns (by rw [hmod]; exact hwrap), hmod]
  rw [hpicks]
  have hcount := fun j (hj : j < values.length) => RoundRobin.count_turns hj start n
  exact RoundRobin.count_map_bounds values d
    (hpicks ▸ picks_lt values hvalues start n 64)
    (fun j hj => (hcount j hj).1) (fun j hj => (hcount j hj).2) a

end Shares

/-! ## Both ways -/

/-- The queries of `n` sends of a worker whose own cursor starts at `start`. -/
def WireQueryPool.sends (entries : List (String × UInt16)) (h : entries ≠ []) (start : UInt64) (n : ℕ) :
    List (String × UInt16) :=
  (List.range n).map fun k => selected entries h ((· + 1)^[k] start).toNat

theorem WireQueryPool.sends_eq {entries : List (String × UInt16)} (h : entries ≠ []) (d : String × UInt16)
    (start : UInt64) (n : ℕ) :
    sends entries h start n
      = (RoundRobin.picks 64 entries.length start.toNat n).map fun j => entries.getD j d := by
  rw [RoundRobin.picks, List.map_map]
  refine List.map_congr_left fun k _ => ?_
  rw [Function.comp_apply, ← toNat_iterate_succ, selected,
    List.getD_eq_getElem _ _ (Nat.mod_lt _ (List.length_pos_iff.mpr h))]
  rfl

/-- What the workers were handed together, from a source with entries. -/
theorem sum_handed {ι : Type} [Fintype ι] [DecidableEq ι] {entries : List QueryEntry} (h : entries ≠ [])
    (d : QueryEntry) {start : UInt64} {es : List (Threads.Event ι Unit Empty)}
    {s : Threads.State ι (List QueryEntry) UInt64}
    (hrun : (asking ι (nextEntry entries)).machine.run ⟨fun _ => [], start⟩ es = some s) (e : QueryEntry) :
    ∑ i, (s.threads i).count e
      = ((RoundRobin.picks 64 entries.length start.toNat es.length).map fun j => entries.getD j d).count e := by
  rw [asking_eq_dealers h d] at hrun
  have hsum := congrArg (Multiset.count e) (RoundRobin.sum_dealt hrun)
  simp only [Multiset.count_sum', Multiset.coe_count] at hsum
  rw [hsum, RoundRobin.picks, List.map_map]
  congr 1
  refine List.map_congr_left fun k _ => ?_
  rw [toNat_iterate_succ]
  rfl

/-- What came out `taken` times of `n` draws has its share: it stands in `share` of `len` places.  Nothing is
missing and at most one round is extra where the cursor does not wrap; a wrap costs one round either way. -/
structure HasShare (share len start n taken : ℕ) : Prop where
  le_add : share * (n / len) ≤ taken + share
  le : taken ≤ share * (n / len + 2)
  unwrapped : start + n ≤ 2 ^ 64 → share * (n / len) ≤ taken ∧ taken ≤ share * (n / len + 1)

/-- Up to `2 ^ 64` calls of `next` hand out each entry by its share, to any workers together and in every
interleaving of their calls. -/
def HandsOutEvenly (entries : List QueryEntry) (next : UInt64 → Option (QueryEntry × UInt64)) : Prop :=
  ∀ (ι : Type) [Fintype ι] [DecidableEq ι] (start : UInt64) (es : List (Threads.Event ι Unit Empty))
    (s : Threads.State ι (List QueryEntry) UInt64),
    (asking ι next).machine.run ⟨fun _ => [], start⟩ es = some s → es.length ≤ 2 ^ 64 →
    ∀ e : QueryEntry,
      HasShare (entries.count e) entries.length start.toNat es.length (∑ i, (s.threads i).count e)

theorem hasShare_of_picks {α : Type} [BEq α] {values : List α} (hvalues : values ≠ []) (a : α) {start n : ℕ}
    (hstart : start < 2 ^ 64) (hn : n ≤ 2 ^ 64) :
    HasShare (values.count a) values.length start n
      (((RoundRobin.picks 64 values.length start n).map fun j => values.getD j a).count a) where
  le_add := (share_of_picks values hvalues a start n hn a).1
  le := (share_of_picks values hvalues a start n hn a).2
  unwrapped hwrap := share_of_turns values hvalues a start n hstart hwrap a

theorem handsOutEvenly_nextEntry (entries : List QueryEntry) :
    HandsOutEvenly entries (nextEntry entries) := by
  intro ι _ _ start es s hrun hn e
  by_cases hentries : entries = []
  · subst hentries
    cases es with
    | nil =>
      obtain rfl := Option.some.inj hrun
      exact ⟨by simp, by simp, fun _ => by simp⟩
    | cons ev es =>
      -- the first call divides by zero
      obtain ⟨t, hstep, -⟩ := Machine.run_cons_eq_some _ |>.mp hrun
      obtain ⟨i, a, handed, index, -, hp, -⟩ | ⟨k, -⟩ := Threads.machine_step_cases _ hstep
      · cases hp
      · exact k.elim
  · rw [sum_handed hentries e hrun]
    exact hasShare_of_picks hentries e start.toNat_lt hn

/-- Queries are mixed evenly, whichever way they are taken.  Over up to `2 ^ 64` queries each one has its
share:

* from the shared cursor of a file or of the builtin corpus, for any number of workers together and in every
  interleaving of their calls;
* from a worker's own cursor over a pool, wherever it starts. -/
theorem queries_mixed_evenly :
    (∀ source : FileQuerySource, HandsOutEvenly source.entries source.next) ∧
    (∀ source : BuiltinQuerySource, HandsOutEvenly source.entries source.next) ∧
    ∀ (entries : List (String × UInt16)) (hne : entries ≠ []) (start : UInt64) (n : ℕ), n ≤ 2 ^ 64 →
      ∀ p : String × UInt16,
        HasShare (entries.count p) entries.length start.toNat n
          ((WireQueryPool.sends entries hne start n).count p) := by
  refine ⟨fun source => handsOutEvenly_nextEntry _, fun source => handsOutEvenly_nextEntry _, ?_⟩
  intro entries hne start n hn p
  rw [WireQueryPool.sends_eq hne p]
  exact hasShare_of_picks hne p start.toNat_lt hn

/-- A corpus with two queries, the first of them twice. -/
def threeLines : Text := "a.test\na.test A\n# end\nb.test AAAA\n".toList

/-- Two workers, seven calls. -/
def sevenCalls : List (Threads.Event (Fin 2) Unit Empty) :=
  [.thread 0 (), .thread 1 (), .thread 1 (), .thread 1 (), .thread 0 (), .thread 1 (), .thread 0 ()]

theorem entries_threeLines : (BuiltinQuerySource.new threeLines).entries
    = [⟨"a.test", 1⟩, ⟨"a.test", 1⟩, ⟨"b.test", 28⟩] := by decide +kernel

/-- Two rounds and a call: the first query has been handed out four to six times. -/
theorem queries_mixed_evenly_sevenCalls :
    ∃ s, (asking (Fin 2) (BuiltinQuerySource.new threeLines).next).machine.run ⟨fun _ => [], 0⟩ sevenCalls
        = some s ∧
      2 * (7 / 3) ≤ ∑ i, (s.threads i).count ⟨"a.test", 1⟩ ∧
      ∑ i, (s.threads i).count ⟨"a.test", 1⟩ ≤ 2 * (7 / 3 + 1) := by
  have hnext : (BuiltinQuerySource.new threeLines).next
      = nextEntry [⟨"a.test", 1⟩, ⟨"a.test", 1⟩, ⟨"b.test", 28⟩] := by
    funext index
    rw [BuiltinQuerySource.next, entries_threeLines]
  obtain ⟨s, hrun⟩ : ∃ s, (asking (Fin 2) (BuiltinQuerySource.new threeLines).next).machine.run
      ⟨fun _ => [], 0⟩ sevenCalls = some s := by
    rw [hnext]
    exact ⟨_, rfl⟩
  have hshare := queries_mixed_evenly.2.1 (.new threeLines) (Fin 2) 0 sevenCalls s hrun (by decide)
    ⟨"a.test", 1⟩
  rw [entries_threeLines] at hshare
  exact ⟨s, hrun, hshare.unwrapped (by decide)⟩

end Dnsmark
