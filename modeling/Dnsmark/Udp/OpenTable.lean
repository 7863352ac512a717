import Dnsmark.Common.Lifecycle
import Dnsmark.Inflight.Table

/-!
# The open-addressed in-flight table

`InFlight` of `src/transport/udp.rs`, the table of one worker: a power of two of slots, each with the id
and the send time of the query in it, and a query's slot given by the low bits of its id.  Two ids can
share a slot.  An insert into a slot with another id evicts that entry and returns its age; an insert
of the same id replaces the entry without a word.

The table is a store in the sense of `Lifecycle`: a call puts in at most one entry, and it makes the
entries leave that `Call.exit` says.  What remains to be shown about the slots is one equation for each
call (`mem_live_run`) and one for what the call returns (`run_snd`).
-/

namespace Dnsmark.Udp.OpenTable

/-- `(query_id, send_time_ns)`, a time of `0` = empty. -/
abbrev Slot := QueryId × ℕ

/-- `usize::next_power_of_two`; past `2 ^ 63` the release build wraps to `0`. -/
def nextPowerOfTwo (n : ℕ) : ℕ := (if n ≤ 1 then 1 else 2 ^ (Nat.log2 (n - 1) + 1)) % 2 ^ 64

/-- The slot of an id in a table of `len` slots. -/
def indexIn (len : ℕ) (id : QueryId) : ℕ := id.val &&& (len - 1)

/-- There are a power of two of slots, and an entry is in the slot of its id. -/
structure WellPlaced (slots : List Slot) : Prop where
  isPow : ∃ k, slots.length = 2 ^ k
  placed : ∀ i slot, slots[i]? = some slot → slot.2 ≠ 0 → indexIn slots.length slot.1 = i

/-- The table. -/
structure InFlight where
  slots : List Slot
  wellPlaced : WellPlaced slots

/-- The loop of `sweep` and `drain`: empty the slots whose send time is `gone`, and collect the ages of
their entries in microseconds. -/
def scan (gone : ℕ → Bool) (nowNs : ℕ) : List Slot → List Slot × List ℕ
  | [] => ([], [])
  | slot :: slots =>
    let rest := scan gone nowNs slots
    if slot.2 ≠ 0 ∧ gone slot.2 then ((0, 0) :: rest.1, (nowNs - slot.2) / 1000 :: rest.2)
    else (slot :: rest.1, rest.2)

/-! ## Well-placed slots -/

theorem exists_pow_max_nextPowerOfTwo (n : ℕ) : ∃ k, max (nextPowerOfTwo n) 256 = 2 ^ k := by
  obtain ⟨k, hk⟩ : ∃ k, (if n ≤ 1 then 1 else 2 ^ (Nat.log2 (n - 1) + 1)) = 2 ^ k := by
    split
    · exact ⟨0, rfl⟩
    · exact ⟨_, rfl⟩
  rw [nextPowerOfTwo, hk]
  rcases Nat.lt_or_ge k 64 with hlt | hge
  · rw [Nat.mod_eq_of_lt (Nat.pow_lt_pow_right Nat.one_lt_two hlt)]
    rcases Nat.le_total (2 ^ k) 256 with hle | hle
    · exact ⟨8, Nat.max_eq_right hle⟩
    · exact ⟨k, Nat.max_eq_left hle⟩
  · -- the wrapped result
    rw [Nat.mod_eq_zero_of_dvd (Nat.pow_dvd_pow 2 hge)]
    exact ⟨8, rfl⟩

theorem wellPlaced_new (capacity : ℕ) :
    WellPlaced (List.replicate (max (nextPowerOfTwo capacity) 256) (0, 0)) where
  isPow := by
    rw [List.length_replicate]
    exact exists_pow_max_nextPowerOfTwo capacity
  placed i slot hslot hne := by
    rw [(List.mem_replicate.mp (List.mem_of_getElem? hslot)).2] at hne
    exact absurd rfl hne

/-- A slot of its own entry, or of none. -/
theorem WellPlaced.set {slots : List Slot} (h : WellPlaced slots) (i : ℕ) (slot : Slot)
    (hslot : slot.2 ≠ 0 → indexIn slots.length slot.1 = i) : WellPlaced (slots.set i slot) where
  isPow := by
    rw [List.length_set]
    exact h.isPow
  placed j slot' hslot' hne := by
    rw [List.length_set]
    rw [List.getElem?_set] at hslot'
    split at hslot'
    · rename_i hij
      split at hslot'
      · rw [← Option.some.inj hslot'] at hne ⊢
        rw [hslot hne, hij]
      · exact absurd hslot'.symm (Option.some_ne_none slot')
    · exact h.placed j slot' hslot' hne

theorem scan_fst (gone : ℕ → Bool) (nowNs : ℕ) (slots : List Slot) :
    (scan gone nowNs slots).1 =
      slots.map fun slot => if slot.2 ≠ 0 ∧ gone slot.2 then (0, 0) else slot := by
  induction slots with
  | nil => rfl
  | cons slot slots ih =>
    rw [scan, List.map_cons, ← ih]
    split <;> rfl

theorem scan_snd (gone : ℕ → Bool) (nowNs : ℕ) (slots : List Slot) :
    (scan gone nowNs slots).2 =
      (slots.filter fun slot => slot.2 ≠ 0 ∧ gone slot.2).map fun slot =>
        (nowNs - slot.2) / 1000 := by
  induction slots with
  | nil => rfl
  | cons slot slots ih =>
    rw [scan, List.filter_cons, ih]
    by_cases h : slot.2 ≠ 0 ∧ gone slot.2
    · rw [if_pos h, if_pos (decide_eq_true h), List.map_cons]
    · rw [if_neg h, if_neg (by simpa using h)]

namespace InFlight

theorem wellPlaced_store (t : InFlight) (id : QueryId) (nowNs : ℕ) :
    WellPlaced (t.slots.set (indexIn t.slots.length id) (id, nowNs)) :=
  t.wellPlaced.set _ _ fun _ => rfl

theorem wellPlaced_clear (t : InFlight) (id : QueryId) :
    WellPlaced (t.slots.set (indexIn t.slots.length id) (0, 0)) :=
  t.wellPlaced.set _ _ fun h => absurd rfl h

theorem wellPlaced_scan (t : InFlight) (gone : ℕ → Bool) (nowNs : ℕ) :
    WellPlaced (scan gone nowNs t.slots).1 where
  isPow := by
    rw [scan_fst, List.length_map]
    exact t.wellPlaced.isPow
  placed i slot hslot hne := by
    rw [scan_fst, List.getElem?_map, Option.map_eq_some_iff] at hslot
    obtain ⟨slot', hslot', rfl⟩ := hslot
    rw [scan_fst, List.length_map]
    split at hne
    · exact absurd rfl hne
    · rename_i hkept
      rw [if_neg hkept]
      exact t.wellPlaced.placed i slot' hslot' hne

/-- An id's slot is one of the table's. -/
theorem index_lt (t : InFlight) (id : QueryId) : indexIn t.slots.length id < t.slots.length := by
  obtain ⟨k, hk⟩ := t.wellPlaced.isPow
  rw [hk, indexIn, Nat.and_two_pow_sub_one_eq_mod]
  exact Nat.mod_lt _ (Nat.two_pow_pos k)

/-! ## The calls -/

/-- `InFlight::new`. -/
def new (capacity : ℕ) : InFlight where
  slots := List.replicate (max (nextPowerOfTwo capacity) 256) (0, 0)
  wellPlaced := wellPlaced_new capacity

/-- The slot of an id. -/
def slot (t : InFlight) (id : QueryId) : Slot :=
  t.slots.get ⟨indexIn t.slots.length id, t.index_lt id⟩

/-- `*slot = (id, now_ns)`. -/
def store (t : InFlight) (id : QueryId) (nowNs : ℕ) : InFlight where
  slots := t.slots.set (indexIn t.slots.length id) (id, nowNs)
  wellPlaced := t.wellPlaced_store id nowNs

/-- `*slot = (0, 0)`. -/
def clear (t : InFlight) (id : QueryId) : InFlight where
  slots := t.slots.set (indexIn t.slots.length id) (0, 0)
  wellPlaced := t.wellPlaced_clear id

/-- `insert`: the age of the entry it evicted. -/
def insert (t : InFlight) (id : QueryId) (nowNs : ℕ) : InFlight × Option ℕ :=
  let slot := t.slot id
  let evicted := if slot.2 ≠ 0 ∧ slot.1 ≠ id then some ((nowNs - slot.2) / 1000) else none
  (t.store id nowNs, evicted)

/-- `take`: the round trip in nanoseconds. -/
def take (t : InFlight) (id : QueryId) (nowNs : ℕ) : InFlight × Option ℕ :=
  let slot := t.slot id
  if slot.2 ≠ 0 ∧ slot.1 = id then (t.clear id, some (nowNs - slot.2)) else (t, none)

/-- The loop of `sweep` and `drain` over the slots of the table. -/
def removeWhere (t : InFlight) (gone : ℕ → Bool) (nowNs : ℕ) : InFlight × List ℕ :=
  (⟨(scan gone nowNs t.slots).1, t.wellPlaced_scan gone nowNs⟩, (scan gone nowNs t.slots).2)

/-- `sweep`: the ages of the entries as old as the timeout. -/
def sweep (t : InFlight) (nowNs timeoutNs : ℕ) : InFlight × List ℕ :=
  t.removeWhere (fun sent => nowNs - sent ≥ timeoutNs) nowNs

/-- `drain`: the ages of all entries. -/
def drain (t : InFlight) (nowNs : ℕ) : InFlight × List ℕ := t.removeWhere (fun _ => true) nowNs

/-! ## The entries of the table -/

/-- The occupied slots. -/
def live (t : InFlight) : List Slot := t.slots.filter fun slot => slot.2 ≠ 0

theorem getElem?_index (t : InFlight) (id : QueryId) :
    t.slots[indexIn t.slots.length id]? = some (t.slot id) :=
  List.getElem?_eq_getElem (t.index_lt id)

theorem slot_eq_iff {t : InFlight} {id : QueryId} {b : Slot} :
    t.slot id = b ↔ t.slots[indexIn t.slots.length id]? = some b := by
  rw [getElem?_index, Option.some.injEq]

/-- An entry is found in the slot of its own id. -/
theorem mem_live {t : InFlight} {b : Slot} : b ∈ t.live ↔ b.2 ≠ 0 ∧ t.slot b.1 = b := by
  rw [live, List.mem_filter, decide_eq_true_iff, slot_eq_iff]
  constructor
  · rintro ⟨hmem, hne⟩
    obtain ⟨i, hi⟩ := List.getElem?_of_mem hmem
    rw [t.wellPlaced.placed i b hi hne]
    exact ⟨hne, hi⟩
  · rintro ⟨hne, hslot⟩
    exact ⟨List.mem_of_getElem? hslot, hne⟩

/-- Ids that share a slot find the same entry in it. -/
theorem slot_congr (t : InFlight) {id id' : QueryId}
    (h : indexIn t.slots.length id = indexIn t.slots.length id') : t.slot id = t.slot id' := by
  rw [slot_eq_iff, h, getElem?_index]

theorem nodup_live (t : InFlight) : t.live.Nodup := by
  rw [live, List.Nodup, List.pairwise_filter, List.pairwise_iff_getElem]
  intro i j hi hj hij hi0 hj0 heq
  rw [decide_eq_true_iff] at hi0 hj0
  -- one entry in two slots would have its index equal to both
  have hplace := t.wellPlaced.placed i _ (List.getElem?_eq_getElem hi) hi0
  have hplace' := t.wellPlaced.placed j _ (List.getElem?_eq_getElem hj) hj0
  rw [heq, hplace'] at hplace
  omega

/-- The entries that are the one in the slot of an id. -/
theorem filter_eq_slot (t : InFlight) (id : QueryId) :
    t.live.filter (fun b => b = t.slot id) = if (t.slot id).2 ≠ 0 then [t.slot id] else [] := by
  rw [List.filter_eq]
  by_cases hne : (t.slot id).2 ≠ 0
  · rw [if_pos hne]
    have hmem : t.slot id ∈ t.live := by
      rw [live, List.mem_filter, decide_eq_true_iff]
      exact ⟨List.get_mem _ _, hne⟩
    rw [List.count_eq_one_of_mem t.nodup_live hmem]
    rfl
  · rw [if_neg hne]
    have hnot : t.slot id ∉ t.live := fun h => hne (mem_live.mp h).1
    rw [List.count_eq_zero_of_not_mem hnot]
    rfl

theorem filter_index (t : InFlight) (id : QueryId) :
    t.live.filter (fun b => indexIn t.slots.length b.1 = indexIn t.slots.length id) =
      if (t.slot id).2 ≠ 0 then [t.slot id] else [] := by
  rw [← filter_eq_slot]
  refine List.filter_congr fun b hb => decide_eq_decide.mpr ⟨fun h => ?_, fun h => ?_⟩
  · rw [← t.slot_congr h, (mem_live.mp hb).2]
  · exact t.wellPlaced.placed _ b (h ▸ t.getElem?_index id) (mem_live.mp hb).1

theorem filter_id (t : InFlight) (id : QueryId) :
    t.live.filter (fun b => b.1 = id) =
      if (t.slot id).2 ≠ 0 ∧ (t.slot id).1 = id then [t.slot id] else [] := by
  by_cases hid : (t.slot id).1 = id
  · simp only [hid, and_true]
    rw [← filter_eq_slot]
    refine List.filter_congr fun b hb => decide_eq_decide.mpr ⟨fun h => ?_, fun h => ?_⟩
    · rw [← h, (mem_live.mp hb).2]
    · rw [h, hid]
  · rw [if_neg fun h => hid h.2, List.filter_eq_nil_iff]
    intro b hb h
    rw [decide_eq_true_iff] at h
    rw [← h, (mem_live.mp hb).2] at hid
    exact hid rfl

/-! ## What the calls do to the entries -/

theorem mem_live_new (capacity : ℕ) (b : Slot) : b ∉ (new capacity).live := by
  rw [live, List.mem_filter, decide_eq_true_iff]
  rintro ⟨hmem, hne⟩
  rw [(List.mem_replicate.mp hmem).2] at hne
  exact hne rfl

/-- Reading a table in which one slot was written. -/
theorem slot_of_set {t t' : InFlight} {id : QueryId} {v : Slot}
    (h : t'.slots = t.slots.set (indexIn t.slots.length id) v) (id' : QueryId) :
    t'.slot id' =
      if indexIn t.slots.length id' = indexIn t.slots.length id then v else t.slot id' := by
  rw [slot_eq_iff, h, List.length_set]
  by_cases hindex : indexIn t.slots.length id' = indexIn t.slots.length id
  · rw [if_pos hindex, hindex, List.getElem?_set_self (t.index_lt id)]
  · rw [if_neg hindex, List.getElem?_set_ne (Ne.symm hindex), getElem?_index]

theorem mem_live_store (t : InFlight) (id : QueryId) {nowNs : ℕ} (hne : nowNs ≠ 0) (b : Slot) :
    b ∈ (t.store id nowNs).live ↔
      b ∈ t.live ∧ indexIn t.slots.length b.1 ≠ indexIn t.slots.length id ∨ b = (id, nowNs) := by
  rw [mem_live, mem_live, slot_of_set (t := t) rfl]
  by_cases hindex : indexIn t.slots.length b.1 = indexIn t.slots.length id
  · rw [if_pos hindex]
    constructor
    · rintro ⟨-, rfl⟩
      exact .inr rfl
    · rintro (⟨-, hother⟩ | rfl)
      · exact absurd hindex hother
      · exact ⟨hne, rfl⟩
  · rw [if_neg hindex]
    constructor
    · exact fun h => .inl ⟨h, hindex⟩
    · rintro (⟨h, -⟩ | rfl)
      · exact h
      · exact absurd rfl hindex

/-- Emptying the slot of an entry with the id removes that entry only. -/
theorem mem_live_clear (t : InFlight) {id : QueryId} (hid : (t.slot id).1 = id) (b : Slot) :
    b ∈ (t.clear id).live ↔ b ∈ t.live ∧ b.1 ≠ id := by
  rw [mem_live, mem_live, slot_of_set (t := t) rfl]
  by_cases hindex : indexIn t.slots.length b.1 = indexIn t.slots.length id
  · rw [if_pos hindex]
    constructor
    · rintro ⟨hne, rfl⟩
      exact absurd rfl hne
    · rintro ⟨⟨-, hslot⟩, hother⟩
      rw [t.slot_congr hindex] at hslot
      exact absurd (hslot ▸ hid) hother
  · rw [if_neg hindex]
    refine ⟨fun h => ⟨h, ?_⟩, fun h => h.1⟩
    rintro rfl
    exact hindex rfl

theorem mem_live_take (t : InFlight) (id : QueryId) (nowNs : ℕ) (b : Slot) :
    b ∈ (t.take id nowNs).1.live ↔ b ∈ t.live ∧ b.1 ≠ id := by
  rw [take]
  by_cases hfound : (t.slot id).2 ≠ 0 ∧ (t.slot id).1 = id
  · rw [if_pos hfound]
    exact t.mem_live_clear hfound.2 b
  · rw [if_neg hfound]
    refine ⟨fun h => ⟨h, ?_⟩, fun h => h.1⟩
    rintro rfl
    obtain ⟨hne, hslot⟩ := mem_live.mp h
    rw [hslot] at hfound
    exact hfound ⟨hne, rfl⟩

theorem mem_live_removeWhere (t : InFlight) (gone : ℕ → Bool) (nowNs : ℕ) (b : Slot) :
    b ∈ (t.removeWhere gone nowNs).1.live ↔ b ∈ t.live ∧ ¬ gone b.2 := by
  simp only [live, removeWhere, scan_fst, List.mem_filter, List.mem_map, decide_eq_true_iff]
  constructor
  · rintro ⟨⟨slot, hmem, rfl⟩, hne⟩
    split at hne
    · exact absurd rfl hne
    · rename_i hkept
      rw [if_neg hkept]
      exact ⟨⟨hmem, hne⟩, fun hgone => hkept ⟨hne, hgone⟩⟩
  · rintro ⟨⟨hmem, hne⟩, hkept⟩
    exact ⟨⟨b, hmem, if_neg fun h => hkept h.2⟩, hne⟩

theorem length_removeWhere (t : InFlight) (gone : ℕ → Bool) (nowNs : ℕ) :
    (t.removeWhere gone nowNs).1.slots.length = t.slots.length := by
  simp only [removeWhere, scan_fst, List.length_map]

/-- What a `take` returns comes from an entry with the id. -/
theorem take_eq_some_iff {t : InFlight} {id : QueryId} {nowNs rtt : ℕ} :
    (t.take id nowNs).2 = some rtt ↔ ∃ sent, (id, sent) ∈ t.live ∧ rtt = nowNs - sent := by
  simp only [mem_live, take]
  constructor
  · intro h
    split at h
    · rename_i hfound
      exact ⟨(t.slot id).2, ⟨hfound.1, Prod.ext hfound.2 rfl⟩, (Option.some.inj h).symm⟩
    · exact absurd h.symm (Option.some_ne_none rtt)
  · rintro ⟨sent, ⟨hne, hslot⟩, rfl⟩
    rw [hslot, if_pos ⟨hne, rfl⟩]

/-- The ages that a pass over the slots collects. -/
theorem removeWhere_snd (t : InFlight) (gone : ℕ → Bool) (nowNs : ℕ) :
    (t.removeWhere gone nowNs).2 =
      (t.live.filter fun b => gone b.2).map fun b => (nowNs - b.2) / 1000 := by
  simp only [removeWhere, scan_snd, live, List.filter_filter, Bool.decide_and, Bool.decide_eq_true,
    Bool.and_comm]

end InFlight

/-! ## Sequences of calls -/

/-- A call on the table. -/
inductive Call where
  | insert (id : QueryId) (nowNs : ℕ)
  | take (id : QueryId) (nowNs : ℕ)
  | sweep (nowNs timeoutNs : ℕ)
  | drain (nowNs : ℕ)
deriving DecidableEq, Repr

/-- How an entry leaves the table. -/
inductive Exit where
  | taken
  | evicted
  | reinserted
  | swept
  | drained
deriving DecidableEq, Repr

namespace Call

/-- Carry out a call; with it the numbers that the call returns. -/
def run (t : InFlight) : Call → InFlight × List ℕ
  | insert id nowNs => ((t.insert id nowNs).1, (t.insert id nowNs).2.toList)
  | take id nowNs => ((t.take id nowNs).1, (t.take id nowNs).2.toList)
  | sweep nowNs timeoutNs => t.sweep nowNs timeoutNs
  | drain nowNs => t.drain nowNs

/-- An insert stores a nonzero time. -/
def Stamped : Call → Prop
  | insert _ nowNs => nowNs ≠ 0
  | _ => True

/-- The entry that a call puts in. -/
def puts : Call → Option Slot
  | insert id nowNs => some (id, nowNs)
  | _ => none

/-- The way in which a call makes an entry leave a table of `len` slots, if it does. -/
def exit (len : ℕ) : Call → Slot → Option Exit
  | insert id _, b =>
    if b.1 = id then some .reinserted
    else if indexIn len b.1 = indexIn len id then some .evicted
    else none
  | take id _, b => if b.1 = id then some .taken else none
  | sweep nowNs timeoutNs, b => if nowNs - b.2 ≥ timeoutNs then some .swept else none
  | drain _, _ => some .drained

/-- What a call has to return about an entry that it makes leave: the round trip of a `take`, nothing
for a replaced entry, and else the age in microseconds. -/
def report : Call → Slot → Option ℕ
  | insert id nowNs, b => if b.1 = id then none else some ((nowNs - b.2) / 1000)
  | take _ nowNs, b => some (nowNs - b.2)
  | sweep nowNs _, b => some ((nowNs - b.2) / 1000)
  | drain nowNs, b => some ((nowNs - b.2) / 1000)

theorem length_run (t : InFlight) (c : Call) : (c.run t).1.slots.length = t.slots.length := by
  cases c with
  | insert id nowNs => exact List.length_set ..
  | take id nowNs =>
    simp only [run, InFlight.take]
    split
    · exact List.length_set ..
    · rfl
  | sweep nowNs timeoutNs => exact t.length_removeWhere _ nowNs
  | drain nowNs => exact t.length_removeWhere _ nowNs

/-- An insert leaves alone the entries of the other slots, and only those. -/
theorem exit_insert_eq_none (len : ℕ) (id : QueryId) (nowNs : ℕ) (b : Slot) :
    (insert id nowNs).exit len b = none ↔ indexIn len b.1 ≠ indexIn len id := by
  unfold exit
  by_cases hid : b.1 = id
  · simp [hid]
  · simp [hid]

/-- A call loses the entries that it makes leave, and gains the one it puts in. -/
theorem mem_live_run (t : InFlight) {c : Call} (hc : c.Stamped) (b : Slot) :
    b ∈ (c.run t).1.live ↔
      b ∈ t.live ∧ c.exit t.slots.length b = none ∨ c.puts = some b := by
  cases c with
  | insert id nowNs =>
    rw [exit_insert_eq_none, puts, Option.some.injEq, eq_comm (a := (id, nowNs))]
    exact t.mem_live_store id hc b
  | take id nowNs =>
    simp only [puts, reduceCtorEq, or_false, exit, ite_eq_right_iff, imp_false]
    exact t.mem_live_take id nowNs b
  | sweep nowNs timeoutNs =>
    simp only [puts, reduceCtorEq, or_false, exit, ite_eq_right_iff, imp_false]
    refine (t.mem_live_removeWhere _ nowNs b).trans ?_
    rw [decide_eq_true_iff]
  | drain nowNs =>
    simp only [puts, reduceCtorEq, or_false, exit, and_false, iff_false]
    exact fun h => ((t.mem_live_removeWhere _ nowNs b).mp h).2 rfl

/-- A call returns what it has to about the entries that it makes leave, and nothing else. -/
theorem run_snd (t : InFlight) (c : Call) :
    (c.run t).2 =
      (t.live.filter fun b => (c.exit t.slots.length b).isSome).filterMap c.report := by
  cases c with
  | insert id nowNs =>
    have hexit : ∀ b : Slot, ((insert id nowNs).exit t.slots.length b).isSome =
        decide (indexIn t.slots.length b.1 = indexIn t.slots.length id) := by
      intro b
      rw [Bool.eq_iff_iff, decide_eq_true_iff, ← Option.ne_none_iff_isSome, ne_eq,
        exit_insert_eq_none, not_not]
    simp only [hexit, t.filter_index id, run, InFlight.insert]
    by_cases hne : (t.slot id).2 = 0
    · simp [hne]
    · by_cases hid : (t.slot id).1 = id <;> simp [hne, hid, report]
  | take id nowNs =>
    have hexit : ∀ b : Slot, ((take id nowNs).exit t.slots.length b).isSome =
        decide (b.1 = id) := by
      intro b
      by_cases hid : b.1 = id <;> simp [exit, hid]
    simp only [hexit, t.filter_id id, run, InFlight.take]
    by_cases hfound : (t.slot id).2 ≠ 0 ∧ (t.slot id).1 = id
    · rw [if_pos hfound, if_pos hfound]
      rfl
    · rw [if_neg hfound, if_neg hfound]
      rfl
  | sweep nowNs timeoutNs =>
    have hexit : ∀ b : Slot, ((sweep nowNs timeoutNs).exit t.slots.length b).isSome =
        decide (nowNs - b.2 ≥ timeoutNs) := by
      intro b
      by_cases hold : nowNs - b.2 ≥ timeoutNs <;> simp [exit, hold]
    simp only [hexit, run, InFlight.sweep, InFlight.removeWhere_snd]
    exact (congrFun List.filterMap_eq_map _).symm
  | drain nowNs =>
    simp only [exit, Option.isSome_some, run, InFlight.drain, InFlight.removeWhere_snd]
    exact (congrFun List.filterMap_eq_map _).symm

end Call

/-- The table after a sequence of calls. -/
def after (capacity : ℕ) (calls : List Call) : InFlight :=
  calls.foldl (fun t c => (c.run t).1) (InFlight.new capacity)

/-- The life of the entries in a table made with `capacity`. -/
def entries (capacity : ℕ) : Lifecycle Call Slot Exit where
  puts := Call.puts
  exit := Call.exit (InFlight.new capacity).slots.length

/-- The entry of the last insert of an id. -/
def IsLatest (calls : List Call) (id : QueryId) (a : Lifecycle.Entry Slot) : Prop :=
  a.value.1 = id ∧ calls[a.serial]? = some (.insert id a.value.2) ∧
    ∀ j nowNs, a.serial < j → calls[j]? ≠ some (.insert id nowNs)

section Histories

variable {capacity : ℕ} {calls : List Call} {a a' : Lifecycle.Entry Slot}

/-- The entries in the table are those that survive the calls. -/
theorem after_holds (capacity : ℕ) (calls : List Call) (hstamps : ∀ c ∈ calls, c.Stamped) :
    (after capacity calls).slots.length = (InFlight.new capacity).slots.length ∧
      ∀ b, b ∈ (after capacity calls).live ↔ ∃ n, (entries capacity).Survives calls ⟨n, b⟩ := by
  refine Lifecycle.holds_foldl (fun (t : InFlight) b => b ∈ t.live)
    (fun t => t.slots.length = (InFlight.new capacity).slots.length) Call.Stamped rfl ?_
    (InFlight.mem_live_new capacity) ?_ calls hstamps
  · intro t c hlen
    rw [c.length_run t, hlen]
  · intro t c b hlen hc
    rw [Call.mem_live_run t hc, hlen]
    rfl

/-- Two survivors that share a slot are one. -/
theorem survivors_unique (h : (entries capacity).Survives calls a)
    (h' : (entries capacity).Survives calls a')
    (hindex : indexIn (InFlight.new capacity).slots.length a.value.1 =
      indexIn (InFlight.new capacity).slots.length a'.value.1) : a = a' := by
  refine Lifecycle.Survives.unique (fun b b' => indexIn (InFlight.new capacity).slots.length b.1 =
    indexIn (InFlight.new capacity).slots.length b'.1) (fun _ _ => Eq.symm) ?_ h h' hindex
  rintro (⟨id, nowNs⟩ | _ | _ | _) b b' hputs hconflict
  · rw [← Option.some.inj hputs] at hconflict
    exact fun hexit => (Call.exit_insert_eq_none _ id nowNs b').mp hexit hconflict.symm
  all_goals exact absurd hputs.symm (Option.some_ne_none b)

/-- An entry is put in by an insert of its id. -/
theorem written_iff : (entries capacity).Written calls a ↔
    calls[a.serial]? = some (.insert a.value.1 a.value.2) := by
  constructor
  · rintro ⟨c, hc, hputs⟩
    rw [hc]
    cases c with
    | insert id nowNs =>
      rw [← Option.some.inj hputs]
    | _ => exact absurd hputs.symm (Option.some_ne_none a.value)
  · exact fun h => ⟨_, h, rfl⟩

/-- A survivor is the entry of the last insert of its id. -/
theorem isLatest_of_survives (h : (entries capacity).Survives calls a) :
    IsLatest calls a.value.1 a := by
  refine ⟨rfl, written_iff.mp h.1, fun j nowNs hj hinsert => ?_⟩
  exact (Call.exit_insert_eq_none _ _ nowNs a.value).mp (h.2 j _ hj hinsert) rfl

end Histories

/-- Entries are conserved.  After any calls with nonzero times on a table of any capacity:

* an id can be taken exactly when the entry of its last insert has not left, and the round trip is the
  time since that insert;
* an entry that was inserted is in the table and has not left, or it left at exactly one call, in
  exactly one way;
* each call returns what it has to about the entries that leave at it, one number for each but for a
  replaced one. -/
theorem entries_conserved (capacity : ℕ) (calls : List Call) (hstamps : ∀ c ∈ calls, c.Stamped) :
    (∀ id nowNs rtt, ((after capacity calls).take id nowNs).2 = some rtt ↔
        ∃ a, IsLatest calls id a ∧ (∀ j how, ¬ (entries capacity).Leaves calls a j how) ∧
          rtt = nowNs - a.value.2) ∧
      (∀ a, (entries capacity).Written calls a →
        (a.value ∈ (after capacity calls).live ∧
            ∀ j how, ¬ (entries capacity).Leaves calls a j how) ∨
          ∃! p : ℕ × Exit, (entries capacity).Leaves calls a p.1 p.2) ∧
      ∀ j c, calls[j]? = some c → ∃ gone : List (Lifecycle.Entry Slot), gone.Nodup ∧
        (∀ a, a ∈ gone ↔ ∃ how, (entries capacity).Leaves calls a j how) ∧
        (c.run (after capacity (calls.take j))).2 = gone.filterMap fun a => c.report a.value := by
  have hlive := (after_holds capacity calls hstamps).2
  refine ⟨fun id nowNs rtt => ?_, fun a hwritten => ?_, fun j c hj => ?_⟩
  · rw [InFlight.take_eq_some_iff]
    constructor
    · rintro ⟨sent, hmem, rfl⟩
      obtain ⟨n, hsurvives⟩ := (hlive _).mp hmem
      exact ⟨⟨n, (id, sent)⟩, isLatest_of_survives hsurvives,
        (Lifecycle.survives_iff.mp hsurvives).2, rfl⟩
    · rintro ⟨a, ⟨rfl, hinsert, -⟩, hnever, rfl⟩
      have hsurvives := Lifecycle.survives_iff.mpr ⟨written_iff.mpr hinsert, hnever⟩
      exact ⟨a.value.2, (hlive _).mpr ⟨a.serial, hsurvives⟩, rfl⟩
  · by_cases hsurvives : (entries capacity).Survives calls a
    · exact .inl ⟨(hlive _).mpr ⟨a.serial, hsurvives⟩, (Lifecycle.survives_iff.mp hsurvives).2⟩
    · exact .inr (Lifecycle.existsUnique_leaves hwritten hsurvives)
  · -- the calls before this one, and the table that it finds
    obtain ⟨hlen, hbefore⟩ := after_holds capacity (calls.take j)
      fun c' hc' => hstamps c' (List.mem_of_mem_take hc')
    obtain ⟨gone, hnodup, hvalues, hgone⟩ :=
      Lifecycle.exists_leaving (after capacity (calls.take j)).nodup_live hbefore
        (fun a a' h h' heq => survivors_unique h h' (by rw [heq])) c
    refine ⟨gone, hnodup, fun a => ?_, ?_⟩
    · rw [hgone]
      simp only [Lifecycle.Leaves, hj, Option.some.injEq, exists_eq_left', exists_and_left]
    · rw [c.run_snd, hlen]
      refine (congrArg (List.filterMap c.report) hvalues.symm).trans ?_
      exact List.filterMap_map

/-- Two ids that share the first of 256 slots. -/
def collidingInserts : List Call := [.insert 0 1000000, .insert 256 3000000]

/-- The entry of the second insert can be taken, 0.5 ms after it was put in. -/
theorem entries_conserved_collidingInserts :
    ((after 200 collidingInserts).take 256 3500000).2 = some 500000 := by
  have hstamps : ∀ c ∈ collidingInserts, c.Stamped := by
    simp [collidingInserts, Call.Stamped]
  have hlast : ∀ j c, 1 < j → collidingInserts[j]? ≠ some c := by
    intro j c hj
    rw [List.getElem?_eq_none (Nat.succ_le_of_lt hj)]
    exact (Option.some_ne_none c).symm
  refine ((entries_conserved 200 collidingInserts hstamps).1 256 3500000 500000).mpr
    ⟨⟨1, (256, 3000000)⟩, ⟨rfl, rfl, fun j nowNs hj => hlast j _ hj⟩, fun j how hleaves => ?_, rfl⟩
  obtain ⟨c, hc, -⟩ := hleaves.2
  exact hlast j c hleaves.written.1 hc

end Dnsmark.Udp.OpenTable
