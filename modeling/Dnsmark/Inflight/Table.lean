import Dnsmark.Common.SlotTable

/-!
# The lock-free in-flight tables

Two tables with one `AtomicU64` for each 16-bit DNS id: `InFlight` of
`src/transport/xdp/receiver.rs` and `SharedInFlight` of `src/transport/udp.rs`.  Both are a
`SlotTable` over `QueryId`; they differ in the comparison of a sweep, in the unit of the round trip,
and in that only `InFlight` has `drain_all`.

`insert` and `take` are one atomic operation each.  `sweep` and `drain_all` visit the slots one
after the other, so a call is a position in that loop (`Scan`, `Drain`) and its atomic operations
are steps: a load, then a `compare_exchange` that may fail because another thread was there in
between.  Every operation that empties slots reports the slot it emptied, if it did.
-/

namespace Dnsmark

/-- A DNS transaction id: `u16`, whose `wrapping_add` is the addition of `Fin`. -/
abbrev QueryId := Fin 65536

-- named once, so that every module writes ids with the same proof
instance neZero_numIds : NeZero 65536 := ⟨by decide⟩

namespace Inflight

/-- Which of the two tables. -/
inductive Table where
  | inFlight
  | sharedInFlight
deriving DecidableEq, Repr

namespace Table

/-- The age at which a sweep expires a stamp: older than the timeout in `InFlight`, as old as the
timeout in `SharedInFlight`. -/
def stale : Table → ℕ → ℕ → ℕ → Bool
  | inFlight, timeoutNs, nowNs, v => decide (nowNs - v > timeoutNs)
  | sharedInFlight, timeoutNs, nowNs, v => decide (nowNs - v ≥ timeoutNs)

/-- The round trip `take` returns: microseconds in `InFlight`, nanoseconds in `SharedInFlight`. -/
def rtt : Table → ℕ → ℕ → ℕ
  | inFlight, nowNs, v => (nowNs - v) / 1000
  | sharedInFlight, nowNs, v => nowNs - v

/-- What was stale stays stale. -/
theorem stale_mono (T : Table) {timeoutNs nowNs nowNs' v : ℕ} (hle : nowNs ≤ nowNs')
    (h : T.stale timeoutNs nowNs v) : T.stale timeoutNs nowNs' v := by
  cases T <;> simp only [stale, decide_eq_true_iff] at h ⊢ <;> omega

end Table

/-- Empty the slot an operation freed, if it freed one. -/
def free (slots : SlotTable QueryId) : Option QueryId → SlotTable QueryId
  | none => slots
  | some id => slots.clear id

@[simp] theorem free_none (slots : SlotTable QueryId) : free slots none = slots := rfl

@[simp] theorem free_some (slots : SlotTable QueryId) (id : QueryId) :
    free slots (some id) = slots.clear id := rfl

/-- `insert`: one store, never of `0`. -/
def insert (slots : SlotTable QueryId) (id : QueryId) (nowNs : ℕ) : SlotTable QueryId :=
  slots.store id (max nowNs 1)

/-- The slot a `take` of `id` frees: one `swap(0)`. -/
def takeFreed (slots : SlotTable QueryId) (id : QueryId) : Option QueryId :=
  if slots id = 0 then none else some id

/-- What a `take` of `id` returns: nothing when the slot was empty. -/
def takeRtt (T : Table) (slots : SlotTable QueryId) (id : QueryId) (nowNs : ℕ) : Option ℕ :=
  if slots id = 0 then none else some (T.rtt nowNs (slots id))

/-- A sweep in progress: `n` slots expired so far, `index` the slot it is at, `loaded` the stamp it
has read there and found expired. -/
structure Scan (T : Table) where
  nowNs : ℕ
  timeoutNs : ℕ
  index : ℕ
  loaded : Option { v : ℕ // v ≠ 0 ∧ T.stale timeoutNs nowNs v }
  n : ℕ

namespace Scan

variable {T : Table}

/-- A sweep about to load slot 0. -/
def start (T : Table) (nowNs timeoutNs : ℕ) : Scan T := ⟨nowNs, timeoutNs, 0, none, 0⟩

/-- The next atomic operation of a sweep and the slot it freed, or `none` after the last slot. -/
def step (sc : Scan T) (slots : SlotTable QueryId) : Option (Scan T × Option QueryId) :=
  if hi : sc.index < 65536 then
    let id : QueryId := ⟨sc.index, hi⟩
    match sc.loaded with
    | none =>
      if hv : slots id ≠ 0 ∧ T.stale sc.timeoutNs sc.nowNs (slots id) then
        some ({ sc with loaded := some ⟨slots id, hv⟩ }, none)
      else some ({ sc with index := sc.index + 1 }, none)
    | some v =>
      -- `compare_exchange(v, 0)`
      if slots id = v then
        some ({ sc with index := sc.index + 1, loaded := none, n := sc.n + 1 }, some id)
      else some ({ sc with index := sc.index + 1, loaded := none }, none)
  else none

/-- A sweep step frees nothing and counts nothing, or frees and counts one expired slot. -/
theorem step_cases {sc sc' : Scan T} {slots : SlotTable QueryId} {freed : Option QueryId}
    (h : sc.step slots = some (sc', freed)) :
    (sc'.nowNs = sc.nowNs ∧ sc'.timeoutNs = sc.timeoutNs) ∧
      ((freed = none ∧ sc'.n = sc.n) ∨
        ∃ id, freed = some id ∧ sc'.n = sc.n + 1 ∧ slots id ≠ 0 ∧
          T.stale sc.timeoutNs sc.nowNs (slots id)) := by
  unfold step at h
  split at h
  · rename_i hi
    simp only at h
    split at h
    · split at h
      · obtain ⟨rfl, rfl⟩ := Prod.mk.inj (Option.some.inj h)
        exact ⟨⟨rfl, rfl⟩, .inl ⟨rfl, rfl⟩⟩
      · obtain ⟨rfl, rfl⟩ := Prod.mk.inj (Option.some.inj h)
        exact ⟨⟨rfl, rfl⟩, .inl ⟨rfl, rfl⟩⟩
    · rename_i v _
      split at h
      · rename_i hv
        obtain ⟨rfl, rfl⟩ := Prod.mk.inj (Option.some.inj h)
        -- the exchange found the very stamp that was loaded
        exact ⟨⟨rfl, rfl⟩, .inr ⟨_, rfl, rfl, hv ▸ v.2.1, hv ▸ v.2.2⟩⟩
      · obtain ⟨rfl, rfl⟩ := Prod.mk.inj (Option.some.inj h)
        exact ⟨⟨rfl, rfl⟩, .inl ⟨rfl, rfl⟩⟩
  · cases h

/-- A sweep that read the clock in the past frees nothing when nothing is stale now. -/
theorem step_of_fresh {sc sc' : Scan T} {slots : SlotTable QueryId} {freed : Option QueryId} {clock : ℕ}
    (h : sc.step slots = some (sc', freed)) (hnow : sc.nowNs ≤ clock)
    (hfresh : ∀ id, slots id ≠ 0 → ¬ T.stale sc.timeoutNs clock (slots id) = true) :
    freed = none ∧ sc'.n = sc.n ∧ sc'.nowNs = sc.nowNs ∧ sc'.timeoutNs = sc.timeoutNs := by
  obtain ⟨⟨hnow', hto⟩, ⟨hfreed, hn⟩ | ⟨id, -, -, hid, hstale⟩⟩ := step_cases h
  · exact ⟨hfreed, hn, hnow', hto⟩
  · exact absurd (T.stale_mono hnow hstale) (hfresh id hid)

end Scan

/-- A `drain_all` in progress. -/
structure Drain where
  index : ℕ
  n : ℕ
deriving DecidableEq, Repr

namespace Drain

/-- A drain about to swap slot 0. -/
def start : Drain := ⟨0, 0⟩

/-- The next `swap(0)` of a drain and the slot it freed, or `none` after the last slot. -/
def step (d : Drain) (slots : SlotTable QueryId) : Option (Drain × Option QueryId) :=
  if hi : d.index < 65536 then
    let id : QueryId := ⟨d.index, hi⟩
    if slots id ≠ 0 then some ({ d with index := d.index + 1, n := d.n + 1 }, some id)
    else some ({ d with index := d.index + 1 }, none)
  else none

/-- A drain step frees and counts the slot it is at, if it is occupied. -/
theorem step_cases {d d' : Drain} {slots : SlotTable QueryId} {freed : Option QueryId}
    (h : d.step slots = some (d', freed)) :
    (freed = none ∧ d'.n = d.n ∧ ∀ id : QueryId, id.val = d.index → slots id = 0) ∨
      ∃ id, freed = some id ∧ d'.n = d.n + 1 ∧ id.val = d.index ∧ slots id ≠ 0 := by
  unfold step at h
  split at h
  · rename_i hi
    simp only at h
    split at h
    · rename_i hid
      obtain ⟨rfl, rfl⟩ := Prod.mk.inj (Option.some.inj h)
      exact .inr ⟨_, rfl, rfl, rfl, hid⟩
    · rename_i hid
      obtain ⟨rfl, rfl⟩ := Prod.mk.inj (Option.some.inj h)
      refine .inl ⟨rfl, rfl, fun id heq => ?_⟩
      rw [show id = ⟨d.index, hi⟩ from Fin.ext heq]
      exact not_not.mp hid
  · cases h

/-- A drain is over after the last slot. -/
theorem step_eq_none {d : Drain} {slots : SlotTable QueryId} (h : d.step slots = none) :
    65536 ≤ d.index := by
  unfold step at h
  split at h
  · simp only at h
    split at h <;> cases h
  · omega

end Drain

end Inflight

end Dnsmark
