import Dnsmark.Common.Ledger
import Dnsmark.Common.Machine
import Dnsmark.Inflight.Table

/-!
# Exactly-once removal

Any number of threads call `insert`, `take`, `sweep` and `drain_all` on one of the lock-free tables,
in any order and with any ids and clock readings, and their atomic operations interleave freely.
Beside the slots the memory carries a `Ledger`: bookkeeping of the model that no call reads.

A sweep may load a stamp, lose the slot to a `take`, and find the same stamp there again because a
later insert happened to store it: its `compare_exchange` then succeeds on a value it never loaded.
The ledger sees this as the removal of the later value, and the count stays right: what makes a
removal count once is that it goes with the slot turning from occupied to empty, not which load
preceded it.
-/

namespace Dnsmark.Inflight

/-- How a value leaves the table. -/
inductive Exit where
  | taken
  | swept
  | drained
  | overwritten
deriving DecidableEq, Repr

/-- What a finished call returned. -/
inductive Return where
  | insert
  | take (rtt : Option ℕ)
  | sweep (n : ℕ)
  | drainAll (n : ℕ)
deriving DecidableEq, Repr

/-- The call a thread is in. -/
inductive Call (T : Table) where
  | idle
  | sweeping (sc : Scan T)
  | draining (d : Drain)

/-- A thread: the call it is in and what its finished calls returned. -/
structure Caller (T : Table) where
  call : Call T
  returns : List Return

/-- The shared memory. -/
structure Memory where
  slots : SlotTable QueryId
  ledger : Ledger QueryId Exit

/-- The next atomic operation of a thread: a call of `insert` or `take`, the start of a `sweep` or a
`drain_all`, or the next operation of the call it is in. -/
inductive Op where
  | insert (id : QueryId) (nowNs : ℕ)
  | take (id : QueryId) (nowNs : ℕ)
  | sweep (nowNs timeoutNs : ℕ)
  | drainAll
  | next
deriving DecidableEq, Repr

namespace Memory

/-- Free a slot and enter it in the ledger. -/
def free (m : Memory) (freed : Option QueryId) (how : Exit) : Memory where
  slots := Inflight.free m.slots freed
  ledger := freed.elim m.ledger fun id => m.ledger.leave m.slots id how

/-- Store a stamp and enter it in the ledger. -/
def insert (m : Memory) (id : QueryId) (nowNs : ℕ) : Memory where
  slots := Inflight.insert m.slots id nowNs
  ledger := (m.ledger.leave m.slots id .overwritten).enter id

end Memory

namespace Caller

variable {T : Table}

/-- One atomic operation of one thread. -/
def step (c : Caller T) (m : Memory) : Op → Option (Caller T × Memory)
  | .insert id nowNs =>
    match c.call with
    | .idle => some (⟨.idle, .insert :: c.returns⟩, m.insert id nowNs)
    | _ => none
  | .take id nowNs =>
    match c.call with
    | .idle => some (⟨.idle, .take (takeRtt T m.slots id nowNs) :: c.returns⟩,
        m.free (takeFreed m.slots id) .taken)
    | _ => none
  | .sweep nowNs timeoutNs =>
    match c.call with
    | .idle => some (⟨.sweeping (.start T nowNs timeoutNs), c.returns⟩, m)
    | _ => none
  | .drainAll =>
    -- `SharedInFlight` has no `drain_all`
    match c.call, T with
    | .idle, .inFlight => some (⟨.draining .start, c.returns⟩, m)
    | _, _ => none
  | .next =>
    match c.call with
    | .idle => none
    | .sweeping sc =>
      match sc.step m.slots with
      | some (sc', freed) => some (⟨.sweeping sc', c.returns⟩, m.free freed .swept)
      | none => some (⟨.idle, .sweep sc.n :: c.returns⟩, m)
    | .draining d =>
      match d.step m.slots with
      | some (d', freed) => some (⟨.draining d', c.returns⟩, m.free freed .drained)
      | none => some (⟨.idle, .drainAll d.n :: c.returns⟩, m)

/-- A thread that has made no call yet. -/
def new (T : Table) : Caller T := ⟨.idle, []⟩

end Caller

/-- The threads of a program over one table; nothing but the threads touches it. -/
def callers (T : Table) (N : ℕ) : Threads (Fin N) (Caller T) Memory Op Empty where
  step _ c m op := c.step m op
  env _ _ := Empty.elim

/-- The empty table, before any call. -/
def CallersStart (T : Table) (N : ℕ) : Threads.State (Fin N) (Caller T) Memory :=
  ⟨fun _ => .new T, ⟨.empty, .empty⟩⟩

/-! ## What the calls report -/

/-- How many values a finished call says it removed by `how`. -/
def Return.removed (how : Exit) : Return → ℕ
  | .insert => 0
  | .take rtt => if how = .taken ∧ rtt.isSome then 1 else 0
  | .sweep n => if how = .swept then n else 0
  | .drainAll n => if how = .drained then n else 0

/-- How many values the call in progress has counted so far. -/
def Call.removed {T : Table} (how : Exit) : Call T → ℕ
  | .idle => 0
  | .sweeping sc => if how = .swept then sc.n else 0
  | .draining d => if how = .drained then d.n else 0

namespace Caller

variable {T : Table}

/-- The number of finished `insert` calls. -/
def inserted (c : Caller T) : ℕ := c.returns.count .insert

/-- What the finished calls of a thread say they removed by `how`. -/
def removed (how : Exit) (c : Caller T) : ℕ := (c.returns.map (Return.removed how)).sum

/-- What a thread has counted for `how`, in finished calls and in the one it is in. -/
def counted (how : Exit) (c : Caller T) : ℕ := c.removed how + c.call.removed how

/-- Every operation of a thread inserts a value, leaves the memory alone, or removes one value in
one way; and the thread counts exactly that. -/
theorem step_cases {c c' : Caller T} {m m' : Memory} {op : Op} (h : c.step m op = some (c', m')) :
    (∃ id nowNs, m' = m.insert id nowNs ∧ c'.inserted = c.inserted + 1 ∧
      ∀ how, c'.counted how = c.counted how) ∨
    (m' = m ∧ c'.inserted = c.inserted ∧ ∀ how, c'.counted how = c.counted how) ∨
    (∃ id way, m.slots id ≠ 0 ∧ way ≠ .overwritten ∧ m' = m.free (some id) way ∧
      c'.inserted = c.inserted ∧
      ∀ how, c'.counted how = c.counted how + if way = how then 1 else 0) := by
  obtain ⟨call, returns⟩ := c
  cases op with
  | insert id nowNs =>
    cases call with
    | idle =>
      obtain ⟨rfl, rfl⟩ := Prod.mk.inj (Option.some.inj h)
      exact .inl ⟨id, nowNs, rfl, by simp [inserted], by simp [counted, removed, Return.removed]⟩
    | sweeping sc => cases h
    | draining d => cases h
  | take id nowNs =>
    cases call with
    | idle =>
      obtain ⟨rfl, rfl⟩ := Prod.mk.inj (Option.some.inj h)
      by_cases hid : m.slots id = 0
      · refine .inr (.inl ⟨?_, by simp [inserted], ?_⟩)
        · simp [takeFreed, hid, Memory.free]
        · simp [counted, removed, Return.removed, takeRtt, hid]
      · refine .inr (.inr ⟨id, .taken, hid, by decide, ?_, by simp [inserted], ?_⟩)
        · simp [takeFreed, hid]
        · intro how
          simp only [counted, removed, Return.removed, takeRtt, hid, List.map_cons, List.sum_cons,
            if_false, Option.isSome_some, and_true, eq_comm (a := how)]
          omega
    | sweeping sc => cases h
    | draining d => cases h
  | sweep nowNs timeoutNs =>
    cases call with
    | idle =>
      obtain ⟨rfl, rfl⟩ := Prod.mk.inj (Option.some.inj h)
      exact .inr (.inl ⟨rfl, rfl, by simp [counted, removed, Call.removed, Scan.start]⟩)
    | sweeping sc => cases h
    | draining d => cases h
  | drainAll =>
    cases call with
    | idle =>
      cases T with
      | inFlight =>
        obtain ⟨rfl, rfl⟩ := Prod.mk.inj (Option.some.inj h)
        exact .inr (.inl ⟨rfl, rfl, by simp [counted, removed, Call.removed, Drain.start]⟩)
      | sharedInFlight => cases h
    | sweeping sc => cases h
    | draining d => cases h
  | next =>
    cases call with
    | idle => cases h
    | sweeping sc =>
      simp only [step] at h
      split at h
      · rename_i sc' freed hsc
        obtain ⟨rfl, rfl⟩ := Prod.mk.inj (Option.some.inj h)
        obtain ⟨-, ⟨rfl, hn⟩ | ⟨id, rfl, hn, hid, -⟩⟩ := Scan.step_cases hsc
        · exact .inr (.inl ⟨rfl, rfl, by simp [counted, removed, Call.removed, hn]⟩)
        · refine .inr (.inr ⟨id, .swept, hid, by decide, rfl, rfl, fun how => ?_⟩)
          cases how <;> simp [counted, removed, Call.removed, hn, Nat.add_assoc]
      · obtain ⟨rfl, rfl⟩ := Prod.mk.inj (Option.some.inj h)
        refine .inr (.inl ⟨rfl, by simp [inserted], fun how => ?_⟩)
        simp [counted, removed, Call.removed, Return.removed, Nat.add_comm]
    | draining d =>
      simp only [step] at h
      split at h
      · rename_i d' freed hd
        obtain ⟨rfl, rfl⟩ := Prod.mk.inj (Option.some.inj h)
        obtain ⟨rfl, hn, -⟩ | ⟨id, rfl, hn, -, hid⟩ := Drain.step_cases hd
        · exact .inr (.inl ⟨rfl, rfl, by simp [counted, removed, Call.removed, hn]⟩)
        · refine .inr (.inr ⟨id, .drained, hid, by decide, rfl, rfl, fun how => ?_⟩)
          cases how <;> simp [counted, removed, Call.removed, hn, Nat.add_assoc]
      · obtain ⟨rfl, rfl⟩ := Prod.mk.inj (Option.some.inj h)
        refine .inr (.inl ⟨rfl, by simp [inserted], fun how => ?_⟩)
        simp [counted, removed, Call.removed, Return.removed, Nat.add_comm]

end Caller

/-! ## Over whole interleavings -/

section Run

variable {T : Table} {N : ℕ}

/-- The ledger is the history of the table, and every entry of it is counted by some thread. -/
structure Recorded (s : Threads.State (Fin N) (Caller T) Memory) : Prop where
  balanced : s.shared.ledger.Balanced s.shared.slots
  inserts : s.shared.ledger.inserts = ∑ i, (s.threads i).inserted
  exits : ∀ how, how ≠ .overwritten → s.shared.ledger.tally how = ∑ i, (s.threads i).counted how

theorem recorded_start : Recorded (CallersStart T N) := by
  refine ⟨Ledger.balanced_empty, ?_, fun how _ => ?_⟩
  · exact (Finset.sum_eq_zero fun _ _ => rfl).symm
  · exact (Finset.sum_eq_zero fun _ _ => rfl).symm

/-- Every atomic operation of every thread keeps the ledger right. -/
theorem recorded_step (s : Threads.State (Fin N) (Caller T) Memory) (e : Threads.Event (Fin N) Op Empty)
    (s' : Threads.State (Fin N) (Caller T) Memory) (hs : Recorded s)
    (h : (callers T N).machine.step s e = some s') : Recorded s' := by
  rcases (callers T N).machine_step_cases h with ⟨i, op, c', m', -, hstep, rfl⟩ | ⟨k, -⟩
  · -- in the sums over the threads only the part of thread `i` is exchanged
    have hinserts : ∑ j, (Function.update s.threads i c' j).inserted + (s.threads i).inserted
        = s.shared.ledger.inserts + c'.inserted := by
      rw [hs.inserts]
      exact Threads.sum_update_add s.threads Caller.inserted i c'
    have hexits : ∀ how, how ≠ .overwritten →
        ∑ j, (Function.update s.threads i c' j).counted how + (s.threads i).counted how
          = s.shared.ledger.tally how + c'.counted how := by
      intro how hhow
      rw [hs.exits how hhow]
      exact Threads.sum_update_add s.threads (Caller.counted how) i c'
    rcases Caller.step_cases hstep with
      ⟨id, nowNs, rfl, hi, hc⟩ | ⟨rfl, hi, hc⟩ | ⟨id, way, hid, hway, rfl, hi, hc⟩
    · refine ⟨hs.balanced.store id .overwritten (by omega), ?_, fun how hhow => ?_⟩
      · simp only [Memory.insert, Ledger.enter_inserts, Ledger.leave_inserts]
        omega
      · have hsum := hexits how hhow
        have hsame := hc how
        simp only [Memory.insert, Ledger.tally_enter, Ledger.tally_leave]
        rw [if_neg fun h => hhow h.2.symm]
        omega
    · refine ⟨hs.balanced, ?_, fun how hhow => ?_⟩
      · simp only
        omega
      · have hsum := hexits how hhow
        have hsame := hc how
        simp only
        omega
    · refine ⟨hs.balanced.leave id way, ?_, fun how hhow => ?_⟩
      · simp only [Memory.free, Option.elim_some, Ledger.leave_inserts]
        omega
      · have hsum := hexits how hhow
        have hone := hc how
        simp only [Memory.free, Option.elim_some, Ledger.tally_leave, ne_eq, hid, not_false_eq_true,
          true_and]
        omega
  · exact k.elim

/-- The four ways out are all there are. -/
theorem length_eq_tally (L : Ledger QueryId Exit) :
    L.left.length = L.tally .taken + L.tally .swept + L.tally .drained + L.tally .overwritten := by
  unfold Ledger.left Ledger.tally
  induction L.exits with
  | nil => rfl
  | cons e es ih =>
    simp only [List.map_cons, List.length_cons, List.count_cons, ih]
    rcases e with ⟨k, how⟩
    cases how <;> simp <;> omega

/-- For both tables, any number of threads and every interleaving of their atomic operations: every
stored value either left the table, once and in one way, or sits in exactly one slot; and when no
thread is inside a call, the returned values account for every insert. -/
theorem removed_exactly_once (T : Table) (N : ℕ) (es : List (Threads.Event (Fin N) Op Empty))
    (s : Threads.State (Fin N) (Caller T) Memory)
    (hrun : (callers T N).machine.run (CallersStart T N) es = some s) :
    s.shared.ledger.left.Nodup ∧
    (∀ k < s.shared.ledger.inserts,
      Xor (k ∈ s.shared.ledger.left) (∃! id, s.shared.slots id ≠ 0 ∧ s.shared.ledger.owner id = k)) ∧
    ((∀ i, (s.threads i).call = .idle) →
      (∀ how, how ≠ .overwritten →
        s.shared.ledger.tally how = ∑ i, (s.threads i).removed how) ∧
      ∑ i, (s.threads i).inserted
        = ∑ i, (s.threads i).removed .taken + ∑ i, (s.threads i).removed .swept
          + ∑ i, (s.threads i).removed .drained + s.shared.ledger.tally .overwritten
          + s.shared.slots.occupancy) := by
  have hs := (callers T N).machine.run_invariant recorded_step recorded_start hrun
  refine ⟨hs.balanced.left_nodup, fun k hk => hs.balanced.xor hk, fun hidle => ?_⟩
  -- at quiescence nothing is counted that was not returned
  have hret : ∀ how, how ≠ .overwritten →
      s.shared.ledger.tally how = ∑ i, (s.threads i).removed how := by
    intro how hhow
    rw [hs.exits how hhow]
    refine Finset.sum_congr rfl fun i _ => ?_
    rw [Caller.counted, hidle i]
    rfl
  refine ⟨hret, ?_⟩
  rw [← hret .taken (by decide), ← hret .swept (by decide), ← hret .drained (by decide), ← hs.inserts,
    hs.balanced.count, length_eq_tally]

/-- Two threads: one inserts id 7 twice and id 8 once, the other takes 7 and, in vain, 9. -/
def fiveCalls : List (Threads.Event (Fin 2) Op Empty) :=
  [.thread 0 (.insert 7 10), .thread 0 (.insert 7 20), .thread 1 (.take 7 1000),
    .thread 0 (.insert 8 30), .thread 1 (.take 9 1010)]

/-- The three inserts of `fiveCalls`: one taken, one overwritten, one still there. -/
theorem removed_exactly_once_fiveCalls :
    ∃ s, (callers .inFlight 2).machine.run (CallersStart .inFlight 2) fiveCalls = some s ∧
      (∀ i, (s.threads i).call = .idle) ∧ ∑ i, (s.threads i).inserted = 3 ∧
      ∑ i, (s.threads i).inserted
        = ∑ i, (s.threads i).removed .taken + ∑ i, (s.threads i).removed .swept
          + ∑ i, (s.threads i).removed .drained + s.shared.ledger.tally .overwritten
          + s.shared.slots.occupancy := by
  have hidle : ∀ s, (callers .inFlight 2).machine.run (CallersStart .inFlight 2) fiveCalls = some s →
      (∀ i, (s.threads i).call = .idle) ∧ ∑ i, (s.threads i).inserted = 3 := by
    rintro s ⟨⟩
    exact ⟨Fin.forall_fin_two.mpr ⟨rfl, rfl⟩, rfl⟩
  refine ⟨_, rfl, (hidle _ rfl).1, (hidle _ rfl).2, ?_⟩
  exact ((removed_exactly_once .inFlight 2 fiveCalls _ rfl).2.2 (hidle _ rfl).1).2

end Run

end Dnsmark.Inflight
