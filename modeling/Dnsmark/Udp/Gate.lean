import Dnsmark.Udp.ClosedLoop

/-!
# The outstanding gate of the closed-loop worker

`outstanding` gates the send loop, and the slots remember which queries it counts.  A reply and a
sweep lower both by the same amount.  A send raises `outstanding` by one but stamps the slot of
`next_id` whatever it held, so the two come apart when the 16-bit id has gone round and the slot
still waits for its timeout.

`Accounted` is what holds in every state of every run: the occupied slots never outnumber
`outstanding`, so no `saturating_sub` ever clamps.  `leak` is the difference.  It never shrinks and
grows by one exactly at a send into an occupied slot, which makes it a drift in the sense of
`Machine.always_drift_eq_iff`.  It stays below `max_outstanding`, because the overwritten slot is
itself still occupied: an empty table always finds the gate open.
-/

namespace Dnsmark.Udp.Worker

open Dnsmark.Stats

variable {cfg : Config}

/-- The slot count never exceeds the counter, the counter never exceeds the gate, and no
`saturating_sub` so far had to clamp. -/
structure Accounted (cfg : Config) (w : Worker) : Prop where
  occupancy_le : w.slots.occupancy ≤ w.outstanding
  outstanding_le : w.outstanding ≤ cfg.maxOutstanding
  exact_subs : ∀ q ∈ w.satSubs, q.2 ≤ q.1

/-- Queries `outstanding` counts that no slot remembers. -/
def leak (w : Worker) : ℕ := w.outstanding - w.slots.occupancy

/-- The condition on a step: a successful send finds the slot of its id empty. -/
def SlotFree (p : Worker × StatsCollector) (e : Event) : Prop :=
  ∀ t, e = .send t → p.1.slots p.1.nextId = 0

theorem accounted_new (cfg : Config) (nextId : QueryId) : Accounted cfg (new nextId) where
  occupancy_le := by simp [new]
  outstanding_le := Nat.zero_le _
  exact_subs := by simp [new]

@[simp] theorem leak_new (nextId : QueryId) : (new nextId).leak = 0 := by simp [leak, new]

/-! ## Replies -/

/-- Completing an occupied slot keeps the accounts and the leak. -/
theorem Accounted.complete {w : Worker} (hw : Accounted cfg w) {id : QueryId}
    (hs : w.slots id ≠ 0) : Accounted cfg (w.complete id) ∧ (w.complete id).leak = w.leak := by
  have hocc := SlotTable.occupancy_clear hs
  have hle := hw.occupancy_le
  have hmax := hw.outstanding_le
  refine ⟨⟨?_, ?_, ?_⟩, ?_⟩
  · rw [complete_slots, complete_outstanding]
    omega
  · rw [complete_outstanding]
    omega
  · intro q hq
    rw [complete_satSubs] at hq
    rcases List.mem_cons.mp hq with rfl | hq
    · exact (SlotTable.occupancy_pos hs).trans_le hle
    · exact hw.exact_subs q hq
  · rw [leak, leak, complete_slots, complete_outstanding]
    omega

/-- A receive batch keeps the accounts and the leak. -/
theorem Accounted.recv {p : Worker × StatsCollector} (hw : Accounted cfg p.1) (recvNs : ℕ)
    (msgs : List Datagram) :
    Accounted cfg (msgs.foldl (recvOne cfg recvNs) p).1 ∧
      (msgs.foldl (recvOne cfg recvNs) p).1.leak = p.1.leak := by
  refine recv_induction cfg (P := fun q => Accounted cfg q.1 ∧ q.1.leak = p.1.leak) recvNs ?_ p msgs
    ⟨hw, rfl⟩
  rintro q id rcode ⟨hq, hleak⟩ hs
  obtain ⟨hq', hleak'⟩ := hq.complete hs
  exact ⟨hq', hleak'.trans hleak⟩

/-! ## Sweeps -/

/-- A sweep lowers slots and counter together. -/
theorem Accounted.sweep {p : Worker × StatsCollector} (hw : Accounted cfg p.1) (nowNs : ℕ) :
    Accounted cfg (Worker.sweep cfg nowNs p).1 ∧
      (Worker.sweep cfg nowNs p).1.leak = p.1.leak ∧
      (Worker.sweep cfg nowNs p).1.outstanding + p.1.slots.staleCount (expired cfg nowNs)
        = p.1.outstanding := by
  have hocc := p.1.slots.occupancy_sweep (expired cfg nowNs)
  have hle := hw.occupancy_le
  have hmax := hw.outstanding_le
  obtain ⟨h, hzero⟩ | h := sweep_eq cfg nowNs p
  · rw [h]
    refine ⟨⟨?_, hmax, hw.exact_subs⟩, ?_, ?_⟩
    · show (p.1.slots.sweep _).occupancy ≤ p.1.outstanding
      omega
    · show p.1.outstanding - (p.1.slots.sweep _).occupancy = p.1.outstanding - _
      omega
    · show p.1.outstanding + _ = p.1.outstanding
      omega
  · rw [h]
    refine ⟨⟨?_, ?_, ?_⟩, ?_, ?_⟩
    · rw [saturatingSub_slots, saturatingSub_outstanding]
      show (p.1.slots.sweep _).occupancy ≤ p.1.outstanding - _
      omega
    · rw [saturatingSub_outstanding]
      show p.1.outstanding - _ ≤ cfg.maxOutstanding
      omega
    · intro q hq
      rw [saturatingSub_satSubs] at hq
      rcases List.mem_cons.mp hq with rfl | hq
      · show p.1.slots.staleCount (expired cfg nowNs) ≤ p.1.outstanding
        omega
      · exact hw.exact_subs q hq
    · rw [leak, leak, saturatingSub_slots, saturatingSub_outstanding]
      show p.1.outstanding - _ - (p.1.slots.sweep _).occupancy = _
      omega
    · rw [saturatingSub_outstanding]
      show p.1.outstanding - _ + _ = p.1.outstanding
      omega

/-! ## Sends -/

/-- The stamp written by a send is not the empty mark. -/
theorem stamp_ne_zero (sendNs : ℕ) : max sendNs 1 ≠ 0 := by omega

/-- A send through the gate keeps the accounts. -/
theorem Accounted.sent {w : Worker} (hw : Accounted cfg w)
    (hgate : w.outstanding < cfg.maxOutstanding) (sendNs : ℕ) :
    Accounted cfg (w.sent sendNs) := by
  have hle := hw.occupancy_le
  refine ⟨?_, hgate, hw.exact_subs⟩
  rw [sent_slots, sent_outstanding]
  by_cases hs : w.slots w.nextId = 0
  · rw [SlotTable.occupancy_store_of_empty (stamp_ne_zero sendNs) hs]
    omega
  · rw [SlotTable.occupancy_store_of_occupied (stamp_ne_zero sendNs) hs]
    omega

/-- A send into an empty slot leaks nothing. -/
theorem leak_sent_of_empty {w : Worker} (sendNs : ℕ) (hs : w.slots w.nextId = 0) :
    (w.sent sendNs).leak = w.leak := by
  rw [leak, sent_slots, sent_outstanding,
    SlotTable.occupancy_store_of_empty (stamp_ne_zero sendNs) hs, leak]
  omega

/-- A send into an occupied slot leaks one: the overwritten query is no longer in the table. -/
theorem leak_sent_of_occupied {w : Worker} (hw : Accounted cfg w) (sendNs : ℕ)
    (hs : w.slots w.nextId ≠ 0) : (w.sent sendNs).leak = w.leak + 1 := by
  have hle := hw.occupancy_le
  rw [leak, sent_slots, sent_outstanding,
    SlotTable.occupancy_store_of_occupied (stamp_ne_zero sendNs) hs, leak]
  omega

/-! ## Whole steps -/

/-- Every step keeps the accounts. -/
theorem accounted_step (p : Worker × StatsCollector) (e : Event) (p' : Worker × StatsCollector)
    (hw : Accounted cfg p.1) (h : step cfg p e = some p') : Accounted cfg p'.1 := by
  obtain ⟨t, -, hgate, rfl⟩ | ⟨b, -, -, rfl⟩ | ⟨t, msgs, -, rfl⟩ | ⟨t, -, rfl⟩ := step_cases h
  · exact hw.sent hgate t
  · exact ⟨hw.occupancy_le, hw.outstanding_le, hw.exact_subs⟩
  · exact (hw.recv t msgs).1
  · exact (hw.sweep t).1

/-- A step that finds its slot free leaves the leak alone. -/
theorem leak_step_of_slotFree (p : Worker × StatsCollector) (e : Event)
    (p' : Worker × StatsCollector) (hw : Accounted cfg p.1) (h : step cfg p e = some p')
    (hfree : SlotFree p e) : p'.1.leak = p.1.leak := by
  obtain ⟨t, he, -, rfl⟩ | ⟨b, -, -, rfl⟩ | ⟨t, msgs, -, rfl⟩ | ⟨t, -, rfl⟩ := step_cases h
  · exact leak_sent_of_empty t (hfree t he)
  · rfl
  · exact (hw.recv t msgs).2
  · exact (hw.sweep t).2.1

/-- A step that does not is a send over a query still waiting, and leaks it. -/
theorem leak_step_of_not_slotFree (p : Worker × StatsCollector) (e : Event)
    (p' : Worker × StatsCollector) (hw : Accounted cfg p.1) (h : step cfg p e = some p')
    (hfree : ¬ SlotFree p e) : p.1.leak < p'.1.leak := by
  obtain ⟨t, he, hs⟩ : ∃ t, e = .send t ∧ p.1.slots p.1.nextId ≠ 0 := by
    simpa only [SlotFree, not_forall, exists_prop] using hfree
  subst he
  obtain ⟨t', -, -, rfl⟩ | ⟨b, he, -⟩ | ⟨t', msgs, he, -⟩ | ⟨t', he, -⟩ := step_cases h
  · exact (Nat.lt_succ_self _).trans_eq (leak_sent_of_occupied hw t' hs).symm
  all_goals cases he

/-- The leak stays below the gate: a send that leaks leaves an occupied slot behind. -/
theorem leak_lt_step (p : Worker × StatsCollector) (e : Event)
    (p' : Worker × StatsCollector) (hw : Accounted cfg p.1 ∧ p.1.leak < cfg.maxOutstanding)
    (h : step cfg p e = some p') : Accounted cfg p'.1 ∧ p'.1.leak < cfg.maxOutstanding := by
  refine ⟨accounted_step p e p' hw.1 h, ?_⟩
  by_cases hfree : SlotFree p e
  · rw [leak_step_of_slotFree p e p' hw.1 h hfree]
    exact hw.2
  · obtain ⟨t, he, hs⟩ : ∃ t, e = .send t ∧ p.1.slots p.1.nextId ≠ 0 := by
      simpa only [SlotFree, not_forall, exists_prop] using hfree
    subst he
    obtain ⟨t', -, hgate, rfl⟩ | ⟨b, he, -⟩ | ⟨t', msgs, he, -⟩ | ⟨t', he, -⟩ := step_cases h
    · have hpos := SlotTable.occupancy_pos hs
      have hle := hw.1.occupancy_le
      show (p.1.sent t').leak < cfg.maxOutstanding
      rw [leak_sent_of_occupied hw.1 t' hs, leak]
      omega
    all_goals cases he

/-! ## The gate over whole runs -/

/-- In every run, `outstanding` equals the number of occupied slots in every state exactly when
every successful send of the run finds the slot of its id empty.  In every run whatsoever, an empty
table finds the gate open. -/
theorem gate_exact_iff_slotFree (cfg : Config) (hM : 1 ≤ cfg.maxOutstanding) (nextId : QueryId)
    (st : StatsCollector) (es : List Event) (p : Worker × StatsCollector)
    (h : (machine cfg).run (new nextId, st) es = some p) :
    ((machine cfg).Always (fun q => q.1.outstanding = q.1.slots.occupancy) (new nextId, st) es ↔
        (machine cfg).Meets SlotFree (new nextId, st) es) ∧
      (machine cfg).Always (fun q => (∀ id, q.1.slots id = 0) →
        q.1.outstanding < cfg.maxOutstanding) (new nextId, st) es := by
  have hdrift := (machine cfg).always_drift_eq_iff (I := fun q => Accounted cfg q.1)
    (d := fun q => q.1.leak) accounted_step leak_step_of_slotFree leak_step_of_not_slotFree
    (accounted_new cfg nextId) (leak_new nextId) h
  have hlt := (machine cfg).always_of_invariant leak_lt_step (s := (new nextId, st))
    ⟨accounted_new cfg nextId, (leak_new nextId).trans_lt hM⟩ es
  refine ⟨?_, ?_⟩
  · rw [← hdrift]
    refine (machine cfg).always_congr (I := fun q => Accounted cfg q.1) accounted_step ?_
      (accounted_new cfg nextId) es
    intro q hq
    have hle := hq.occupancy_le
    rw [leak]
    omega
  · refine Machine.Always.mono _ ?_ hlt
    rintro q ⟨hq, hleak⟩ hempty
    rw [leak, SlotTable.occupancy_eq_zero.mpr hempty] at hleak
    exact hleak

/-- A gate of two and the default timeout of three seconds. -/
def lossyConfig : Config where
  maxOutstanding := 2
  timeoutNs := 3000000000

/-- Two sends, and a reply to the first: the counter is exact all along. -/
theorem gate_exact_two_sends :
    (∃ p, (machine lossyConfig).run (new 7, .new) [.send 5, .send 20, .recv 900 [replyTo 7]]
        = some p ∧ p.1.outstanding = 1) ∧
      (machine lossyConfig).Always (fun q => q.1.outstanding = q.1.slots.occupancy) (new 7, .new)
        [.send 5, .send 20, .recv 900 [replyTo 7]] := by
  have hfree : (machine lossyConfig).Meets SlotFree (new 7, .new)
      [.send 5, .send 20, .recv 900 [replyTo 7]] :=
    (machine lossyConfig).meets_cons rfl (fun _ _ => rfl) <|
      (machine lossyConfig).meets_cons rfl (fun _ _ => rfl) <|
        (machine lossyConfig).meets_cons rfl (fun _ he => by cases he) trivial
  exact ⟨⟨_, rfl, rfl⟩, (gate_exact_iff_slotFree lossyConfig (by decide) 7 .new _ _ rfl).1.mpr hfree⟩

/-! ## A run that leaks

The first query is never answered.  Every later one is answered 10 µs after it was sent, one every
20 µs, so the id goes round in 1.3 s and the 65537th send finds slot `0` still waiting for its
timeout. -/

/-- Query number `k + 1` and the reply to it. -/
def answeredQuery (k : ℕ) : List Event :=
  [.send (20000 * (k + 1)), .recv (20000 * (k + 1) + 10000) [replyTo (Fin.ofNat 65536 (k + 1))]]

/-- The first `n` queries after the lost one. -/
def answeredQueries (n : ℕ) : List Event := (List.range n).flatMap answeredQuery

/-- The lost query, 65535 answered ones, and the query that takes the lost one's slot. -/
def wrapRun : List Event := .send 1 :: (answeredQueries 65535 ++ [.send (20000 * 65536)])

/-- The worker while the lost query waits: one slot occupied, one query outstanding. -/
structure OneLost (n : ℕ) (w : Worker) : Prop where
  slots_eq : w.slots = SlotTable.store .empty 0 1
  outstanding_eq : w.outstanding = 1
  nextId_eq : w.nextId = Fin.ofNat 65536 (n + 1)

/-- One answered query leaves the table as it was. -/
theorem OneLost.answeredQuery {n : ℕ} {p : Worker × StatsCollector} (hp : OneLost n p.1)
    (hn : n < 65535) :
    ∃ q, (machine lossyConfig).run p (Worker.answeredQuery n) = some q ∧ OneLost (n + 1) q.1 := by
  obtain ⟨hslots, hout, hnext⟩ := hp
  have hne : (Fin.ofNat 65536 (n + 1) : QueryId) ≠ 0 := by
    intro h
    have hval := congrArg Fin.val h
    simp only [Fin.val_ofNat, Fin.val_zero] at hval
    omega
  have hfree : p.1.slots p.1.nextId = 0 := by
    rw [hslots, hnext, SlotTable.store_of_ne _ hne, SlotTable.empty_apply]
  have hsend : step lossyConfig p (.send (20000 * (n + 1)))
      = some (p.1.sent (20000 * (n + 1)), p.2.incSent) := by
    rw [step, if_pos (by rw [hout]; decide)]
  have hocc : (p.1.sent (20000 * (n + 1))).slots (Fin.ofNat 65536 (n + 1)) ≠ 0 := by
    rw [sent_slots, hnext, SlotTable.store_self]
    exact stamp_ne_zero _
  refine ⟨_, (machine lossyConfig).run_cons_eq_some.mpr
    ⟨_, hsend, (machine lossyConfig).run_single rfl⟩, ?_⟩
  simp only [List.foldl_cons, List.foldl_nil]
  rw [recvOne_replyTo _ _ _ hocc]
  refine ⟨?_, ?_, ?_⟩
  · rw [complete_slots, sent_slots, ← hnext, SlotTable.clear_store_of_empty _ _ hfree, hslots]
  · rw [complete_outstanding, sent_outstanding, hout]
  · rw [complete_nextId, sent_nextId, hnext]
    apply Fin.ext
    simp only [Fin.val_add, Fin.val_ofNat, Fin.val_one]
    omega

/-- While the lost query waits, any number of answered queries up to the wrap can follow. -/
theorem OneLost.answeredQueries {p : Worker × StatsCollector} (hp : OneLost 0 p.1) {n : ℕ}
    (hn : n ≤ 65535) :
    ∃ q, (machine lossyConfig).run p (Worker.answeredQueries n) = some q ∧ OneLost n q.1 := by
  induction n with
  | zero => exact ⟨p, rfl, hp⟩
  | succ n ih =>
    obtain ⟨q, hrun, hq⟩ := ih (by omega)
    obtain ⟨r, hrun', hr⟩ := hq.answeredQuery (by omega)
    refine ⟨r, ?_, hr⟩
    rw [Worker.answeredQueries, List.range_succ, List.flatMap_append, List.flatMap_singleton]
    exact (machine lossyConfig).run_trans hrun hrun'

/-- The clock readings of answered queries. -/
theorem clocks_answeredQueries (n : ℕ) : (answeredQueries n).filterMap Event.clock?
    = (List.range n).flatMap fun k => [20000 * (k + 1), 20000 * (k + 1) + 10000] := by
  rw [answeredQueries, List.filterMap_flatMap]
  rfl

/-- The clock readings of the leaking run. -/
theorem clocks_wrapRun : wrapRun.filterMap Event.clock?
    = 1 :: ((List.range 65535).flatMap (fun k => [20000 * (k + 1), 20000 * (k + 1) + 10000])
        ++ [20000 * 65536]) := by
  have hlast : [Event.send (20000 * 65536)].filterMap Event.clock? = [20000 * 65536] := rfl
  rw [wrapRun, List.filterMap_cons_some (f := Event.clock?) (b := 1) rfl, List.filterMap_append,
    clocks_answeredQueries, hlast]

/-- The leaking run ends with its last send. -/
theorem clock_le_wrapRun (t : ℕ) (ht : t ∈ wrapRun.filterMap Event.clock?) : t ≤ 20000 * 65536 := by
  rw [clocks_wrapRun] at ht
  simp only [List.mem_cons, List.mem_append, List.mem_flatMap, List.mem_range, List.not_mem_nil,
    or_false] at ht
  obtain rfl | ⟨k, hk, rfl | rfl⟩ | rfl := ht <;> omega

/-- The clock of the leaking run never goes back. -/
theorem clockOrdered_wrapRun : ClockOrdered wrapRun := by
  rw [ClockOrdered, clocks_wrapRun]
  refine List.pairwise_cons.mpr ⟨?_, List.pairwise_append.mpr ⟨?_, by simp, ?_⟩⟩
  · simp only [List.mem_append, List.mem_flatMap, List.mem_range, List.mem_cons, List.not_mem_nil,
      or_false]
    rintro t (⟨k, -, rfl | rfl⟩ | rfl) <;> omega
  · refine List.pairwise_flatMap.mpr ⟨fun k _ => by simp, ?_⟩
    refine (List.pairwise_lt_range (n := 65535)).imp ?_
    intro a b hab x hx y hy
    simp only [List.mem_cons, List.not_mem_nil, or_false] at hx hy
    omega
  · simp only [List.mem_flatMap, List.mem_range, List.mem_cons, List.not_mem_nil, or_false]
    rintro t ⟨k, hk, rfl | rfl⟩ u rfl <;> omega

/-- After 65536 sends with one loss the counter and the table disagree, at a gate of two and with a
clock that never goes back. -/
theorem gate_not_exact_after_wrap :
    1 ≤ lossyConfig.maxOutstanding ∧ lossyConfig.maxOutstanding ≤ 65536 ∧ ClockOrdered wrapRun ∧
      ∃ p, (machine lossyConfig).run (new 0, .new) wrapRun = some p ∧
        p.1.outstanding = 2 ∧ p.1.slots.occupancy = 1 := by
  refine ⟨by decide, by decide, clockOrdered_wrapRun, ?_⟩
  have hlost : OneLost 0 ((new 0).sent 1) := ⟨rfl, rfl, rfl⟩
  obtain ⟨q, hrun, ⟨hslots, hout, hnext⟩⟩ :=
    OneLost.answeredQueries (p := ((new 0).sent 1, StatsCollector.new.incSent)) hlost
      (Nat.le_refl 65535)
  have hlast : step lossyConfig q (.send (20000 * 65536))
      = some (q.1.sent (20000 * 65536), q.2.incSent) := by
    rw [step, if_pos (by rw [hout]; decide)]
  refine ⟨_, (machine lossyConfig).run_cons_eq_some.mpr ⟨_, rfl,
    (machine lossyConfig).run_trans hrun ((machine lossyConfig).run_single hlast)⟩, ?_, ?_⟩
  · rw [sent_outstanding, hout]
  · have hwrap : q.1.nextId = 0 := hnext.trans (by decide)
    rw [sent_slots, hwrap, hslots, SlotTable.occupancy_store_of_occupied (stamp_ne_zero _)
      (by rw [SlotTable.store_self]; decide),
      SlotTable.occupancy_store_of_empty (by decide) (SlotTable.empty_apply 0),
      SlotTable.occupancy_empty]

end Dnsmark.Udp.Worker
