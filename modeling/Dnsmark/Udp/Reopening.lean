import Dnsmark.Udp.Gate

/-!
# The gate of the closed-loop worker reopens

A server that stops answering shuts the gate: `outstanding` goes up to `max_outstanding` and nothing is
sent.  What opens it again is the sweep.  Once the timeout has passed since the last send, one sweep frees
every slot and counts every waiting query as a timeout, and `outstanding` falls to the leak of `Udp.Gate`:
the number of queries that were overwritten in their slot before they were answered or timed out.

The leak is a count of steps of the run (`leak_eq_tally`), it is what the gate has lost for good, and it is
less than `max_outstanding`.  So the worker sends again after every silence, `max_outstanding` less the
leak queries at once.
-/

namespace Dnsmark.Udp.Worker

open Dnsmark.Stats

variable {cfg : Config}

/-- A send that overwrites a query still waiting in the slot of its id. -/
def overwrites (p : Worker × StatsCollector) : Event → Bool
  | .send _ => p.1.slots p.1.nextId ≠ 0
  | _ => false

/-! ## The leak is a count -/

theorem leak_step (p : Worker × StatsCollector) (e : Event) (p' : Worker × StatsCollector)
    (hw : Accounted cfg p.1) (h : step cfg p e = some p') :
    p'.1.leak = p.1.leak + (overwrites p e).toNat := by
  obtain ⟨t, rfl, -, rfl⟩ | ⟨b, rfl, -, rfl⟩ | ⟨t, msgs, rfl, rfl⟩ | ⟨t, rfl, rfl⟩ := step_cases h
  · by_cases hs : p.1.slots p.1.nextId = 0
    · rw [leak_sent_of_empty t hs]
      simp [overwrites, hs]
    · rw [leak_sent_of_occupied hw t hs]
      simp [overwrites, hs]
  · rfl
  · exact (hw.recv t msgs).2
  · exact (hw.sweep t).2.1

theorem leak_eq_tally {nextId : QueryId} {st : StatsCollector} {es : List Event}
    {p : Worker × StatsCollector} (h : (machine cfg).run (new nextId, st) es = some p) :
    p.1.leak = (machine cfg).tally overwrites (new nextId, st) es := by
  have hleak := (machine cfg).drift_eq_add_tally (I := fun q => Accounted cfg q.1)
    (d := fun q => q.1.leak) accounted_step leak_step (accounted_new cfg nextId) h
  rwa [leak_new, Nat.zero_add] at hleak

/-! ## What the slots remember is old -/

/-- Every query in the table has timed out at `nowNs`. -/
def AllExpired (cfg : Config) (nowNs : ℕ) (w : Worker) : Prop :=
  ∀ id, w.slots id ≠ 0 → expired cfg nowNs (w.slots id)

/-- A send was over a timeout before `nowNs`; nothing is said about the other events. -/
def Past (cfg : Config) (nowNs : ℕ) (e : Event) : Prop :=
  ∀ t, e = .send t → max t 1 + cfg.timeoutNs ≤ nowNs

variable {nowNs : ℕ}

/-- A table with fewer queries. -/
theorem AllExpired.of_slots {w w' : Worker} (hw : AllExpired cfg nowNs w)
    (hslots : ∀ id, w'.slots id ≠ 0 → w'.slots id = w.slots id) : AllExpired cfg nowNs w' := by
  intro id hid
  have heq := hslots id hid
  rw [heq] at hid ⊢
  exact hw id hid

theorem AllExpired.sent {w : Worker} (hw : AllExpired cfg nowNs w) {t : ℕ}
    (ht : max t 1 + cfg.timeoutNs ≤ nowNs) : AllExpired cfg nowNs (w.sent t) := by
  intro id hid
  rw [sent_slots] at hid ⊢
  by_cases hne : id = w.nextId
  · rw [hne, SlotTable.store_self, expired, decide_eq_true_iff]
    omega
  · rw [SlotTable.store_of_ne _ hne] at hid ⊢
    exact hw id hid

theorem AllExpired.recv {p : Worker × StatsCollector} (hw : AllExpired cfg nowNs p.1) (t : ℕ)
    (msgs : List Datagram) : AllExpired cfg nowNs (msgs.foldl (recvOne cfg t) p).1 := by
  refine recv_induction cfg (P := fun q => AllExpired cfg nowNs q.1) t ?_ p msgs hw
  intro q id rcode hq _
  refine hq.of_slots fun j hj => ?_
  rw [complete_slots] at hj ⊢
  refine SlotTable.clear_of_ne _ fun heq => hj ?_
  rw [heq, SlotTable.clear_self]

theorem sweep_slots (t : ℕ) (p : Worker × StatsCollector) :
    (Worker.sweep cfg t p).1.slots = p.1.slots.sweep (expired cfg t) := by
  obtain ⟨h, -⟩ | h := sweep_eq cfg t p <;> rw [h]
  rfl

theorem allExpired_step (p : Worker × StatsCollector) (e : Event) (p' : Worker × StatsCollector)
    (hw : AllExpired cfg nowNs p.1) (he : Past cfg nowNs e) (h : step cfg p e = some p') :
    AllExpired cfg nowNs p'.1 := by
  obtain ⟨t, rfl, -, rfl⟩ | ⟨b, rfl, -, rfl⟩ | ⟨t, msgs, rfl, rfl⟩ | ⟨t, rfl, rfl⟩ := step_cases h
  · exact hw.sent (he t rfl)
  · exact hw.of_slots fun _ _ => rfl
  · exact hw.recv t msgs
  · refine hw.of_slots fun id hid => ?_
    rw [sweep_slots] at hid ⊢
    exact SlotTable.sweep_eq_of_ne_zero hid

/-! ## The sweep that opens the gate -/

/-- A sweep of a table of expired queries empties it and counts them all. -/
theorem AllExpired.sweep {p : Worker × StatsCollector} (hw : AllExpired cfg nowNs p.1) :
    (∀ id, (Worker.sweep cfg nowNs p).1.slots id = 0) ∧
      (Worker.sweep cfg nowNs p).2.timeouts = p.2.timeouts + p.1.slots.occupancy := by
  have hempty : ∀ id, p.1.slots.sweep (expired cfg nowNs) id = 0 := by
    intro id
    by_contra hid
    have heq := SlotTable.sweep_eq_of_ne_zero hid
    have hstale := hw id (heq ▸ hid)
    rw [SlotTable.sweep, if_pos ⟨heq ▸ hid, hstale⟩] at hid
    exact hid rfl
  refine ⟨by rw [sweep_slots]; exact hempty, ?_⟩
  have hocc := p.1.slots.occupancy_sweep (expired cfg nowNs)
  rw [SlotTable.occupancy_eq_zero.mpr hempty, Nat.zero_add] at hocc
  obtain ⟨h, hzero⟩ | h := sweep_eq cfg nowNs p
  · rw [h, ← hocc, hzero]
    rfl
  · rw [h, ← hocc, StatsCollector.incTimeouts_timeouts]

/-- The gate lets through what `outstanding` leaves of `max_outstanding`. -/
theorem isSome_run_sends (p : Worker × StatsCollector) (hle : p.1.outstanding ≤ cfg.maxOutstanding)
    (ts : List ℕ) : ((machine cfg).run p (ts.map .send)).isSome ↔
      ts.length ≤ cfg.maxOutstanding - p.1.outstanding := by
  induction ts generalizing p with
  | nil => simp
  | cons t ts ih =>
    rw [List.map_cons, Machine.run_cons]
    by_cases hgate : p.1.outstanding < cfg.maxOutstanding
    · have hstep : (machine cfg).step p (.send t) = some (p.1.sent t, p.2.incSent) := if_pos hgate
      rw [hstep, Option.bind_some, ih _ (by exact hgate), sent_outstanding, List.length_cons]
      omega
    · have hstep : (machine cfg).step p (.send t) = none := if_neg hgate
      rw [hstep, List.length_cons]
      simp only [Option.bind_none, Option.isSome_none, Bool.false_eq_true, false_iff]
      omega

/-- In every run and against any server, a sweep once the timeout has passed since every send empties the
table and counts each waiting query as a timeout.  It leaves `outstanding` at the number of queries the run
has overwritten in their slots, fewer than `max_outstanding`, and the worker can then send the rest. -/
theorem gate_reopens (cfg : Config) (hM : 1 ≤ cfg.maxOutstanding) (nextId : QueryId)
    (st : StatsCollector) (es : List Event) (p : Worker × StatsCollector)
    (h : (machine cfg).run (new nextId, st) es = some p) (nowNs : ℕ)
    (hnow : ∀ t, .send t ∈ es → max t 1 + cfg.timeoutNs ≤ nowNs) :
    ∃ q, (machine cfg).run p [.sweep nowNs] = some q ∧
      (∀ id, q.1.slots id = 0) ∧
      q.2.timeouts = p.2.timeouts + p.1.slots.occupancy ∧
      q.1.outstanding = (machine cfg).tally overwrites (new nextId, st) es ∧
      q.1.outstanding < cfg.maxOutstanding ∧
      ∀ ts : List ℕ, ((machine cfg).run q (ts.map .send)).isSome ↔
        ts.length ≤ cfg.maxOutstanding - q.1.outstanding := by
  have hpast : ∀ e ∈ es, Past cfg nowNs e := fun e he t ht => hnow t (ht ▸ he)
  have hold : AllExpired cfg nowNs p.1 :=
    (machine cfg).run_invariant_of_meets (I := fun q => AllExpired cfg nowNs q.1)
      (C := fun _ e => Past cfg nowNs e) allExpired_step (fun id hid => absurd rfl hid)
      ((machine cfg).meets_of_forall_mem (fun e he _ => hpast e he) _) h
  obtain ⟨haccounted, hlt⟩ := (machine cfg).run_invariant leak_lt_step
    (s := (new nextId, st)) ⟨accounted_new cfg nextId, (leak_new nextId).trans_lt hM⟩ h
  obtain ⟨hempty, htimeouts⟩ := hold.sweep
  obtain ⟨hswept, hleak, -⟩ := haccounted.sweep nowNs
  have hout : (Worker.sweep cfg nowNs p).1.outstanding = p.1.leak := by
    rw [← hleak, leak, SlotTable.occupancy_eq_zero.mpr hempty, Nat.sub_zero]
  exact ⟨Worker.sweep cfg nowNs p, (machine cfg).run_single rfl, hempty, htimeouts,
    hout.trans (leak_eq_tally h), hout.trans_lt hlt, isSome_run_sends _ hswept.outstanding_le⟩

/-- Two queries to a silent server shut a gate of two.  The worker goes on sweeping and receiving nothing, and
the sweep after four seconds lets two more through. -/
theorem gate_reopens_silent :
    (machine lossyConfig).run (new 7, .new) [.send 5, .send 20, .send 1000] = none ∧
    ∃ p, (machine lossyConfig).run (new 7, .new)
        [.send 5, .send 20, .recv 1000 [], .sweep 2990000000, .recv 3990000000 []] = some p ∧
      ∃ q, (machine lossyConfig).run p [.sweep 4000000000] = some q ∧ q.1.outstanding = 0 ∧
        ((machine lossyConfig).run q ([4000000001, 4000000002].map .send)).isSome := by
  refine ⟨rfl, _, rfl, ?_⟩
  obtain ⟨q, hrun, -, -, hout, -, hsends⟩ := gate_reopens lossyConfig (by decide) 7 .new
    [.send 5, .send 20, .recv 1000 [], .sweep 2990000000, .recv 3990000000 []] _ rfl 4000000000
    (by simp [lossyConfig])
  have hzero : q.1.outstanding = 0 := hout.trans rfl
  refine ⟨q, hrun, hzero, (hsends _).mpr ?_⟩
  rw [hzero]
  decide

end Dnsmark.Udp.Worker
