import Dnsmark.Xdp.Gate
import Dnsmark.Xdp.IdRanges
import Dnsmark.Xdp.Iteration

/-!
# A gate that is shut for good

The drift of the shared gate never shrinks.  Between two iterations it is what `global_in_flight` shows
beyond the occupied slots, so once it has reached `max_outstanding` nothing reopens the gate: not a reply,
not a timeout, not an empty table.  Below that the queries in flight only have to be answered, and a
worker sends again.

One race is enough to get there.  A worker adds its batch to the counter after the kick and the inserts; if
its replies are matched and subtracted by another worker before, the subtraction finds nothing to subtract
and the addition stays.
-/

namespace Dnsmark.Xdp

open Dnsmark.Inflight Dnsmark.Stats Dnsmark.Engine

variable {cfg : Config} {N : ℕ}

/-- Every worker is at the head of its loop, and `shutdown` is not stored. -/
structure State.Between (s : State N) : Prop where
  head : ∀ i, (s.threads i).pc = .loopHead
  running : s.shared.shutdown = false

/-- No frame is ever submitted again, whatever happens. -/
def State.Silent (cfg : Config) (s : State N) : Prop :=
  ∀ es s', (workers cfg N).machine.run s es = some s' →
    ∀ i pool enq, .thread i (.transmit pool enq) ∈ es → enq = 0

/-! ## Above the cap -/

theorem Pc.owed_nonpos {pc : Pc} (h : pc.reserved = 0) : pc.owed ≤ 0 := by
  cases pc with
  | register ids enq =>
    obtain rfl : enq = 0 := h
    simp [Pc.owed]
  | _ => simp [Pc.owed]

/-- No worker has passed the gate, and the drift has reached the cap. -/
structure State.Shut (cfg : Config) (s : State N) : Prop where
  reserved : ∀ i, (s.threads i).pc.reserved = 0
  drift : (cfg.maxOutstanding : ℤ) ≤ s.drift

/-- Then the counter has reached it too. -/
theorem State.Shut.le_globalInFlight {s : State N} (h : s.Shut cfg) :
    cfg.maxOutstanding ≤ s.shared.globalInFlight := by
  have howed : ∑ i, (s.threads i).pc.owed ≤ 0 :=
    Finset.sum_nonpos fun i _ => Pc.owed_nonpos (h.reserved i)
  have hdrift := h.drift
  simp only [State.drift, Threads.total] at hdrift
  omega

/-- With the counter at the cap, a worker that has not passed the gate does not pass it. -/
theorem UnifiedWorker.reserved_of_full {i : Fin N} {w w' : UnifiedWorker} {m m' : Shared} {a : Act}
    (hloop : 0 < cfg.maxOutstanding) (hfull : cfg.maxOutstanding ≤ m.globalInFlight)
    (hw : w.pc.reserved = 0) (h : Stepped cfg N i w m a w' m') : w'.pc.reserved = 0 := by
  cases h with
  | goOn | replies | noReplies | startSweep | noSweep | sweepStep | drainStep | endDrain | flushSent
  | flushRcodes | transmitNone | addInFlight | addNothing | releaseExpired => rfl
  | leave pc' hpc _ hpc' =>
    rw [hpc']
    split <;> rfl
  | gate grant pc' hpc _ hpc' =>
    rcases hpc' with rfl | rfl
    · rfl
    · show headroom cfg grant m.globalInFlight = 0
      rw [headroom, if_pos hloop, Nat.sub_eq_zero_of_le hfull, Nat.min_zero]
  | transmit room pool enq hpc hpos henq =>
    rw [hpc] at hw
    obtain rfl : room = 0 := hw
    omega
  | insert id ids enq nowNs hpc => rwa [hpc] at hw
  | countSent enq nowNs hpc =>
    rw [countSent_pc]
    rfl
  | reply completed id rcode nowNs hpc =>
    obtain ⟨completed', hpc'⟩ := reply_pc cfg hpc m id rcode nowNs
    rw [hpc']
    rfl
  | endReplies completed hpc =>
    rw [endReplies_pc]
    rfl
  | endSweep sc pc' hpc hpc' => rcases hpc' with ⟨-, rfl⟩ | ⟨-, rfl⟩ <;> rfl
  | countTimeouts expired pc' hpc hpc' =>
    rw [hpc']
    split <;> rfl

/-- No step takes a drift back. -/
theorem State.drift_le (hloop : 0 < cfg.maxOutstanding) {s s' : State N}
    {e : Threads.Event (Fin N) Act EngineAct} (h : (workers cfg N).machine.step s e = some s') :
    s.drift ≤ s'.drift :=
  ((workers cfg N).total_step (C := KeepsGate)
    (fun _ _ _ _ _ _ hstep => UnifiedWorker.growth_step (Config.firehose_eq_false hloop)
      (UnifiedWorker.step_cases hstep))
    (fun _ m k _ hk => engine_gate m k hk) (fun _ _ _ => Iff.rfl) (fun _ _ => trivial) h).1

/-- A shut gate stays shut, and nothing is submitted. -/
theorem State.Shut.step (hloop : 0 < cfg.maxOutstanding) {s s' : State N}
    {e : Threads.Event (Fin N) Act EngineAct} (hs : s.Shut cfg)
    (h : (workers cfg N).machine.step s e = some s') :
    s'.Shut cfg ∧ ∀ i pool enq, e = .thread i (.transmit pool enq) → enq = 0 := by
  have hdrift := hs.drift.trans (State.drift_le hloop h)
  obtain ⟨i, a, w', m', rfl, hstep, rfl⟩ | ⟨k, m', rfl, -, rfl⟩ :=
    (workers cfg N).machine_step_cases h
  · have hcases := UnifiedWorker.step_cases hstep
    refine ⟨⟨?_, hdrift⟩, ?_⟩
    · refine (Function.forall_update_iff s.threads fun _ w => w.pc.reserved = 0).mpr
        ⟨?_, fun j _ => hs.reserved j⟩
      exact UnifiedWorker.reserved_of_full hloop hs.le_globalInFlight (hs.reserved i) hcases
    · rintro j pool enq ⟨⟩
      cases hcases with
      | transmit room _ _ hpc hpos henq =>
        have hroom := hs.reserved i
        rw [hpc] at hroom
        obtain rfl : room = 0 := hroom
        omega
      | transmitNone => rfl
  · exact ⟨⟨hs.reserved, hdrift⟩, nofun⟩

theorem State.Between.drift {s : State N} (hs : s.Between) :
    s.drift = s.shared.globalInFlight - s.shared.slots.occupancy :=
  drift_of_quiet fun i => by rw [hs.head i]; rfl

theorem State.Between.silent_of_le (hloop : 0 < cfg.maxOutstanding) {s : State N} (hs : s.Between)
    (hle : cfg.maxOutstanding + s.shared.slots.occupancy ≤ s.shared.globalInFlight) :
    s.Silent cfg := by
  have hshut : s.Shut cfg := by
    refine ⟨fun i => by rw [hs.head i]; rfl, ?_⟩
    rw [hs.drift]
    omega
  intro es s' hrun i pool enq hmem
  refine (workers cfg N).machine.forall_mem_of_run (I := State.Shut cfg)
    (P := fun e => ∀ i pool enq, e = .thread i (.transmit pool enq) → enq = 0)
    (fun _ _ _ hs h => hs.step hloop h) hshut hrun _ hmem i pool enq rfl

/-! ## Below the cap -/

/-- One reply to each of `ids`. -/
def repliesTo (ids : List QueryId) : List Matched := ids.map fun id => ⟨id, 0, 0⟩

@[simp] theorem map_id_repliesTo (ids : List QueryId) : (repliesTo ids).map Matched.id = ids := by
  rw [repliesTo, List.map_map]
  exact List.map_id _

@[simp] theorem length_repliesTo (ids : List QueryId) : (repliesTo ids).length = ids.length :=
  List.length_map _

section Alone

variable {i : Fin N} {w : UnifiedWorker} {m : Shared}

/-- An iteration that sends nothing and receives a reply to each of `ids`. -/
def receiving (ids : List QueryId) : List Act :=
  [.checkShutdown, .gate 0, .replies] ++ (repliesTo ids).map Matched.act ++ [.endReplies, .noSweep]

/-- The worker after it, back at the head of its loop. -/
def UnifiedWorker.answering (w : UnifiedWorker) (n : ℕ) : UnifiedWorker :=
  { w with answered := w.answered + n }

/-- What the workers share after it. -/
def received (m : Shared) (ids : List QueryId) : Shared :=
  { m with
    slots := m.slots.clearAll ids
    globalInFlight := m.globalInFlight - ids.length
    stats := recordAll m.stats ((repliesTo ids).map (Matched.sample m.slots)) }

variable (cfg i) in
theorem run_receiving (hloop : 0 < cfg.maxOutstanding) (hpc : w.pc = .loopHead)
    (hup : m.shutdown = false) {ids : List QueryId} (hnodup : ids.Nodup)
    (hslots : ∀ id ∈ ids, m.slots id ≠ 0) :
    ((workers cfg N).alone i).run (w, m) (receiving ids)
      = some (w.answering ids.length, received m ids) := by
  have hfire := Config.firehose_eq_false hloop
  have hhead : ((workers cfg N).alone i).run (w, m) [.checkShutdown, .gate 0, .replies]
      = some ({ w with pc := .matching 0 }, m) := by
    have hzero : UnifiedWorker.headroom cfg 0 m.globalInFlight = 0 :=
      Nat.le_zero.mp (UnifiedWorker.headroom_le_grant cfg 0 _)
    refine (Machine.run_cons_eq_some _).mpr ⟨({ w with pc := .gate }, m), ?_, ?_⟩
    · simp only [Threads.alone, workers, UnifiedWorker.step, hpc, hup, Bool.false_eq_true, if_false]
    · refine (Machine.run_cons_eq_some _).mpr ⟨({ w with pc := .receive }, m), ?_, rfl⟩
      simp only [Threads.alone, workers, UnifiedWorker.step, hzero, Nat.lt_irrefl, if_false,
        Nat.zero_le, if_true]
  have hreplies := run_replies (i := i) (w := { w with pc := .matching 0 }) (m := m)
    hfire rfl (show ((repliesTo ids).map Matched.id).Nodup by rwa [map_id_repliesTo])
    (List.forall_mem_map.mpr hslots)
  rw [map_id_repliesTo, length_repliesTo] at hreplies
  have htail : ((workers cfg N).alone i).run
      ({ w with pc := .matching (0 + ids.length), answered := w.answered + ids.length },
        { m with
          slots := m.slots.clearAll ids
          stats := recordAll m.stats ((repliesTo ids).map (Matched.sample m.slots)) })
      [.endReplies, .noSweep]
      = some ({ w with pc := .loopHead, answered := w.answered + ids.length }, received m ids) := by
    simp [Machine.run, Threads.alone, workers, UnifiedWorker.step, UnifiedWorker.endReplies, hfire,
      received]
  rw [receiving, Machine.run_trans _ (Machine.run_trans _ hhead hreplies) htail, ← hpc]
  rfl

/-- The part of an iteration that sends `n` frames, up to the kick. -/
def submitting (n : ℕ) : List Act := [.checkShutdown, .gate n, .transmit n n]

/-- The ids of the next `n` frames of worker `i`. -/
def nextIds (i : Fin N) (w : UnifiedWorker) (n : ℕ) : List QueryId :=
  (List.range n).map fun k => idAt N i (w.idCtr + k)

variable (cfg i) in
theorem run_submitting (hloop : 0 < cfg.maxOutstanding) (hpc : w.pc = .loopHead)
    (hup : m.shutdown = false) {n : ℕ} (hpos : 0 < n) (hn : n ≤ txBatch)
    (hroom : m.globalInFlight + n ≤ cfg.maxOutstanding) :
    ((workers cfg N).alone i).run (w, m) (submitting n)
      = some ({ w with pc := .register (nextIds i w n) n, idCtr := w.idCtr + n }, m) := by
  have hfire := Config.firehose_eq_false hloop
  have hgrant : UnifiedWorker.headroom cfg n m.globalInFlight = n := by
    rw [UnifiedWorker.headroom, if_pos hloop]
    omega
  refine (Machine.run_cons_eq_some _).mpr ⟨({ w with pc := .gate }, m), ?_, ?_⟩
  · simp only [Threads.alone, workers, UnifiedWorker.step, hpc, hup, Bool.false_eq_true, if_false]
  refine (Machine.run_cons_eq_some _).mpr ⟨({ w with pc := .transmit n }, m), ?_, ?_⟩
  · simp only [Threads.alone, workers, UnifiedWorker.step, if_pos hn, hgrant, if_pos hpos]
  refine Machine.run_single _ ?_
  simp only [Threads.alone, workers, UnifiedWorker.step, Nat.min_self, Nat.le_refl, if_true,
    UnifiedWorker.transmit, if_pos hpos, Config.registered, hfire, Bool.false_eq_true, if_false]
  rw [List.take_of_length_le (by simp)]
  rfl

/-- The rest of an iteration whose frames are submitted and registered, without a reply. -/
def settling : List Act := [.addInFlight, .countSent 0, .noReplies, .noSweep]

variable (i w m) in
theorem run_settling (hloop : 0 < cfg.maxOutstanding) {n : ℕ} (hpc : w.pc = .register [] n) :
    ∃ w' m', ((workers cfg N).alone i).run (w, m) settling = some (w', m') ∧ w'.pc = .loopHead ∧
      m'.slots = m.slots ∧ m'.globalInFlight = m.globalInFlight + n ∧ m'.shutdown = m.shutdown := by
  obtain ⟨w', m', hadded, hpc', hslots, hgate, -, -, hup⟩ :=
    run_added i w m (Config.firehose_eq_false hloop) hpc 0
  have hrest : ((workers cfg N).alone i).run (w', m') [.noReplies, .noSweep]
      = some ({ w' with pc := .loopHead }, m') := by
    simp [Machine.run, Threads.alone, workers, UnifiedWorker.step, hpc']
  exact ⟨_, _, Machine.run_trans _ hadded hrest, rfl, hslots, hgate, hup⟩

end Alone

/-- If the drift is below the cap, worker 0 sends again once the waiting queries are answered. -/
theorem State.Between.not_silent (hloop : 0 < cfg.maxOutstanding) (hN : 0 < N) {s : State N}
    (hs : s.Between) (hle : s.shared.slots.occupancy ≤ s.shared.globalInFlight)
    (hlt : s.shared.globalInFlight < cfg.maxOutstanding + s.shared.slots.occupancy) :
    ¬ s.Silent cfg := by
  intro hsilent
  have hreceive := run_receiving cfg ⟨0, hN⟩ hloop (hs.head ⟨0, hN⟩) hs.running
    (Finset.nodup_toList s.shared.slots.live)
    fun id hid => SlotTable.mem_live.mp (Finset.mem_toList.mp hid)
  have hroom : (received s.shared s.shared.slots.live.toList).globalInFlight + 1
      ≤ cfg.maxOutstanding := by
    simp only [received, Finset.length_toList]
    unfold SlotTable.occupancy at hle hlt
    omega
  have hsend := run_submitting (m := received s.shared s.shared.slots.live.toList)
    (w := (s.threads ⟨0, hN⟩).answering s.shared.slots.live.toList.length) cfg ⟨0, hN⟩ hloop
    (hs.head ⟨0, hN⟩) hs.running Nat.one_pos (by decide) hroom
  have hrun := (workers cfg N).run_alone (s := s) (Machine.run_trans _ hreceive hsend)
  have hzero := hsilent _ _ hrun ⟨0, hN⟩ 1 1 (by simp [submitting])
  exact absurd hzero Nat.one_ne_zero

/-! ## How to get there -/

section Race

variable (i : Fin N) (w : UnifiedWorker)

/-- The ids of a batch within the span of the worker are different. -/
theorem nodup_nextIds {n : ℕ} (hspan : n ≤ idSpan N) : (nextIds i w n).Nodup := by
  refine List.nodup_range.map_on ?_
  intro a ha b hb heq
  rw [List.mem_range] at ha hb
  rcases Nat.lt_trichotomy a b with hlt | rfl | hgt
  · have hne := idAt_add_ne N i (w.idCtr + a) (d := b - a) (by omega) (by omega)
    rw [show w.idCtr + a + (b - a) = w.idCtr + b by omega] at hne
    exact absurd heq.symm hne
  · rfl
  · have hne := idAt_add_ne N i (w.idCtr + b) (d := a - b) (by omega) (by omega)
    rw [show w.idCtr + b + (a - b) = w.idCtr + a by omega] at hne
    exact absurd heq hne

/-- The table after the batch was registered in an empty one. -/
def registered (ids : List QueryId) : SlotTable QueryId :=
  SlotTable.storeAll .empty (ids.zip ((ids.map fun _ => 0).map (max · 1)))

theorem registered_eq (ids : List QueryId) :
    registered ids = SlotTable.storeAll .empty (ids.map fun id => (id, 1)) := by
  rw [registered, List.map_map]
  congr 1
  exact List.map_prod_left_eq_zip.symm

theorem registered_of_mem {ids : List QueryId} (hnodup : ids.Nodup) {id : QueryId} (h : id ∈ ids) :
    registered ids id ≠ 0 := by
  have hfst : (ids.map fun id => (id, 1)).map Prod.fst = ids := by
    rw [List.map_map]
    exact List.map_id _
  have hmem : (id, 1) ∈ ids.map fun id => (id, 1) := List.mem_map.mpr ⟨id, h, rfl⟩
  rw [registered_eq, SlotTable.storeAll_of_mem .empty (hfst.symm ▸ hnodup) hmem]
  exact Nat.one_ne_zero

/-- All of it is answered. -/
theorem clearAll_registered (ids : List QueryId) : (registered ids).clearAll ids = .empty := by
  funext id
  rw [SlotTable.clearAll_apply]
  by_cases hid : id ∈ ids
  · rw [if_pos hid, SlotTable.empty_apply]
  · rw [if_neg hid, registered_eq, SlotTable.storeAll_of_notMem]
    simpa using hid

end Race

/-- One race shuts the gate for good: a worker's whole batch is answered and subtracted before the worker
adds it. -/
theorem exists_shut (hloop : 0 < cfg.maxOutstanding) (hN : 2 ≤ N)
    (hbatch : cfg.maxOutstanding ≤ txBatch) (hspan : cfg.maxOutstanding ≤ idSpan N) :
    ∃ es s, (workers cfg N).machine.run (State.start N) es = some s ∧ State.Between s ∧
      s.shared.slots.occupancy = 0 ∧ s.shared.globalInFlight = cfg.maxOutstanding := by
  have hne : (⟨1, hN⟩ : Fin N) ≠ ⟨0, Nat.zero_lt_of_lt hN⟩ := by simp
  generalize (⟨1, hN⟩ : Fin N) = i₁ at hne
  generalize (⟨0, Nat.zero_lt_of_lt hN⟩ : Fin N) = i₀ at hne
  have hnodup : (nextIds i₀ .new cfg.maxOutstanding).Nodup := nodup_nextIds i₀ .new hspan
  have hlen : (nextIds i₀ .new cfg.maxOutstanding).length = cfg.maxOutstanding := by simp [nextIds]
  -- one worker submits and registers its batch
  have hsubmit := run_submitting cfg i₀ (w := .new) (m := .new) hloop rfl rfl hloop hbatch
    (Nat.zero_add _).le
  generalize nextIds i₀ .new cfg.maxOutstanding = ids at hnodup hlen hsubmit
  have hinsert := Machine.run_trans _ hsubmit
    (run_inserts cfg i₀ .new rfl
      (show (ids.map fun _ => 0).length = ids.length from List.length_map _))
  -- another one receives all replies to it, and subtracts them from 0
  have hreceive := run_receiving cfg i₁ (w := .new) (m := { Shared.new with slots := registered ids })
    hloop rfl rfl hnodup fun id hid => registered_of_mem hnodup hid
  -- and then the batch is added
  obtain ⟨w', m', hsettle, hpc, hslots, hgate, hup⟩ := run_settling i₀
    { UnifiedWorker.new with pc := .register [] cfg.maxOutstanding, idCtr := 0 + cfg.maxOutstanding }
    (received { Shared.new with slots := registered ids } ids) hloop rfl
  have hrun := (workers cfg N).run_interrupted (s := State.start N) hne hinsert hreceive hsettle
  refine ⟨_, _, hrun, ⟨?_, hup⟩, ?_, ?_⟩
  · refine (Function.forall_update_iff _ fun _ (w : UnifiedWorker) => w.pc = .loopHead).mpr
      ⟨hpc, fun j _ => ?_⟩
    by_cases hj : j = i₁
    · subst hj
      rw [Function.update_self]
      rfl
    · rw [Function.update_of_ne hj]
      rfl
  · rw [hslots, received, clearAll_registered, SlotTable.occupancy_empty]
  · rw [hgate, received, Shared.new, Nat.zero_sub, Nat.zero_add]

/-- For every number of closed-loop workers: between two iterations, with `shutdown` not stored, nothing is
ever sent again exactly when the counter exceeds the occupied slots by `max_outstanding` or more.  With two
workers or more there is an interleaving that leads there, `shutdown` still not stored, if the cap is no
larger than a batch and than a worker's share of the ids. -/
theorem gate_shut_for_good (cfg : Config) (N : ℕ) (hloop : 0 < cfg.maxOutstanding) (hN : 0 < N) :
    (∀ es (s : State N), (workers cfg N).machine.run (State.start N) es = some s → State.Between s →
      (State.Silent cfg s ↔
        cfg.maxOutstanding + s.shared.slots.occupancy ≤ s.shared.globalInFlight)) ∧
      (2 ≤ N → cfg.maxOutstanding ≤ txBatch → cfg.maxOutstanding ≤ idSpan N →
        ∃ es s, (workers cfg N).machine.run (State.start N) es = some s ∧ State.Between s ∧
          s.shared.slots.occupancy = 0 ∧ State.Silent cfg s) := by
  constructor
  · intro es s hrun hs
    have hstart : (State.start N).drift = 0 := by
      rw [drift_of_quiet fun _ => rfl]
      simp [State.start, Shared.new]
    have hdrift := (workers cfg N).machine.drift_le_run (I := fun _ => True) (d := State.drift)
      (fun _ _ _ _ _ => trivial) (fun _ _ _ _ h => State.drift_le hloop h) trivial hrun
    rw [hstart, hs.drift] at hdrift
    refine ⟨fun hsilent => ?_, hs.silent_of_le hloop⟩
    by_contra hlt
    exact hs.not_silent hloop hN (by omega) (by omega) hsilent
  · intro hN' hbatch hspan
    obtain ⟨es, s, hrun, hs, hempty, hgate⟩ := exists_shut hloop hN' hbatch hspan
    exact ⟨es, s, hrun, hs, hempty, hs.silent_of_le hloop (by omega)⟩

/-- Two workers and a cap of 16. -/
theorem gate_shut_for_good_sixteen :
    ∃ es s, (workers ⟨16, 3000000000, false⟩ 2).machine.run (State.start 2) es = some s ∧
      State.Between s ∧ s.shared.slots.occupancy = 0 ∧ State.Silent ⟨16, 3000000000, false⟩ s :=
  (gate_shut_for_good ⟨16, 3000000000, false⟩ 2 (by decide) (by decide)).2 (by decide) (by decide)
    (by decide)

end Dnsmark.Xdp
