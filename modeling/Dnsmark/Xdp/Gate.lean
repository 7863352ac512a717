import Dnsmark.Xdp.UnifiedWorker

/-!
# The shared gate

`global_in_flight` is meant to be the number of occupied slots of the in-flight table; the source
says it "MUST be accurate".  It is adjusted in batches, after the slots changed, so at any moment
some workers owe it an adjustment: `Pc.owed` is what a worker still has to add, less what it still
has to subtract. The counter, plus what is owed, less the occupied slots is the *drift* of the gate.

Two steps let it grow and none brings it back: an `insert` over an occupied slot, which is counted
though no slot is gained, and a `saturating_sub` that finds less than it wants to subtract — as when
a reply is matched and subtracted before the worker that sent the query has added it.  In a state
where nothing is owed the counter is therefore exact if and only if neither ever happened.
-/

namespace Dnsmark.Xdp

open Dnsmark.Inflight Dnsmark.Engine

/-- What a worker has still to add to `global_in_flight` (negative: to subtract). -/
def Pc.owed : Pc → ℤ
  | .register ids enq => enq - ids.length
  | .matching completed => -completed
  | .sweep sc => -sc.n
  | .timeouts expired => -expired
  | .releaseExpired expired => -expired
  | _ => 0

/-- Some step of a TX, RX or sweep group is pending. -/
def Pc.inBatch : Pc → Bool
  | .register _ _ => true
  | .matching _ => true
  | .sweep _ => true
  | .timeouts _ => true
  | .releaseExpired _ => true
  | .drain _ => true
  | _ => false

/-- No worker is inside a batch. -/
def State.Quiet {N : ℕ} (s : State N) : Prop := ∀ i, (s.threads i).pc.inBatch = false

theorem Pc.owed_of_not_inBatch {pc : Pc} (h : pc.inBatch = false) : pc.owed = 0 := by
  cases pc <;> first | rfl | cases h

namespace UnifiedWorker

/-- The step loses no adjustment: an insert finds its slot empty, a subtraction finds what it
subtracts, and the end-of-run drain, which does not touch the counter, finds an empty slot. -/
def LosesNothing (w : UnifiedWorker) (m : Shared) (a : Act) : Prop :=
  match w.pc, a with
  | .register (id :: _) _, .insert _ => m.slots id = 0
  | .matching completed, .endReplies => completed ≤ m.globalInFlight
  | .releaseExpired expired, .releaseExpired => expired ≤ m.globalInFlight
  | .drain d, .drainStep => ∀ id : QueryId, id.val = d.index → m.slots id = 0
  | _, _ => True

/-- By how much a step of a worker lets the drift grow. -/
def growth (w w' : UnifiedWorker) (m m' : Shared) : ℤ :=
  Threads.growth (fun m : Shared => (m.globalInFlight : ℤ) - m.slots.occupancy)
    (fun w : UnifiedWorker => w.pc.owed) w w' m m'

variable {cfg : Config} {N : ℕ} {i : Fin N} {w w' : UnifiedWorker} {m m' : Shared} {a : Act}

/-- In closed loop no step lets the drift shrink, and exactly the steps that lose an adjustment let
it grow. -/
theorem growth_step (hloop : cfg.firehose = false) (h : Stepped cfg N i w m a w' m') :
    0 ≤ growth w w' m m' ∧ (growth w w' m m' = 0 ↔ w.LosesNothing m a) := by
  cases h with
  | goOn hpc | replies hpc | noReplies hpc | startSweep _ hpc | noSweep hpc | flushSent _ hpc
  | flushRcodes hpc =>
    exact Threads.growth_silent rfl (by simp [Pc.owed, hpc, Scan.start]) (by simp [LosesNothing, hpc])
  | leave pc' hpc _ hpc' =>
    refine Threads.growth_silent rfl ?_ (by simp [LosesNothing, hpc])
    rw [hpc, hpc']
    split <;> rfl
  | gate _ pc' hpc _ hpc' =>
    refine Threads.growth_silent rfl ?_ (by simp [LosesNothing, hpc])
    rcases hpc' with rfl | rfl <;> rw [hpc] <;> rfl
  | transmit room pool enq hpc hpos henq =>
    refine Threads.growth_silent rfl ?_ (by simp [LosesNothing, hpc])
    -- every id of the batch is still to be inserted
    have hlen : enq ≤ room ∧ enq ≤ pool := by omega
    simp [Pc.owed, hpc, Config.registered, hloop, hlen]
  | transmitNone _ _ hpc =>
    exact Threads.growth_silent rfl (by simp [Pc.owed, hpc]) (by simp [LosesNothing, hpc])
  | insert id ids enq nowNs hpc =>
    have hstamp : max nowNs 1 ≠ 0 := by omega
    simp only [growth, Threads.growth, LosesNothing, hpc, Pc.owed, List.length_cons, Nat.cast_add, Nat.cast_one,
      Inflight.insert]
    by_cases hid : m.slots id = 0
    · have hgain := SlotTable.occupancy_store_of_empty hstamp hid
      omega
    · have hsame := SlotTable.occupancy_store_of_occupied hstamp hid
      omega
  | addInFlight enq hpc =>
    simp only [growth, Threads.growth, LosesNothing, hpc, Pc.owed, List.length_nil, Nat.cast_add, Nat.cast_zero,
      iff_true]
    omega
  | addNothing _ _ hfire => exact absurd (hloop.symm.trans hfire) (by decide)
  | countSent enq nowNs hpc =>
    unfold UnifiedWorker.countSent
    simp only
    split <;> exact Threads.growth_silent rfl (by simp [Pc.owed, hpc]) (by simp [LosesNothing, hpc])
  | reply completed id rcode nowNs hpc =>
    by_cases hid : m.slots id = 0
    · rw [reply_of_empty hloop w hid]
      exact Threads.growth_silent rfl (by rw [hpc]) (by simp [LosesNothing, hpc])
    · have hocc := SlotTable.occupancy_clear hid
      rw [reply_of_occupied hloop w hid]
      simp only [growth, Threads.growth, LosesNothing, hpc, Pc.owed, iff_true]
      omega
  | endReplies completed hpc =>
    simp only [growth, Threads.growth, LosesNothing, hpc, Pc.owed, UnifiedWorker.endReplies, hloop,
      Bool.false_eq_true, if_false]
    omega
  | sweepStep sc sc' freed hpc hsc =>
    obtain ⟨-, ⟨rfl, hn⟩ | ⟨id, rfl, hn, hid, -⟩⟩ := Scan.step_cases hsc
    · exact Threads.growth_silent rfl (by simp [Pc.owed, hpc, hn]) (by simp [LosesNothing, hpc])
    · have hocc := SlotTable.occupancy_clear hid
      simp only [growth, Threads.growth, LosesNothing, hpc, Pc.owed, hn, free_some, iff_true]
      omega
  | endSweep sc pc' hpc hpc' =>
    refine Threads.growth_silent rfl ?_ (by simp [LosesNothing, hpc])
    rcases hpc' with ⟨-, rfl⟩ | ⟨hn, rfl⟩
    · rw [hpc]
      rfl
    · simp [Pc.owed, hpc, hn]
  | countTimeouts expired pc' hpc hpc' =>
    refine Threads.growth_silent rfl ?_ (by simp [LosesNothing, hpc])
    rw [hpc, hpc', hloop]
    rfl
  | releaseExpired expired hpc =>
    simp only [growth, Threads.growth, LosesNothing, hpc, Pc.owed]
    omega
  | drainStep d d' freed hpc hd =>
    obtain ⟨rfl, -, hempty⟩ | ⟨id, rfl, -, hidx, hid⟩ := Drain.step_cases hd
    · exact Threads.growth_silent rfl (by simp [Pc.owed, hpc]) (by simpa [LosesNothing, hpc] using hempty)
    · have hocc := SlotTable.occupancy_clear hid
      have hloses : ¬ w.LosesNothing m .drainStep := by
        simp only [LosesNothing, hpc]
        exact fun hall => hid (hall id hidx)
      simp only [growth, Threads.growth, hpc, Pc.owed, free_some, hloses, iff_false]
      omega
  | endDrain d hpc hd =>
    have hend := Drain.step_eq_none hd
    refine Threads.growth_silent rfl (by simp [Pc.owed, hpc]) ?_
    simp only [LosesNothing, hpc]
    intro id hid
    omega

end UnifiedWorker

/-! ## Over whole interleavings -/

/-- Neither a shutdown nor a reset touches the table or the counter. -/
theorem engine_gate (m : Shared) (k : EngineAct) {m' : Shared} (h : some (m.engine k) = some m') :
    (m'.globalInFlight : ℤ) - m'.slots.occupancy = m.globalInFlight - m.slots.occupancy := by
  obtain rfl := Option.some.inj h
  rfl

section Run

variable {cfg : Config} {N : ℕ}

/-- The counter, plus what the workers owe it, less the occupied slots. -/
def State.drift (s : State N) : ℤ :=
  Threads.total (fun m => (m.globalInFlight : ℤ) - m.slots.occupancy) (fun w => w.pc.owed) s

/-- The step loses no adjustment of the counter; the engine never touches it. -/
def KeepsGate (s : State N) : Threads.Event (Fin N) Act EngineAct → Prop
  | .thread i a => (s.threads i).LosesNothing s.shared a
  | .env _ => True

/-- In a quiet state nothing is owed. -/
theorem drift_of_quiet {s : State N} (hq : s.Quiet) :
    s.drift = s.shared.globalInFlight - s.shared.slots.occupancy := by
  have howed : ∑ i, (s.threads i).pc.owed = 0 :=
    Finset.sum_eq_zero fun i _ => Pc.owed_of_not_inBatch (hq i)
  unfold State.drift Threads.total
  rw [howed, add_zero]

/-- For every number of closed-loop workers and every interleaving, in every state where no worker
is inside a batch: the shared counter is the number of occupied slots if and only if no step on the
way lost an adjustment. -/
theorem shared_gate_exact_iff (cfg : Config) (N : ℕ) (hloop : 0 < cfg.maxOutstanding)
    (es : List (Threads.Event (Fin N) Act EngineAct)) (s : State N)
    (hrun : (workers cfg N).machine.run (State.start N) es = some s) (hq : s.Quiet) :
    s.shared.globalInFlight = s.shared.slots.occupancy ↔
      (workers cfg N).machine.Meets KeepsGate (State.start N) es := by
  have hfire := Config.firehose_eq_false hloop
  have hstart : (State.start N).drift = 0 := by
    rw [drift_of_quiet fun _ => rfl]
    simp [State.start, Shared.new]
  obtain ⟨-, hmeets⟩ := (workers cfg N).total_run (C := KeepsGate)
    (fun _ _ _ _ _ _ h => UnifiedWorker.growth_step hfire (UnifiedWorker.step_cases h))
    (fun _ m k _ hk => engine_gate m k hk) (fun _ _ _ => Iff.rfl) (fun _ _ => trivial) hrun
  rw [← hmeets]
  change _ ↔ s.drift = (State.start N).drift
  rw [hstart, drift_of_quiet hq]
  omega

/-- One iteration of worker 0 that sends one query. -/
def sendOne : List (Threads.Event (Fin 2) Act EngineAct) :=
  [.thread 0 .checkShutdown, .thread 0 (.gate 1), .thread 0 (.transmit 1 1), .thread 0 (.insert 5),
    .thread 0 .addInFlight, .thread 0 (.countSent 6), .thread 0 .noReplies, .thread 0 .noSweep]

/-- Sending one query loses nothing, and the counter is exact after it. -/
theorem shared_gate_exact_sendOne :
    ∃ s : State 2, (workers ⟨1, 3000000000, false⟩ 2).machine.run (State.start 2) sendOne = some s ∧
      s.Quiet ∧ s.shared.globalInFlight = s.shared.slots.occupancy := by
  refine ⟨_, rfl, Fin.forall_fin_two.mpr ⟨rfl, rfl⟩, ?_⟩
  refine (shared_gate_exact_iff ⟨1, 3000000000, false⟩ 2 (by decide) sendOne _ rfl
    (Fin.forall_fin_two.mpr ⟨rfl, rfl⟩)).mpr ?_
  exact Machine.meets_cons _ rfl trivial <| Machine.meets_cons _ rfl trivial <|
    Machine.meets_cons _ rfl trivial <| Machine.meets_cons _ rfl rfl <|
    Machine.meets_cons _ rfl trivial <| Machine.meets_cons _ rfl trivial <|
    Machine.meets_cons _ rfl trivial <| Machine.meets_cons _ rfl trivial trivial

/-- Worker 0 has kicked and inserted id 0 but not added it yet; worker 1 matches the reply and
subtracts it; then worker 0 adds it. -/
def replyBeforeAdd : List (Threads.Event (Fin 2) Act EngineAct) :=
  [.thread 0 .checkShutdown, .thread 0 (.gate 1), .thread 0 (.transmit 1 1), .thread 0 (.insert 5),
    .thread 1 .checkShutdown, .thread 1 (.gate 0), .thread 1 .replies, .thread 1 (.reply 0 0 9),
    .thread 1 .endReplies, .thread 1 .noSweep,
    .thread 0 .addInFlight, .thread 0 (.countSent 10), .thread 0 .noReplies, .thread 0 .noSweep]

/-- The second half of that run, from the point where worker 1 is about to match the reply. -/
theorem replyBeforeAdd_tail (t : SlotTable QueryId) (ht : t 0 ≠ 0) :
    ∃ s : State 2, (workers ⟨1, 3000000000, false⟩ 2).machine.run
        ⟨![{ UnifiedWorker.new with pc := .register [] 1, idCtr := 1 },
          { UnifiedWorker.new with pc := .matching 0 }], ⟨t, 0, .new, false⟩⟩
        (replyBeforeAdd.drop 7) = some s ∧
      (∀ i, (s.threads i).pc = .loopHead) ∧ s.shared.slots = t.clear 0 ∧
      s.shared.globalInFlight = 1 := by
  have hreply : (workers ⟨1, 3000000000, false⟩ 2).step 1
      { UnifiedWorker.new with pc := .matching 0 } ⟨t, 0, .new, false⟩ (.reply 0 0 9) = some _ :=
    congrArg some (UnifiedWorker.reply_of_occupied rfl
      { UnifiedWorker.new with pc := .matching 0 } ht 0 0 9)
  refine ⟨_, (Machine.run_cons_eq_some _).mpr ⟨_, Threads.machine_step_thread _ hreply, rfl⟩, ?_, rfl,
    rfl⟩
  exact Fin.forall_fin_two.mpr ⟨rfl, rfl⟩

/-- With `max_outstanding = 1` this run ends with an empty table, both workers at the head of their
loop, and the gate shut for good. -/
theorem shared_gate_not_exact :
    ∃ s : State 2, (workers ⟨1, 3000000000, false⟩ 2).machine.run (State.start 2) replyBeforeAdd
        = some s ∧
      (∀ i, (s.threads i).pc = .loopHead) ∧ s.Quiet ∧
      s.shared.slots.occupancy = 0 ∧ s.shared.globalInFlight = 1 := by
  obtain ⟨th, h0, h1, hbefore⟩ : ∃ th, th 0 = { UnifiedWorker.new with pc := .register [] 1, idCtr := 1 } ∧
      th 1 = { UnifiedWorker.new with pc := .matching 0 } ∧
      (workers ⟨1, 3000000000, false⟩ 2).machine.run (State.start 2) (replyBeforeAdd.take 7)
        = some ⟨th, ⟨Inflight.insert .empty (idAt 2 0 0) 5, 0, .new, false⟩⟩ := ⟨_, rfl, rfl, rfl⟩
  obtain rfl : th = ![_, _] := funext (Fin.forall_fin_two.mpr ⟨h0, h1⟩)
  obtain ⟨s, hafter, hpc, hslots, hglobal⟩ :=
    replyBeforeAdd_tail (Inflight.insert .empty (idAt 2 0 0) 5) (by decide)
  refine ⟨s, Machine.run_trans _ hbefore hafter, hpc, fun i => by rw [hpc]; rfl, ?_, hglobal⟩
  rw [hslots, show idAt 2 0 0 = 0 by decide, Inflight.insert,
    SlotTable.clear_store_of_empty .empty _ (SlotTable.empty_apply _), SlotTable.occupancy_empty]

end Run

/-! ## How far the gate can be overshot

A worker reads `global_in_flight`, decides how many frames to send and adds them after the kick.
Until then they are reserved: other workers do not see them yet. -/

/-- The frames a worker may still add to `global_in_flight`. -/
def Pc.reserved : Pc → ℕ
  | .transmit headroom => headroom
  | .register _ enq => enq
  | _ => 0

/-- The gate grants no more than the rate limiter does. -/
theorem UnifiedWorker.headroom_le_grant (cfg : Config) (grant globalInFlight : ℕ) :
    headroom cfg grant globalInFlight ≤ grant := by
  unfold headroom
  split
  · exact min_le_left _ _
  · exact le_rfl

/-- The gate grants nothing, or no more than `max_outstanding` leaves. -/
theorem UnifiedWorker.headroom_cases {cfg : Config} (hloop : 0 < cfg.maxOutstanding)
    (grant globalInFlight : ℕ) :
    headroom cfg grant globalInFlight = 0 ∨
      globalInFlight + headroom cfg grant globalInFlight ≤ cfg.maxOutstanding := by
  unfold headroom
  rw [if_pos hloop]
  omega

/-- A step behind which nothing is reserved, and that adds nothing to the counter. -/
theorem UnifiedWorker.reserved_of_none {cfg : Config} {w w' : UnifiedWorker} {m m' : Shared}
    (hnone : w'.pc.reserved = 0) (hle : m'.globalInFlight ≤ m.globalInFlight) :
    w'.pc.reserved ≤ txBatch ∧
      (m'.globalInFlight + w'.pc.reserved ≤ m.globalInFlight + w.pc.reserved ∨
        m'.globalInFlight + w'.pc.reserved ≤ cfg.maxOutstanding) := by
  rw [hnone]
  exact ⟨Nat.zero_le _, .inl (Nat.add_le_add hle (Nat.zero_le _))⟩

/-- A step of a worker reserves a batch at most; it moves its reservation into the counter or gives
it up, or reserves what `max_outstanding` leaves. -/
theorem UnifiedWorker.reserved_step {cfg : Config} {N : ℕ} {i : Fin N} {w w' : UnifiedWorker}
    {m m' : Shared} {a : Act} (hloop : 0 < cfg.maxOutstanding) (hb : w.pc.reserved ≤ txBatch)
    (h : Stepped cfg N i w m a w' m') :
    w'.pc.reserved ≤ txBatch ∧
      (m'.globalInFlight + w'.pc.reserved ≤ m.globalInFlight + w.pc.reserved ∨
        m'.globalInFlight + w'.pc.reserved ≤ cfg.maxOutstanding) := by
  cases h with
  | goOn | replies | noReplies | startSweep | noSweep | sweepStep | drainStep | endDrain | flushSent
  | flushRcodes | transmitNone => exact reserved_of_none rfl (Nat.le_refl _)
  | leave pc' hpc _ hpc' =>
    refine reserved_of_none ?_ (Nat.le_refl _)
    rw [hpc']
    split <;> rfl
  | gate grant pc' hpc hgrant hpc' =>
    rcases hpc' with rfl | rfl
    · exact reserved_of_none rfl (Nat.le_refl _)
    · have hle := headroom_le_grant cfg grant m.globalInFlight
      refine ⟨hle.trans hgrant, ?_⟩
      rcases headroom_cases hloop grant m.globalInFlight with hzero | hcap
      · left
        simp only [Pc.reserved, hzero]
        omega
      · exact .inr hcap
  | transmit room pool enq hpc hpos henq =>
    simp only [hpc, Pc.reserved] at hb ⊢
    omega
  | insert id ids enq nowNs hpc =>
    simp only [hpc, Pc.reserved] at hb ⊢
    omega
  | addInFlight enq hpc | addNothing enq hpc =>
    simp only [hpc, Pc.reserved] at hb ⊢
    omega
  | countSent enq nowNs hpc =>
    refine reserved_of_none ?_ (countSent_globalInFlight w m enq nowNs).le
    rw [countSent_pc]
    rfl
  | reply completed id rcode nowNs hpc =>
    obtain ⟨_, hpc'⟩ := reply_pc cfg hpc m id rcode nowNs
    refine reserved_of_none ?_ (reply_globalInFlight cfg w m completed id rcode nowNs).le
    rw [hpc']
    rfl
  | endReplies completed hpc =>
    refine reserved_of_none ?_ (endReplies_globalInFlight_le cfg w m completed)
    rw [endReplies_pc]
    rfl
  | endSweep sc pc' hpc hpc' =>
    rcases hpc' with ⟨-, rfl⟩ | ⟨-, rfl⟩ <;> exact reserved_of_none rfl (Nat.le_refl _)
  | countTimeouts expired pc' hpc hpc' =>
    refine reserved_of_none ?_ (Nat.le_refl _)
    rw [hpc']
    split <;> rfl
  | releaseExpired expired hpc => exact reserved_of_none rfl (Nat.sub_le _ _)

/-- For every number of workers and every interleaving, `global_in_flight` exceeds
`max_outstanding` by at most one batch of every worker but one. -/
theorem globalInFlight_overshoot_le (cfg : Config) (N : ℕ) (hloop : 0 < cfg.maxOutstanding)
    (es : List (Threads.Event (Fin N) Act EngineAct)) (s : State N)
    (hrun : (workers cfg N).machine.run (State.start N) es = some s) :
    s.shared.globalInFlight ≤ cfg.maxOutstanding + (N - 1) * txBatch := by
  have hreserved : Threads.Reserved Shared.globalInFlight (fun w => w.pc.reserved) cfg.maxOutstanding
      txBatch s := by
    refine (workers cfg N).machine.run_invariant ((workers cfg N).reserved_step ?_ ?_) ?_ hrun
    · intro i w m a w' m' hb hstep
      exact UnifiedWorker.reserved_step hloop hb (UnifiedWorker.step_cases hstep)
    · intro _ m k m' hk
      obtain rfl := Option.some.inj hk
      rfl
    · exact ⟨fun _ => Nat.zero_le _, by simp [State.start, Shared.new, UnifiedWorker.new, Pc.reserved]⟩
  have hsum := hreserved.sum
  rw [Fintype.card_fin] at hsum
  omega

/-- Two workers pass the gate before either adds its batch. -/
def bothPass : List (Threads.Event (Fin 2) Act EngineAct) :=
  [.thread 0 .checkShutdown, .thread 0 (.gate 64), .thread 1 .checkShutdown, .thread 1 (.gate 64),
    .thread 0 (.transmit 64 64), .thread 1 (.transmit 64 64)] ++
  List.replicate 64 (.thread 0 (.insert 5)) ++ List.replicate 64 (.thread 1 (.insert 5)) ++
  [.thread 0 .addInFlight, .thread 1 .addInFlight]

theorem bothPass_globalInFlight :
    ((workers ⟨64, 3000000000, false⟩ 2).machine.run (State.start 2) bothPass).map
      (fun s => s.shared.globalInFlight) = some 128 := by
  decide +kernel

/-- With `max_outstanding = 64` two workers reach the bound. -/
theorem globalInFlight_overshoot_bothPass :
    ∃ s : State 2, (workers ⟨64, 3000000000, false⟩ 2).machine.run (State.start 2) bothPass = some s ∧
      s.shared.globalInFlight = 64 + (2 - 1) * txBatch ∧
      s.shared.globalInFlight ≤ 64 + (2 - 1) * txBatch := by
  obtain ⟨s, hrun, hreach⟩ := Option.map_eq_some_iff.mp bothPass_globalInFlight
  exact ⟨s, hrun, hreach,
    globalInFlight_overshoot_le ⟨64, 3000000000, false⟩ 2 (by decide) bothPass s hrun⟩

end Dnsmark.Xdp
