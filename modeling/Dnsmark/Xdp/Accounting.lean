import Dnsmark.Engine.Shutdown
import Dnsmark.Xdp.UnifiedWorker

/-!
# What the unified workers count

A worker holds up to `FLUSH_N` sends in `sub_acc` and, in firehose mode, up to `RC_FLUSH` replies in
the `rc_*` locals, and flushes both after its loop.  The thread that runs it is spawned when the
receive path is set up and its join handle is dropped; the task the engine awaits in its place,
`run_xdp_sender_worker`, returns at once when the workers are unified.  So a handle is always ready,
whatever the worker is doing.
-/

namespace Dnsmark.Xdp

open Dnsmark.Stats Dnsmark.Inflight Dnsmark.Engine

def Pc.isDone : Pc → Bool
  | .done => true
  | _ => false

/-- The final flush of `sub_acc` is over. -/
def Pc.sentFlushed : Pc → Bool
  | .flushRcodes => true
  | .done => true
  | _ => false

namespace UnifiedWorker

/-- What is flushed for the last time stays empty, and `rc_acc` is the number of replies in `rc_*`.
-/
def Valid (w : UnifiedWorker) : Prop :=
  (w.pc.sentFlushed = true → w.subAcc = 0) ∧ (w.pc.isDone = true → w.rc.total = 0) ∧
    w.rcAcc = w.rc.total

variable {cfg : Config} {N : ℕ} {i : Fin N} {w w' : UnifiedWorker} {m m' : Shared} {a : Act}

/-- A reply is counted in `rc` in firehose mode, and in the collector when it is matched in closed
loop. -/
theorem reply_counts (cfg : Config) (w : UnifiedWorker) (m : Shared) (completed : ℕ) (id : QueryId)
    (rcode nowNs : ℕ) :
    let q := w.reply cfg m completed id rcode nowNs
    q.2.stats.sent = m.stats.sent ∧
      q.2.stats.completed + q.1.rc.total + w.answered = m.stats.completed + w.rc.total + q.1.answered ∧
      (q.1.subAcc = w.subAcc ∧ q.1.localSubmitted = w.localSubmitted) ∧
      (w.rcAcc = w.rc.total → q.1.rcAcc = q.1.rc.total) := by
  have hone : (w.rc.add (.one rcode)).total = w.rc.total + 1 := by
    rw [RcodeCounts.total_add, RcodeCounts.total_one]
  have hfire : m.stats.completed + (w.rc.add (.one rcode)).total + w.answered
      = m.stats.completed + w.rc.total + (w.answered + 1) := by omega
  have hacc : w.rcAcc = w.rc.total → w.rcAcc + 1 = (w.rc.add (.one rcode)).total := by omega
  unfold reply
  simp only
  split
  · -- firehose: counted in any case, and perhaps a latency sample
    split
    · cases takeRtt .inFlight m.slots id nowNs with
      | none => exact ⟨rfl, hfire, ⟨rfl, rfl⟩, hacc⟩
      | some rttUs => exact ⟨rfl, hfire, ⟨rfl, rfl⟩, hacc⟩
    · exact ⟨rfl, hfire, ⟨rfl, rfl⟩, hacc⟩
  · cases takeRtt .inFlight m.slots id nowNs with
    | none => exact ⟨rfl, rfl, ⟨rfl, rfl⟩, fun h => h⟩
    | some rttUs =>
      refine ⟨rfl, ?_, ⟨rfl, rfl⟩, fun h => h⟩
      simp only [Option.elim_some, StatsCollector.recordResponse, Option.isSome_some, if_true]
      omega

/-- Both counters of a worker in one step. -/
theorem step_counts (hw : w.Valid) (h : Stepped cfg N i w m a w' m') :
    m'.stats.sent + w'.subAcc + w.localSubmitted = m.stats.sent + w.subAcc + w'.localSubmitted ∧
      m'.stats.completed + w'.rc.total + w.answered = m.stats.completed + w.rc.total + w'.answered := by
  cases h with
  | goOn hpc | leave _ hpc | gate _ _ hpc | transmit _ _ _ hpc | transmitNone _ _ hpc | insert _ _ _ _ hpc
  | addInFlight _ hpc | addNothing _ hpc | replies hpc | noReplies hpc | startSweep _ hpc | noSweep hpc
  | sweepStep _ _ _ hpc | endSweep _ _ hpc | releaseExpired _ hpc | drainStep _ _ _ hpc =>
    exact ⟨rfl, rfl⟩
  | countTimeouts _ _ hpc | endDrain _ hpc => simp
  | countSent enq nowNs hpc =>
    unfold UnifiedWorker.countSent
    simp only
    split
    · refine ⟨?_, rfl⟩
      simp only [StatsCollector.incSentN]
      omega
    · refine ⟨?_, rfl⟩
      simp only
      omega
  | reply completed id rcode nowNs hpc =>
    obtain ⟨hsent, hcompleted, hlocal, -⟩ := reply_counts cfg w m completed id rcode nowNs
    rw [hsent, hlocal.1, hlocal.2]
    exact ⟨rfl, hcompleted⟩
  | endReplies completed hpc =>
    unfold UnifiedWorker.endReplies
    simp only
    split
    · split <;> simp
    · simp
  | flushSent nowNs hpc =>
    by_cases hpos : 0 < w.subAcc
    · simp [hpos, StatsCollector.incSentN]
    · have hzero : w.subAcc = 0 := by omega
      simp [hzero]
  | flushRcodes hpc =>
    have hacc : w.rcAcc = w.rc.total := hw.2.2
    by_cases hpos : 0 < w.rcAcc
    · simp [hpos]
    · have hzero : w.rc.total = 0 := by omega
      simp [hpos, hzero]

/-- Before its final flushes a worker has only its reply count to keep right. -/
theorem valid_of_running (hpc : w'.pc.sentFlushed = false) (hacc : w'.rcAcc = w'.rc.total) :
    w'.Valid := by
  refine ⟨fun h => absurd (hpc.symm.trans h) nofun, fun h => ?_, hacc⟩
  cases hdone : w'.pc with
  | done =>
    rw [hdone] at hpc
    cases hpc
  | _ =>
    rw [hdone] at h
    cases h

theorem valid_step (hw : w.Valid) (h : Stepped cfg N i w m a w' m') : w'.Valid := by
  have hacc := hw.2.2
  cases h with
  | goOn hpc | transmit _ _ _ hpc | transmitNone _ _ hpc | insert _ _ _ _ hpc | addInFlight _ hpc
  | addNothing _ hpc | replies hpc | noReplies hpc | startSweep _ hpc | noSweep hpc | sweepStep _ _ _ hpc
  | releaseExpired _ hpc | drainStep _ _ _ hpc | endDrain _ hpc =>
    exact valid_of_running rfl hacc
  | leave pc' hpc _ hpc' =>
    refine valid_of_running ?_ hacc
    rw [hpc']
    split <;> rfl
  | gate _ pc' hpc _ hpc' =>
    rcases hpc' with rfl | rfl <;> exact valid_of_running rfl hacc
  | countSent enq nowNs hpc =>
    unfold UnifiedWorker.countSent
    simp only
    split <;> exact valid_of_running rfl hacc
  | reply completed id rcode nowNs hpc =>
    obtain ⟨-, -, -, hacc'⟩ := reply_counts cfg w m completed id rcode nowNs
    obtain ⟨_, hpc'⟩ := reply_pc cfg hpc m id rcode nowNs
    exact valid_of_running (by rw [hpc']; rfl) (hacc' hacc)
  | endReplies completed hpc =>
    unfold UnifiedWorker.endReplies
    simp only
    split
    · split
      · exact valid_of_running rfl rfl
      · exact valid_of_running rfl hacc
    · exact valid_of_running rfl hacc
  | endSweep _ pc' hpc hpc' =>
    rcases hpc' with ⟨-, rfl⟩ | ⟨-, rfl⟩ <;> exact valid_of_running rfl hacc
  | countTimeouts _ pc' hpc hpc' =>
    refine valid_of_running ?_ hacc
    rw [hpc']
    split <;> rfl
  | flushSent nowNs hpc => exact ⟨fun _ => rfl, nofun, hacc⟩
  | flushRcodes hpc => exact ⟨fun _ => hw.1 (by rw [hpc]; rfl), fun _ => rfl, rfl⟩

/-- A worker is done after `flushRcodes` and after nothing else; then it takes no step. -/
theorem isDone_step (h : Stepped cfg N i w m a w' m') :
    w.pc.isDone = false ∧ (w'.pc.isDone = true ↔ a = .flushRcodes) := by
  cases h with
  | leave pc' hpc _ hpc' | countTimeouts _ pc' hpc hpc' =>
    rw [hpc, hpc']
    refine ⟨rfl, iff_of_false ?_ nofun⟩
    split <;> nofun
  | gate _ pc' hpc _ hpc' =>
    rw [hpc]
    rcases hpc' with rfl | rfl <;> exact ⟨rfl, iff_of_false nofun nofun⟩
  | endSweep _ pc' hpc hpc' =>
    rw [hpc]
    rcases hpc' with ⟨-, rfl⟩ | ⟨-, rfl⟩ <;> exact ⟨rfl, iff_of_false nofun nofun⟩
  | countSent enq nowNs hpc =>
    rw [hpc, countSent_pc]
    exact ⟨rfl, iff_of_false nofun nofun⟩
  | reply completed id rcode nowNs hpc =>
    obtain ⟨_, hpc'⟩ := reply_pc cfg hpc m id rcode nowNs
    rw [hpc']
    exact ⟨by rw [hpc]; rfl, iff_of_false nofun nofun⟩
  | endReplies completed hpc =>
    rw [hpc, endReplies_pc]
    exact ⟨rfl, iff_of_false nofun nofun⟩
  | flushRcodes hpc =>
    rw [hpc]
    exact ⟨rfl, iff_of_true rfl rfl⟩
  | goOn hpc | transmit _ _ _ hpc | transmitNone _ _ hpc | insert _ _ _ _ hpc | addInFlight _ hpc
  | addNothing _ hpc | replies hpc | noReplies hpc | startSweep _ hpc | noSweep hpc | sweepStep _ _ _ hpc
  | releaseExpired _ hpc | drainStep _ _ _ hpc | endDrain _ hpc | flushSent _ hpc =>
    rw [hpc]
    exact ⟨rfl, iff_of_false nofun nofun⟩

end UnifiedWorker

/-! ## The datapath -/

/-- The AF_XDP path as the engine sees it: it awaits nothing. -/
def datapath (cfg : Config) (N : ℕ) : Datapath (Fin N) UnifiedWorker Shared Act where
  workers := workers cfg N
  stats m := m.stats
  ramp := cfg.trackLatency
  handleReady _ := true
  finished w := w.pc.isDone
  Valid := UnifiedWorker.Valid
  sent := ⟨fun w => w.subAcc, fun w => w.localSubmitted,
    fun hw h => (UnifiedWorker.step_counts hw (UnifiedWorker.step_cases h)).1⟩
  completed := ⟨fun w => w.rc.total, fun w => w.answered,
    fun hw h => (UnifiedWorker.step_counts hw (UnifiedWorker.step_cases h)).2⟩
  valid_step hw h := UnifiedWorker.valid_step hw (UnifiedWorker.step_cases h)
  flushed := by
    intro w hw hdone
    refine ⟨hw.1 ?_, hw.2.1 hdone⟩
    cases hpc : w.pc with
    | done => rfl
    | _ =>
      rw [hpc] at hdone
      cases hdone
  env_stats := by
    intro _ _ _ _ h
    obtain rfl := Option.some.inj h
    rfl

variable {cfg : Config} {N : ℕ}

theorem fresh_start : (datapath cfg N).Fresh (State.start N) where
  sent := rfl
  completed := rfl
  clean _ := ⟨rfl, rfl⟩
  valid _ := ⟨nofun, nofun, rfl⟩

/-- A worker has finished exactly when the run contains its last step. -/
theorem finished_iff_mem {es : List (Threads.Event (Fin N) Act EngineStep)}
    {s : Bench (Fin N) UnifiedWorker Shared}
    (hrun : (datapath cfg N).bench.run (Bench.start (State.start N)) es = some s) (i : Fin N) :
    (datapath cfg N).finished (s.state.threads i) = true ↔ .thread i .flushRcodes ∈ es := by
  have hiff := (datapath cfg N).bench.run_iff_mem
    (fun s => (datapath cfg N).finished (s.state.threads i) = true) (.thread i .flushRcodes)
    ?_ ?_ hrun
  · have hstart : ¬ (datapath cfg N).finished ((State.start N).threads i) = true := nofun
    exact hiff.trans (or_iff_right hstart)
  · intro s s' h
    rcases Datapath.step_cases h with ⟨j, a, w', m', ⟨⟩, hstep, rfl⟩ | ⟨_, _, ⟨⟩, -⟩ | ⟨_, _, -, hne, -⟩
    · simpa [datapath] using (UnifiedWorker.isDone_step (UnifiedWorker.step_cases hstep)).2.mpr rfl
    · exact absurd rfl (hne i .flushRcodes)
  · intro s e s' he h
    rcases Datapath.step_cases h with ⟨j, a, w', m', rfl, hstep, rfl⟩ | ⟨_, _, -, -, -, rfl⟩ |
      ⟨_, _, -, -, -, -, rfl⟩
    · by_cases hj : i = j
      · subst hj
        obtain ⟨hbefore, hafter⟩ := UnifiedWorker.isDone_step (UnifiedWorker.step_cases hstep)
        have ha : a ≠ .flushRcodes := fun ha => he (by rw [ha])
        refine iff_of_false ?_ ?_
        · simpa [datapath] using fun hdone => ha (hafter.mp hdone)
        · simpa [datapath] using hbefore
      · simp [Function.update_of_ne hj]
    · rfl
    · rfl

end Dnsmark.Xdp
