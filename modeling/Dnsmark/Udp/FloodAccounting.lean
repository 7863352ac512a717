import Dnsmark.Engine.Shutdown
import Dnsmark.Udp.Throughput

/-!
# What the kernel-UDP flood path counts

The sender holds `local_sent` and the receiver `rc` until the next flush.  `run_udp_worker` runs the
sender on the blocking thread whose handle the engine awaits, and joins the receiver before it
returns, so the handle of a pair is ready exactly when both threads are done.
-/

namespace Dnsmark.Udp.Flood

open Dnsmark.Stats Dnsmark.Inflight Dnsmark.Engine

def TxPc.isDone : TxPc → Bool
  | .done => true
  | _ => false

def RxPc.isDone : RxPc → Bool
  | .done => true
  | _ => false

/-- A pair whose threads have both returned. -/
def Pair.isDone (p : Pair) : Bool := p.tx.pc.isDone && p.rx.pc.isDone

/-- A thread that is done has nothing left to flush. -/
def Pair.Valid (p : Pair) : Prop :=
  (p.tx.pc.isDone = true → p.tx.localSent = 0) ∧ (p.rx.pc.isDone = true → p.rx.rc.total = 0)

/-! ## The counters in one step -/

/-- A datagram counts as one reply, whatever is in it. -/
theorem total_bucket (buf : Datagram) : (bucket buf).total = 1 := by
  unfold bucket
  split
  · exact RcodeCounts.total_one _
  · rfl

/-- Matching a reply counts neither a send nor a completion. -/
theorem matchReply_counts (cfg : Config) (slots : SlotTable QueryId) (st : StatsCollector) (id : QueryId)
    (recvNs : ℕ) :
    (Rx.matchReply cfg slots st id recvNs).2.sent = st.sent ∧
      (Rx.matchReply cfg slots st id recvNs).2.completed = st.completed := by
  unfold Rx.matchReply report
  cases takeRtt .sharedInFlight slots id recvNs with
  | none => exact ⟨rfl, rfl⟩
  | some rttNs =>
    simp only [Option.elim_some]
    split <;> exact ⟨rfl, rfl⟩

/-- A datagram is counted in `rc` and nowhere else. -/
theorem datagram_counts (cfg : Config) (r : Rx) (slots : SlotTable QueryId) (m : Shared) (msg : Datagram)
    (recvNs : ℕ) :
    let q := r.datagram cfg slots m msg recvNs
    q.1.rc.total = r.rc.total + 1 ∧ q.1.answered = r.answered + 1 ∧
      q.2.2.stats.sent = m.stats.sent ∧ q.2.2.stats.completed = m.stats.completed := by
  unfold Rx.datagram
  simp only
  split
  · obtain ⟨hsent, hcompleted⟩ := matchReply_counts cfg slots m.stats ‹_› recvNs
    exact ⟨by simp [total_bucket], rfl, hsent, hcompleted⟩
  · exact ⟨by simp [total_bucket], rfl, rfl, rfl⟩

variable {cfg : Config} {slots slots' : SlotTable QueryId} {m m' : Shared}

/-- What a step of the sender does to the counters. -/
theorem tx_counts {t t' : Tx} {a : TxAct} (h : Tx.Stepped cfg t slots m a t' slots' m') :
    m'.stats.sent + t'.localSent + t.submitted = m.stats.sent + t.localSent + t'.submitted ∧
      m'.stats.completed = m.stats.completed ∧ (t'.pc.isDone = true → t'.localSent = 0) := by
  cases h with
  | checkShutdown pc' hpc hpc' =>
    refine ⟨rfl, rfl, ?_⟩
    rw [hpc']
    split <;> nofun
  | batch sendNs sent hpc hsent =>
    refine ⟨?_, rfl, nofun⟩
    simp only
    omega
  | notDue hpc | insert _ _ _ hpc | flush _ _ hpc | noFlush _ _ hpc => exact ⟨rfl, rfl, nofun⟩
  | exit nowNs hpc =>
    -- nothing is added when nothing is pending
    by_cases hpos : 0 < t.localSent
    · simp [hpos, StatsCollector.incSentN]
    · have hzero : t.localSent = 0 := by omega
      simp [hzero]

/-- What a step of the receiver does to the counters. -/
theorem rx_counts {r r' : Rx} {a : RxAct} (h : Rx.Stepped cfg r slots m a r' slots' m') :
    m'.stats.completed + r'.rc.total + r.answered = m.stats.completed + r.rc.total + r'.answered ∧
      m'.stats.sent = m.stats.sent ∧ (r'.pc.isDone = true → r'.rc.total = 0) := by
  cases h with
  | checkShutdown pc' hpc hpc' =>
    refine ⟨rfl, rfl, ?_⟩
    rw [hpc']
    split <;> nofun
  | startSweep _ hpc | noSweep hpc | sweepStep _ _ _ hpc | endSweep _ hpc | noDatagrams hpc
  | datagrams hpc | noFlush hpc =>
    exact ⟨rfl, rfl, nofun⟩
  | countTimeouts expired hpc => exact ⟨by simp, by simp, nofun⟩
  | datagram msg recvNs hpc =>
    obtain ⟨htotal, hanswered, hsent, hcompleted⟩ := datagram_counts cfg r slots m msg recvNs
    refine ⟨?_, hsent, ?_⟩
    · rw [htotal, hanswered, hcompleted]
      omega
    · rw [Rx.datagram_pc, hpc]
      nofun
  | flush hpc => exact ⟨by simp, by simp, nofun⟩
  | exit hpc =>
    by_cases hpos : 0 < r.rc.total
    · simp [hpos]
    · have hzero : r.rc.total = 0 := by omega
      simp [hzero]

/-! ## The datapath -/

/-- Both counters of a pair in one step, and that a pair stays valid. -/
theorem pair_counts {p p' : Pair} {a : Act} (h : p.step cfg m a = some (p', m')) (hp : p.Valid) :
    m'.stats.sent + p'.tx.localSent + p.tx.submitted = m.stats.sent + p.tx.localSent + p'.tx.submitted ∧
      m'.stats.completed + p'.rx.rc.total + p.rx.answered
        = m.stats.completed + p.rx.rc.total + p'.rx.answered ∧ p'.Valid := by
  rcases Pair.step_cases h with ⟨b, t', slots', rfl, hst, rfl⟩ | ⟨b, r', slots', rfl, hst, rfl⟩
  · obtain ⟨hsent, hcompleted, hdone⟩ := tx_counts hst
    exact ⟨hsent, by rw [hcompleted], hdone, hp.2⟩
  · obtain ⟨hcompleted, hsent, hdone⟩ := rx_counts hst
    exact ⟨by rw [hsent], hcompleted, hp.1, hdone⟩

/-- The flood path as the engine sees it: it awaits every pair. -/
def datapath (cfg : Config) (N : ℕ) : Datapath (Fin N) Pair Shared Act where
  workers := workers cfg N
  stats m := m.stats
  ramp := cfg.trackLatency
  handleReady := Pair.isDone
  finished := Pair.isDone
  Valid := Pair.Valid
  sent := ⟨fun p => p.tx.localSent, fun p => p.tx.submitted, fun hp h => (pair_counts h hp).1⟩
  completed := ⟨fun p => p.rx.rc.total, fun p => p.rx.answered, fun hp h => (pair_counts h hp).2.1⟩
  valid_step hp h := (pair_counts h hp).2.2
  flushed := by
    intro p hp hdone
    obtain ⟨htx, hrx⟩ := Bool.and_eq_true_iff.mp hdone
    exact ⟨hp.1 htx, hp.2 hrx⟩
  env_stats := by
    intro _ _ _ _ h
    obtain rfl := Option.some.inj h
    rfl

theorem fresh_start {N : ℕ} (ids : Fin N → QueryId) : (datapath cfg N).Fresh (State.start ids) where
  sent := rfl
  completed := rfl
  clean _ := ⟨rfl, rfl⟩
  valid _ := ⟨nofun, nofun⟩

end Dnsmark.Udp.Flood
