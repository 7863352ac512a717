import Dnsmark.Xdp.UnifiedWorker

/-!
# The loops inside an iteration

The inserts of a TX batch and the matching of received replies are loops of `xdp_unified_worker`.  Here are
their runs when nobody else moves in between: a batch of inserts is one `storeAll`, and replies to
different registered ids are one `clearAll` with a sample for each.
-/

namespace Dnsmark.Xdp

open Dnsmark.Inflight Dnsmark.Stats

section Worker

variable {cfg : Config} {N : ℕ} {i : Fin N} {w : UnifiedWorker} {m : Shared}

variable (cfg i m) in
/-- The inserts of a batch. -/
theorem run_inserts {ids : List QueryId} {enq : ℕ} (hpc : w.pc = .register ids enq) {stamps : List ℕ}
    (hlen : stamps.length = ids.length) :
    ((workers cfg N).alone i).run (w, m) (stamps.map Act.insert)
      = some ({ w with pc := .register [] enq },
          { m with slots := m.slots.storeAll (ids.zip (stamps.map (max · 1))) }) := by
  induction stamps generalizing ids w m with
  | nil =>
    obtain rfl := List.eq_nil_of_length_eq_zero hlen.symm
    rw [← hpc]
    rfl
  | cons now stamps ih =>
    obtain ⟨id, ids, rfl⟩ := List.exists_cons_of_length_eq_add_one hlen.symm
    refine (Machine.run_cons_eq_some _).mpr
      ⟨({ w with pc := .register ids enq }, { m with slots := insert m.slots id now }), ?_, ?_⟩
    · simp only [Threads.alone, workers, UnifiedWorker.step, hpc]
    · exact ih _ rfl (Nat.succ.inj hlen)

variable (i w m) in
/-- After the inserts the gate is raised and the sends are counted. -/
theorem run_added (hloop : cfg.firehose = false) {enq : ℕ} (hpc : w.pc = .register [] enq) (nowNs : ℕ) :
    ∃ w' m', ((workers cfg N).alone i).run (w, m) [.addInFlight, .countSent nowNs] = some (w', m') ∧
      w'.pc = .receive ∧ m'.slots = m.slots ∧ m'.globalInFlight = m.globalInFlight + enq ∧
      m'.stats.completed = m.stats.completed ∧ m'.stats.histogram = m.stats.histogram ∧
      m'.shutdown = m.shutdown := by
  let w₁ : UnifiedWorker := { w with pc := .countSent enq }
  let m₁ : Shared := { m with
    globalInFlight := m.globalInFlight + enq
    stats := m.stats.recordInflight (m.globalInFlight + enq) }
  have hadd : ((workers cfg N).alone i).step (w, m) .addInFlight = some (w₁, m₁) := by
    simp only [Threads.alone, workers, UnifiedWorker.step, hpc, hloop]
    rfl
  have hcount : ((workers cfg N).alone i).step (w₁, m₁) (.countSent nowNs)
      = some (w₁.countSent m₁ enq nowNs) := rfl
  refine ⟨(w₁.countSent m₁ enq nowNs).1, (w₁.countSent m₁ enq nowNs).2,
    (Machine.run_cons_eq_some _).mpr ⟨_, hadd, Machine.run_single _ hcount⟩,
    UnifiedWorker.countSent_pc .., ?_⟩
  rw [UnifiedWorker.countSent_globalInFlight]
  unfold UnifiedWorker.countSent
  simp only
  split <;> exact ⟨rfl, rfl, rfl, rfl, rfl⟩

/-- What is matched: the id, the response code and the time. -/
structure Matched where
  id : QueryId
  rcode : ℕ
  nowNs : ℕ

/-- The event of the worker's loop. -/
def Matched.act (r : Matched) : Act := .reply r.id r.rcode r.nowNs

/-- What the collector is told: the response code and the round trip in microseconds. -/
def Matched.sample (slots : SlotTable QueryId) (r : Matched) : ℕ × ℕ :=
  (r.rcode, Table.rtt .inFlight r.nowNs (slots r.id))

/-- The collector after some responses. -/
def recordAll (st : StatsCollector) (samples : List (ℕ × ℕ)) : StatsCollector :=
  samples.foldl (fun st p => st.recordResponse p.1 p.2) st

theorem recordAll_completed (st : StatsCollector) (samples : List (ℕ × ℕ)) :
    (recordAll st samples).completed = st.completed + samples.length := by
  induction samples generalizing st with
  | nil => rfl
  | cons p samples ih =>
    rw [recordAll, List.foldl_cons, ← recordAll, ih, StatsCollector.recordResponse_completed,
      List.length_cons, Nat.add_right_comm, Nat.add_assoc]

theorem recordAll_histogram (st : StatsCollector) (samples : List (ℕ × ℕ)) :
    (recordAll st samples).histogram = (samples.map fun p => max p.2 1).reverse ++ st.histogram := by
  induction samples generalizing st with
  | nil => rfl
  | cons p samples ih =>
    rw [recordAll, List.foldl_cons, ← recordAll, ih, List.map_cons, List.reverse_cons, List.append_assoc]
    rfl

/-- Replies to different ids that are registered are all matched. -/
theorem run_replies (hloop : cfg.firehose = false) {completed : ℕ} (hpc : w.pc = .matching completed)
    {rs : List Matched} (hnodup : (rs.map Matched.id).Nodup) (hslots : ∀ r ∈ rs, m.slots r.id ≠ 0) :
    ((workers cfg N).alone i).run (w, m) (rs.map Matched.act)
      = some ({ w with pc := .matching (completed + rs.length), answered := w.answered + rs.length },
          { m with
            slots := m.slots.clearAll (rs.map Matched.id)
            stats := recordAll m.stats (rs.map (Matched.sample m.slots)) }) := by
  induction rs generalizing w m completed with
  | nil =>
    rw [List.length_nil, Nat.add_zero, ← hpc]
    rfl
  | cons r rs ih =>
    rw [List.map_cons, List.nodup_cons] at hnodup
    obtain ⟨hr, hrest⟩ := List.forall_mem_cons.mp hslots
    have hother : ∀ r' ∈ rs, m.slots.clear r.id r'.id = m.slots r'.id := fun r' hr' =>
      m.slots.clear_of_ne fun heq => hnodup.1 (heq ▸ List.mem_map_of_mem hr')
    have hsamples : rs.map (Matched.sample (m.slots.clear r.id)) = rs.map (Matched.sample m.slots) :=
      List.map_congr_left fun r' hr' => by rw [Matched.sample, hother r' hr']; rfl
    refine (Machine.run_cons_eq_some _).mpr ⟨w.reply cfg m completed r.id r.rcode r.nowNs, ?_, ?_⟩
    · simp only [Threads.alone, workers, UnifiedWorker.step, Matched.act, hpc]
    · rw [UnifiedWorker.reply_of_occupied hloop w hr,
        ih rfl hnodup.2 (fun r' hr' => (hother r' hr').trans_ne (hrest r' hr')), hsamples]
      simp only [List.length_cons, Nat.add_assoc, Nat.add_comm 1]
      rfl

end Worker

end Dnsmark.Xdp
