import Dnsmark.Xdp.Registration
import Dnsmark.Xdp.SplitPath

/-!
# The ids of the AF_XDP senders

With `nw` senders each has `id_span = 65536 / nw` ids of its own, from its `id_base` on, and takes them in
turn; `xdp_unified_worker` and `xdp_tx_sender_thread` compute them in the same way.  Neither the cast of
`id_base` to 16 bits nor the `wrapping_add` loses anything: frame number `k` of sender `w` has the id
`w * id_span + k % id_span` (`val_idAt`), whose quotient by `id_span` is the sender and whose remainder is
the place in its range.

A reply says by its id which sender sent the query.  `awaiting_owned` says of every run of the unified
workers, and `pending_owned` of every run of the split path, that no sender hands out an id of another.
-/

namespace Dnsmark.Xdp

open Dnsmark.Engine

/-! ## The arithmetic of a range -/

theorem idSpan_pos (nw : ℕ) : 0 < idSpan nw := lt_max_of_lt_right Nat.one_pos

theorem idSpan_le (nw : ℕ) : idSpan nw ≤ 65536 := max_le (Nat.div_le_self _ _) (by decide)

/-- Two frames of one sender have the same id exactly when they are whole ranges apart. -/
theorem idAt_eq_iff (nw w k k' : ℕ) :
    idAt nw w k = idAt nw w k' ↔ k % idSpan nw = k' % idSpan nw := by
  constructor
  · intro heq
    have hk := (Nat.mod_lt k (idSpan_pos nw)).trans_le (idSpan_le nw)
    have hk' := (Nat.mod_lt k' (idSpan_pos nw)).trans_le (idSpan_le nw)
    have hbase := (idBase nw w).isLt
    have hval := congrArg Fin.val heq
    simp only [idAt, Fin.val_add, Fin.val_ofNat] at hval
    omega
  · intro hmod
    rw [idAt, idAt, hmod]

/-- Within a range no id comes back. -/
theorem idAt_add_ne (nw w k : ℕ) {d : ℕ} (hd : 0 < d) (hlt : d < idSpan nw) :
    idAt nw w (k + d) ≠ idAt nw w k := by
  intro heq
  have hmod := Nat.sub_mod_eq_zero_of_mod_eq ((idAt_eq_iff nw w _ _).mp heq)
  rw [Nat.add_sub_cancel_left, Nat.mod_eq_of_lt hlt] at hmod
  omega

section

variable {nw : ℕ} (hpos : 1 ≤ nw) (hle : nw ≤ 65536)

include hpos

theorem idSpan_eq_div (hle : nw ≤ 65536) : idSpan nw = 65536 / nw := by
  have hone : 1 ≤ 65536 / nw := (Nat.one_le_div_iff hpos).mpr hle
  rw [idSpan, max_eq_left hpos, max_eq_left hone]

include hle

/-- The range of a sender ends below `2 ^ 16`. -/
theorem range_le {w : ℕ} (hw : w < nw) : w * idSpan nw + idSpan nw ≤ 65536 := by
  calc w * idSpan nw + idSpan nw
      _ = (w + 1) * idSpan nw := (Nat.succ_mul w _).symm
      _ ≤ nw * idSpan nw := Nat.mul_le_mul_right _ hw
      _ = nw * (65536 / nw) := by rw [idSpan_eq_div hpos hle]
      _ ≤ 65536 := Nat.mul_div_le _ _

/-- The cast to 16 bits does not truncate. -/
theorem val_idBase {w : ℕ} (hw : w < nw) : (idBase nw w).val = w * idSpan nw := by
  have hend := range_le hpos hle hw
  have hspan := idSpan_pos nw
  rw [idBase, max_eq_left hpos, Nat.mod_eq_of_lt hw, Fin.val_ofNat]
  exact Nat.mod_eq_of_lt (by omega)

/-- The addition does not wrap. -/
theorem val_idAt {w : ℕ} (hw : w < nw) (k : ℕ) :
    (idAt nw w k).val = w * idSpan nw + k % idSpan nw := by
  have hend := range_le hpos hle hw
  have hk := Nat.mod_lt k (idSpan_pos nw)
  have hspan := idSpan_le nw
  rw [idAt, Fin.val_add, val_idBase hpos hle hw, Fin.val_ofNat, Nat.add_mod_mod]
  exact Nat.mod_eq_of_lt (by omega)

/-- The sender of an id is its quotient. -/
theorem idAt_div {w : ℕ} (hw : w < nw) (k : ℕ) : (idAt nw w k).val / idSpan nw = w := by
  have hspan := idSpan_pos nw
  rw [val_idAt hpos hle hw, Nat.add_comm, Nat.add_mul_div_right _ _ hspan,
    Nat.div_eq_of_lt (Nat.mod_lt k hspan), Nat.zero_add]

/-- An id has one sender. -/
theorem sender_unique {w w' k k' : ℕ} (hw : w < nw) (hw' : w' < nw)
    (heq : idAt nw w k = idAt nw w' k') : w = w' := by
  rw [← idAt_div hpos hle hw k, heq, idAt_div hpos hle hw']

end

/-- The ranges are disjoint: for every number of senders that leaves an id for each, two senders never
compute the same id, no addition wraps past 65535, and a sender computes an id again after exactly
`id_span = 65536 / nw` further frames. -/
theorem id_ranges_disjoint (nw : ℕ) (hpos : 1 ≤ nw) (hle : nw ≤ 65536) :
    idSpan nw = 65536 / nw ∧
      (∀ w < nw, ∀ w' < nw, w ≠ w' → ∀ k k', idAt nw w k ≠ idAt nw w' k') ∧
      (∀ w < nw, ∀ k, (idBase nw w).val = w * idSpan nw ∧
        (idBase nw w).val + k % idSpan nw ≤ 65535 ∧
        (idAt nw w k).val = (idBase nw w).val + k % idSpan nw) ∧
      ∀ w < nw, ∀ k, idAt nw w (k + idSpan nw) = idAt nw w k ∧
        ∀ d, 0 < d → d < idSpan nw → idAt nw w (k + d) ≠ idAt nw w k := by
  refine ⟨idSpan_eq_div hpos hle, ?_, ?_, ?_⟩
  · intro w hw w' hw' hne k k' heq
    exact hne (sender_unique hpos hle hw hw' heq)
  · intro w hw k
    have hid := val_idAt hpos hle hw k
    rw [val_idBase hpos hle hw]
    exact ⟨rfl, by omega, hid⟩
  · intro w _ k
    exact ⟨(idAt_eq_iff nw w _ _).mpr (Nat.add_mod_right k _), fun d => idAt_add_ne nw w k⟩

/-- Three senders have 21845 ids each, and the id 65535 belongs to none. -/
theorem id_ranges_of_three :
    idSpan 3 = 21845 ∧ idAt 3 2 21844 = 65534 ∧ idAt 3 2 21845 = 43690 ∧
      idAt 3 0 21844 ≠ idAt 3 1 0 := by
  obtain ⟨hspan, hne, -, -⟩ := id_ranges_disjoint 3 (by decide) (by decide)
  exact ⟨hspan, by decide, by decide, hne 0 (by decide) 1 (by decide) (by decide) _ _⟩

/-! ## Over whole runs -/

/-- `id` is one of the ids of sender `w`. -/
def Owns (nw w : ℕ) (id : QueryId) : Prop := ∃ k, id = idAt nw w k

theorem Owns.unique {nw w w' : ℕ} {id : QueryId} (hle : nw ≤ 65536) (hw : w < nw) (hw' : w' < nw)
    (h : Owns nw w id) (h' : Owns nw w' id) : w = w' := by
  have hpos : 1 ≤ nw := by omega
  obtain ⟨k, rfl⟩ := h
  obtain ⟨k', heq⟩ := h'
  exact sender_unique hpos hle hw hw' heq

/-- The ids of a batch, or of the part of it that the ring took. -/
theorem owns_of_mem_take {nw w idCtr n enq : ℕ} {id : QueryId}
    (h : id ∈ ((List.range n).map fun k => idAt nw w (idCtr + k)).take enq) : Owns nw w id := by
  obtain ⟨k, -, rfl⟩ := List.mem_map.mp (List.mem_of_mem_take h)
  exact ⟨idCtr + k, rfl⟩

theorem Config.mem_of_mem_registered {cfg : Config} {ids : List QueryId} {id : QueryId}
    (h : id ∈ cfg.registered ids) : id ∈ ids := by
  unfold Config.registered at h
  split at h
  · split at h
    · exact (List.mem_filter.mp h).1
    · exact absurd h List.not_mem_nil
  · exact h

/-- The ids are all of sender `w`. -/
def OwnsAll (nw w : ℕ) (ids : List QueryId) : Prop := ∀ id ∈ ids, Owns nw w id

theorem ownsAll_of_nil {nw w : ℕ} {ids : List QueryId} (h : ids = []) : OwnsAll nw w ids := by
  subst h
  exact List.forall_mem_nil _

namespace UnifiedWorker

variable {cfg : Config} {N : ℕ} {i : Fin N} {w w' : UnifiedWorker} {m m' : Shared} {a : Act}

/-- A worker hands out ids of its own, and inserts them one by one. -/
theorem ownsAll_step (hw : OwnsAll N i w.pc.awaiting) (h : Stepped cfg N i w m a w' m') :
    OwnsAll N i w'.pc.awaiting := by
  cases h with
  | goOn | transmitNone | addInFlight | addNothing | replies | noReplies | startSweep | noSweep
  | sweepStep | releaseExpired | drainStep | endDrain | flushSent | flushRcodes =>
    exact ownsAll_of_nil rfl
  | leave pc' _ _ hpc' | countTimeouts _ pc' _ hpc' =>
    apply ownsAll_of_nil
    rw [hpc']
    split <;> rfl
  | gate _ pc' _ _ hpc' => rcases hpc' with rfl | rfl <;> exact ownsAll_of_nil rfl
  | endSweep _ pc' _ hpc' => rcases hpc' with ⟨-, rfl⟩ | ⟨-, rfl⟩ <;> exact ownsAll_of_nil rfl
  | transmit room pool enq hpc =>
    intro id hid
    exact owns_of_mem_take (Config.mem_of_mem_registered hid)
  | insert id ids enq nowNs hpc =>
    intro id' hid'
    apply hw id'
    rw [hpc]
    exact List.mem_cons_of_mem id hid'
  | countSent enq nowNs =>
    apply ownsAll_of_nil
    rw [countSent_pc]
    rfl
  | reply completed id rcode nowNs hpc =>
    obtain ⟨_, hpc'⟩ := reply_pc cfg hpc m id rcode nowNs
    apply ownsAll_of_nil
    rw [hpc']
    rfl
  | endReplies completed =>
    apply ownsAll_of_nil
    rw [endReplies_pc]
    rfl

end UnifiedWorker

/-- In every interleaving of the unified workers, each hands out ids of its own only. -/
theorem awaiting_owned {cfg : Config} {N : ℕ} {es : List (Threads.Event (Fin N) Act EngineAct)}
    {s : State N} (hrun : (workers cfg N).machine.run (State.start N) es = some s) (i : Fin N) :
    OwnsAll N i (s.threads i).pc.awaiting := by
  refine (workers cfg N).machine.run_invariant
    (I := fun s => ∀ i : Fin N, OwnsAll N i (s.threads i).pc.awaiting)
    ((workers cfg N).forall_threads_invariant (J := fun i w => OwnsAll N i w.pc.awaiting) ?_) ?_ hrun i
  · intro i w m a w' m' hw h
    exact UnifiedWorker.ownsAll_step hw (UnifiedWorker.step_cases h)
  · intro i
    exact ownsAll_of_nil rfl

/-- So two workers never wait to insert the same id. -/
theorem awaiting_disjoint {cfg : Config} {N : ℕ} (hle : N ≤ 65536)
    {es : List (Threads.Event (Fin N) Act EngineAct)} {s : State N}
    (hrun : (workers cfg N).machine.run (State.start N) es = some s) {i j : Fin N} (hne : i ≠ j) :
    (s.threads i).pc.awaiting.Disjoint (s.threads j).pc.awaiting := by
  intro id hi hj
  apply hne
  exact Fin.ext ((awaiting_owned hrun i id hi).unique hle i.isLt j.isLt (awaiting_owned hrun j id hj))

namespace Split

/-- The ids a sender has submitted and not inserted yet. -/
def TxPc.awaiting : TxPc → List QueryId
  | .register ids _ => ids
  | _ => []

namespace Tx

variable {cfg : Config} {N : ℕ} {i : Fin N} {t t' : Tx} {m m' : Shared} {a : TxAct}

theorem awaiting_leave (t : Tx) : t.leave.awaiting = [] := by
  unfold leave
  split <;> rfl

theorem ownsAll_step (ht : OwnsAll N i t.pc.awaiting) (h : Stepped cfg N i t m a t' m') :
    OwnsAll N i t'.pc.awaiting := by
  cases h with
  | loadRate | held | due | flushStats => exact ownsAll_of_nil rfl
  | checkShutdown | sleep =>
    apply ownsAll_of_nil
    split
    · exact t.awaiting_leave
    · rfl
  | passed | countSent | flushGate =>
    apply ownsAll_of_nil
    split <;> rfl
  | transmitOne ok hpc =>
    cases ok with
    | true =>
      intro id hid
      exact ⟨t.idCtr, List.mem_singleton.mp hid⟩
    | false => exact ownsAll_of_nil rfl
  | transmit room pool enqueued hpc =>
    by_cases hsome : 0 < enqueued
    · rw [if_pos hsome]
      exact fun id hid => owns_of_mem_take hid
    · rw [if_neg hsome]
      exact ownsAll_of_nil rfl
  | insert id ids sent nowNs hpc =>
    intro id' hid'
    apply ht id'
    rw [hpc]
    exact List.mem_cons_of_mem id hid'

end Tx

/-- A sender hands out ids of its own, a receiver none. -/
def Thread.HandsOwn {N R : ℕ} : Fin N ⊕ Fin R → Thread → Prop
  | .inl i, .tx t => OwnsAll N i t.pc.awaiting
  | _, _ => True

/-- In every interleaving of the split path, each sender hands out ids of its own only. -/
theorem pending_owned {cfg : Config} {N R : ℕ}
    {es : List (Threads.Event (Fin N ⊕ Fin R) Act EngineAct)} {s : State N R}
    (hrun : (threads cfg N R).machine.run (State.start N R) es = some s) (i : Fin N ⊕ Fin R) :
    (s.threads i).HandsOwn i := by
  refine (threads cfg N R).machine.run_invariant (I := fun s => ∀ i, (s.threads i).HandsOwn i)
    ((threads cfg N R).forall_threads_invariant ?_) ?_ hrun i
  · intro i th m a th' m' hth h
    obtain ⟨j, t, t', b, rfl, rfl, rfl, -, hstep⟩ | ⟨pc, pc', b, rfl, rfl, -, -⟩ := Thread.step_cases h
    · exact Tx.ownsAll_step hth hstep
    · cases i <;> trivial
  · rintro (i | i)
    · exact ownsAll_of_nil rfl
    · trivial

end Split

end Dnsmark.Xdp
