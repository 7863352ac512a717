import Dnsmark.Common.RateLimit
import Dnsmark.Udp.ClosedLoop

/-!
# The pacing of the closed-loop UDP worker

`next_send` and `step` of `closed_loop_unified` at a constant rate.  A query is due once `next_send` has
come; a send that succeeded advances `next_send` by one step and, if that is still more than 2 ms behind
the clock, sets it to the clock.  A send that failed and the other parts of the loop leave it alone.

A paced worker is the `Worker` of `ClosedLoop` with `next_send` beside it, and every paced run is a run of
that worker (`run_forget`): pacing decides when a part of the loop runs, not what it does.  Its sends are
dispatches of a schedule with an interval of one step and a slack of 2 ms (`dispatched_of_run`).

Clock readings are nanoseconds since `base`.
-/

namespace Dnsmark.Udp

open Dnsmark.Stats RateLimit

/-- `Duration::from_millis(2)`. -/
def maxLagNs : ℕ := 2000000

/-- A worker and its schedule. -/
structure PacedWorker where
  core : Worker × StatsCollector
  nextSend : ℕ

/-- One part of the loop body, with the clock readings it makes. -/
inductive PacedEvent where
  /-- The due-check at `dueNs` came too early. -/
  | notDue (dueNs : ℕ)
  /-- The due-check at `dueNs`, a successful send stamped `sendNs`, and the reading behind it. -/
  | send (dueNs sendNs nowNs : ℕ)
  | sendFailed (dueNs sendNs : ℕ) (wouldBlock : Bool)
  | recv (recvNs : ℕ) (msgs : List Datagram)
  | sweep (nowNs : ℕ)
deriving DecidableEq, Repr

namespace PacedEvent

/-- The clock readings of an event, in the order in which they are made. -/
def readings : PacedEvent → List ℕ
  | notDue dueNs => [dueNs]
  | send dueNs sendNs nowNs => [dueNs, sendNs, nowNs]
  | sendFailed dueNs sendNs _ => [dueNs, sendNs]
  | recv recvNs _ => [recvNs]
  | sweep nowNs => [nowNs]

/-- The due-check of a send that was performed. -/
def sentAt? : PacedEvent → Option ℕ
  | send dueNs _ _ => some dueNs
  | _ => none

/-- The event without the pacing. -/
def forget : PacedEvent → Option Event
  | notDue _ => none
  | send _ sendNs _ => some (.send sendNs)
  | sendFailed _ _ wouldBlock => some (.sendFailed wouldBlock)
  | recv recvNs msgs => some (.recv recvNs msgs)
  | sweep nowNs => some (.sweep nowNs)

end PacedEvent

/-- The clock does not go back during a run. -/
def ReadingsOrdered (es : List PacedEvent) : Prop :=
  (es.flatMap PacedEvent.readings).Pairwise (· ≤ ·)

namespace PacedWorker

/-- `next_send` after a send, with the clock at `nowNs`. -/
def advance (stepNs nextSend nowNs : ℕ) : ℕ :=
  if nextSend + stepNs + maxLagNs < nowNs then nowNs else nextSend + stepNs

/-- One part of the loop body. -/
def step (cfg : Config) (stepNs : ℕ) (s : PacedWorker) : PacedEvent → Option PacedWorker
  | .notDue dueNs =>
    if s.core.1.outstanding < cfg.maxOutstanding ∧ dueNs < s.nextSend then some s else none
  | .send dueNs sendNs nowNs =>
    if s.nextSend ≤ dueNs then
      (Worker.step cfg s.core (.send sendNs)).map (⟨·, advance stepNs s.nextSend nowNs⟩)
    else none
  | .sendFailed dueNs _ wouldBlock =>
    if s.nextSend ≤ dueNs then
      (Worker.step cfg s.core (.sendFailed wouldBlock)).map (⟨·, s.nextSend⟩)
    else none
  | .recv recvNs msgs => (Worker.step cfg s.core (.recv recvNs msgs)).map (⟨·, s.nextSend⟩)
  | .sweep nowNs => (Worker.step cfg s.core (.sweep nowNs)).map (⟨·, s.nextSend⟩)

/-- A paced worker on its own. -/
def machine (cfg : Config) (stepNs : ℕ) : Machine PacedWorker PacedEvent := ⟨step cfg stepNs⟩

variable {cfg : Config} {stepNs : ℕ} {s s' : PacedWorker} {e : PacedEvent} {es : List PacedEvent}

/-! ## One step -/

/-- What a step can be: a check that came too early, a send that was due, or one of the parts that leave
the schedule alone. -/
theorem step_cases (h : step cfg stepNs s e = some s') :
    (∃ dueNs, e = .notDue dueNs ∧ s' = s) ∨
    (∃ dueNs sendNs nowNs, e = .send dueNs sendNs nowNs ∧ s.nextSend ≤ dueNs ∧
      Worker.step cfg s.core (.send sendNs) = some s'.core ∧
      s'.nextSend = advance stepNs s.nextSend nowNs) ∨
    (∃ e', e.forget = some e' ∧ e.sentAt? = none ∧ Worker.step cfg s.core e' = some s'.core ∧
      s'.nextSend = s.nextSend) := by
  cases e with
  | notDue dueNs =>
    obtain ⟨-, ⟨⟩⟩ := Option.ite_none_right_eq_some.mp h
    exact .inl ⟨dueNs, rfl, rfl⟩
  | send dueNs sendNs nowNs =>
    obtain ⟨hdue, hmap⟩ := Option.ite_none_right_eq_some.mp h
    obtain ⟨p, hp, rfl⟩ := Option.map_eq_some_iff.mp hmap
    exact .inr (.inl ⟨dueNs, sendNs, nowNs, rfl, hdue, hp, rfl⟩)
  | sendFailed dueNs sendNs wouldBlock =>
    obtain ⟨-, hmap⟩ := Option.ite_none_right_eq_some.mp h
    obtain ⟨p, hp, rfl⟩ := Option.map_eq_some_iff.mp hmap
    exact .inr (.inr ⟨_, rfl, rfl, hp, rfl⟩)
  | recv recvNs msgs =>
    unfold step at h
    obtain ⟨p, hp, rfl⟩ := Option.map_eq_some_iff.mp h
    exact .inr (.inr ⟨_, rfl, rfl, hp, rfl⟩)
  | sweep nowNs =>
    unfold step at h
    obtain ⟨p, hp, rfl⟩ := Option.map_eq_some_iff.mp h
    exact .inr (.inr ⟨_, rfl, rfl, hp, rfl⟩)

/-- A send moves the schedule by a step at least. -/
theorem le_advance (stepNs nextSend nowNs : ℕ) : nextSend + stepNs ≤ advance stepNs nextSend nowNs := by
  unfold advance
  split <;> omega

/-- It leaves the schedule behind the clock by 2 ms at most. -/
theorem advance_lag (stepNs nextSend nowNs : ℕ) :
    nowNs ≤ advance stepNs nextSend nowNs + maxLagNs := by
  unfold advance
  split <;> omega

/-- No step moves the schedule back. -/
theorem nextSend_le_of_step (h : step cfg stepNs s e = some s') : s.nextSend ≤ s'.nextSend := by
  obtain ⟨_, _, rfl⟩ | ⟨_, _, nowNs, _, _, _, hnext⟩ | ⟨_, _, _, _, hnext⟩ := step_cases h
  · exact Nat.le_refl _
  · have hle := le_advance stepNs s.nextSend nowNs
    omega
  · exact hnext.ge

/-! ## Whole runs -/

/-- No run moves the schedule back. -/
theorem nextSend_le_of_run (h : (machine cfg stepNs).run s es = some s') : s.nextSend ≤ s'.nextSend :=
  (machine cfg stepNs).run_invariant (I := fun t => s.nextSend ≤ t.nextSend)
    (fun _ _ _ hle hstep => hle.trans (nextSend_le_of_step hstep)) (Nat.le_refl _) h

/-- A paced run is a run of the worker. -/
theorem run_forget (h : (machine cfg stepNs).run s es = some s') :
    (Worker.machine cfg).run s.core (es.filterMap PacedEvent.forget) = some s'.core := by
  induction es generalizing s with
  | nil =>
    obtain rfl : s = s' := Option.some.inj h
    rfl
  | cons e es ih =>
    obtain ⟨t, hstep, hrun⟩ := (machine cfg stepNs).run_cons_eq_some.mp h
    have hrest := ih hrun
    obtain ⟨dueNs, rfl, rfl⟩ | ⟨dueNs, sendNs, nowNs, rfl, -, hcore, -⟩ | ⟨e', he, -, hcore, -⟩ :=
      step_cases hstep
    · exact hrest
    · change (Worker.machine cfg).run s.core (Event.send sendNs :: _) = _
      rw [Machine.run_cons]
      exact (congrArg (Option.bind · _) hcore).trans hrest
    · rw [List.filterMap_cons_some he, Machine.run_cons]
      exact (congrArg (Option.bind · _) hcore).trans hrest

theorem ReadingsOrdered.tail (h : ReadingsOrdered (e :: es)) : ReadingsOrdered es := by
  unfold ReadingsOrdered at h
  rw [List.flatMap_cons] at h
  exact (List.pairwise_append.mp h).2.1

/-- The sends of a run are dispatches of a schedule. -/
theorem dispatched_of_run (h : (machine cfg stepNs).run s es = some s') (hclock : ReadingsOrdered es) :
    Dispatched stepNs maxLagNs s.nextSend (es.filterMap PacedEvent.sentAt?) := by
  induction es generalizing s with
  | nil => exact .nil _
  | cons e es ih =>
    obtain ⟨t, hstep, hrun⟩ := (machine cfg stepNs).run_cons_eq_some.mp h
    have hrest := ih hrun (ReadingsOrdered.tail hclock)
    obtain ⟨dueNs, rfl, rfl⟩ | ⟨dueNs, sendNs, nowNs, rfl, hdue, -, hnext⟩ | ⟨e', -, he, -, hnext⟩ :=
      step_cases hstep
    · exact hrest
    · -- the clock is read again behind the send, and decides how far the schedule may lag
      have hread : dueNs ≤ nowNs := by
        unfold ReadingsOrdered at hclock
        rw [List.flatMap_cons] at hclock
        exact (List.pairwise_cons.mp hclock).1 nowNs (by simp)
      rw [hnext] at hrest
      exact .cons hdue (le_advance _ _ _) (hread.trans (advance_lag _ _ _)) hrest
    · rw [List.filterMap_cons_none he, ← hnext]
      exact hrest

/-- No thundering send after a stall: at every step of at least one nanosecond, from every state, along
every run whose clock does not go back, whatever the kernel answers, any group of performed sends whose
due-checks fall within `span` has `2 + (span + 2 ms) / step` members at most, and `next_send` is never
moved to an earlier time. -/
theorem no_thundering_send (cfg : Config) (stepNs : ℕ) (hstep : 1 ≤ stepNs) (s s' : PacedWorker)
    (es : List PacedEvent) (hrun : (machine cfg stepNs).run s es = some s')
    (hclock : ReadingsOrdered es) :
    (∀ (group : List ℕ) (span : ℕ), group.Sublist (es.filterMap PacedEvent.sentAt?) →
      (∀ c ∈ group, ∀ c' ∈ group, c' ≤ c + span) →
      group.length ≤ 2 + (span + 2000000) / stepNs) ∧
    ∀ before after t, es = before ++ after → (machine cfg stepNs).run s before = some t →
      s.nextSend ≤ t.nextSend ∧ t.nextSend ≤ s'.nextSend := by
  constructor
  · intro group span hsub hspan
    exact ((dispatched_of_run hrun hclock).sublist hsub).length_le hstep hspan
  · rintro before after t rfl hbefore
    rw [Machine.run_append, hbefore, Option.bind_some] at hrun
    exact ⟨nextSend_le_of_run hbefore, nextSend_le_of_run hrun⟩

/-- A stall of 5 ms at a step of 1 ms: the first send behind it is 4 ms late and sets the schedule to the
clock, so the next one has to wait. -/
def stall : List PacedEvent :=
  [.send 0 1 2, .sendFailed 5000000 5000001 true, .send 5000002 5000003 5000004,
    .send 5000005 5000006 5000007, .notDue 5000008]

/-- Three sends in 6 ms, of which at most ten are possible. -/
theorem no_thundering_send_stall :
    ∃ s', (machine ⟨100, 3000000000⟩ 1000000).run ⟨(.new 7, .new), 0⟩ stall = some s' ∧
      s'.nextSend = 6000004 ∧
      (stall.filterMap PacedEvent.sentAt?).length ≤ 2 + (6000000 + 2000000) / 1000000 := by
  refine ⟨_, rfl, rfl, ?_⟩
  exact (no_thundering_send ⟨100, 3000000000⟩ 1000000 (by decide) ⟨(.new 7, .new), 0⟩ _ stall rfl
    (by unfold ReadingsOrdered; decide)).1 _ 6000000 (List.Sublist.refl _) (by decide)

end PacedWorker

end Dnsmark.Udp
