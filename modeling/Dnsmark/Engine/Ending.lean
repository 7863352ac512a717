import Dnsmark.Engine.Convergence
import Dnsmark.Engine.RampTask

/-!
# How a run ends

`run_with_shutdown` of `src/engine/mod.rs` from the start of its tasks to its snapshot, with everything
that can end it: the `tokio::select!` of the main task, the ramp task, the memory guard of
`src/stats/oom_guard.rs` and the terminal UI of `src/output/tui.rs`.

They share the flag `shutdown`, but the main task does not look at it.  It waits for the clock, or with
`--ramp` for the notification of the ramp task, or for Ctrl-C.  The ramp task notifies when it
saturates, and not when it leaves because of the flag.  It reads the flag after each of its waits, and what
it does then takes a while: `ethtool` runs before a window is looked at.  Another task can store the flag in
between, so the read, what follows from it, the store and the notification are steps of their own here.

So a ramp that nobody stops ends by itself, within a number of steps known beforehand.  A ramp that the UI or
the memory guard stops never ends, unless the ramp task had read the flag before it was stored and the window
it then looks at is its last one (`ramp_ends_unless_stopped`).  A run of fixed length is not shortened by them
(`fixed_run_keeps_its_length`).

The workers only matter by when they return; what they count is the subject of `Shutdown`.
-/

namespace Dnsmark.Engine

open Dnsmark.Stats

/-! ## The events the ramp task has left -/

/-- What the task has read of the flag when it takes the event, if it has. -/
def RampEvent.flag? : RampEvent → Option Bool
  | .primed b | .openWindow b _ _ | .closeWindow b _ _ => some b
  | _ => none

namespace RampTask

def saturated (t : RampTask) : Bool :=
  match t.pc with
  | .saturated _ => true
  | _ => false

/-- The task has left its loop. -/
def ended (t : RampTask) : Bool :=
  match t.pc with
  | .saturated _ | .stopped => true
  | _ => false

/-- The task reads the flag next. -/
def atFlag (t : RampTask) : Bool :=
  match t.pc with
  | .priming | .warming | .measuring _ _ => true
  | _ => false

/-- How many steps the task can still take in its loop: three before it and five for each of at most 25
windows, the reads of the flag among them. -/
def left (t : RampTask) : ℕ :=
  match t.pc with
  | .prime => 5 * (25 - t.steps.length) + 3
  | .priming => 5 * (25 - t.steps.length) + 2
  | .top => 5 * (25 - t.steps.length)
  | .warming => 5 * (25 - t.steps.length) - 1
  | .measuring _ _ => 5 * (25 - t.steps.length) - 3
  | .saturated _ | .stopped => 0

/-- A task that is in its loop is still searching. -/
def Tracked (t : RampTask) : Prop := t.ended = false → RampController.Searching t.steps.length t.ctrl

variable {summary : List ℕ → LatencySummary} {cfg : RampConfig} {t t' : RampTask} {e : RampEvent}

theorem left_start (qpsPerWorker : ℕ) : (start cfg qpsPerWorker).left = 128 := rfl

theorem tracked_start (qpsPerWorker : ℕ) : Tracked (start cfg qpsPerWorker) :=
  fun _ => RampController.searching_new _

theorem ended_of_saturated (h : t.saturated = true) : t.ended = true := by
  cases hpc : t.pc <;> simp [saturated, ended, hpc] at h ⊢

theorem not_saturated_of_running (h : t.ended = false) : t.saturated = false := by
  cases hsat : t.saturated with
  | false => rfl
  | true => exact absurd (h.symm.trans (ended_of_saturated hsat)) nofun

/-- A task that reads the flag is in its loop, and has two steps left at least. -/
theorem two_le_left (h : t.atFlag = true) (hlt : t.steps.length < 25) : 2 ≤ t.left := by
  cases hpc : t.pc <;> simp [atFlag, hpc] at h <;> simp only [left, hpc] <;> omega

/-- The three things an event can do to a task: lead to the next wait, make it leave because of the flag,
or end a window. -/
theorem step_outcomes (h : (rampTask summary cfg).step t e = some t') :
    t.ended = false ∧
      ((t'.ended = false ∧ t'.ctrl = t.ctrl ∧ t'.steps = t.steps ∧
          (t.steps.length < 25 → t'.left + e.flag?.isSome.toNat < t.left)) ∨
        (t' = { t with pc := .stopped } ∧ e.flag? = some true ∧ (t.steps.length < 25 → 1 < t.left)) ∨
        ∃ w sentW0 rx0, e.flag? = some false ∧ t.pc = .measuring sentW0 rx0 ∧ t' = t.measure cfg w) := by
  cases e with
  | prime | skipPrime =>
    obtain ⟨⟨hpc, -⟩, ⟨⟩⟩ := Option.ite_none_right_eq_some.mp h
    refine ⟨by simp only [ended, hpc], .inl ⟨rfl, rfl, rfl, fun _ => ?_⟩⟩
    simp only [left, hpc, RampEvent.flag?, Option.isSome_none, Bool.toNat_false]
    omega
  | storeRate =>
    obtain ⟨hpc, ⟨⟩⟩ := Option.ite_none_right_eq_some.mp h
    refine ⟨by simp only [ended, hpc], .inl ⟨rfl, rfl, rfl, fun _ => ?_⟩⟩
    simp only [left, hpc, RampEvent.flag?, Option.isSome_none, Bool.toNat_false]
    omega
  | primed b | openWindow b st rx =>
    obtain ⟨hpc, ⟨⟩⟩ := Option.ite_none_right_eq_some.mp h
    refine ⟨by simp only [ended, hpc], ?_⟩
    cases b with
    | false =>
      refine .inl ⟨rfl, rfl, rfl, fun _ => ?_⟩
      simp only [left, hpc, RampEvent.flag?, Option.isSome_some, Bool.toNat_true, Bool.false_eq_true,
        if_false]
      omega
    | true =>
      refine .inr (.inl ⟨rfl, rfl, fun hlt => two_le_left ?_ hlt⟩)
      simp only [atFlag, hpc]
  | closeWindow b st rx =>
    simp only [rampTask, step] at h
    split at h
    · rename_i sentW0 rx0 hpc
      refine ⟨by simp only [ended, hpc], ?_⟩
      cases b with
      | false =>
        obtain rfl := Option.some.inj h
        exact .inr (.inr ⟨_, sentW0, rx0, rfl, hpc, rfl⟩)
      | true =>
        obtain rfl := Option.some.inj h
        refine .inr (.inl ⟨rfl, rfl, fun hlt => two_le_left ?_ hlt⟩)
        simp only [atFlag, hpc]
    · cases h

variable (cfg) in
/-- The end of a window keeps the search going or settles it. -/
theorem measure_outcomes (w : RampStep) (h : RampController.Searching t.steps.length t.ctrl) :
    ((t.measure cfg w).ended = false ∧ (t.measure cfg w).left = 5 * (25 - (t.steps.length + 1)) ∧
        RampController.Searching (t.measure cfg w).steps.length (t.measure cfg w).ctrl) ∨
      ((t.measure cfg w).saturated = true ∧ (t.measure cfg w).left = 0) := by
  have hmoved := (h.observe w.latency.p50Us).moved
    (t.ctrl.advance_moved w.servedQps w.latency.p50Us)
  obtain ⟨hgo, hpc⟩ | ⟨s, -, hpc, -⟩ := measure_cases cfg t w
  · rw [if_neg (by simp [hgo])] at hmoved
    refine .inl ⟨by simp only [ended, hpc], ?_, ?_⟩
    · simp only [left, hpc, measure_steps, List.length_cons]
    · rw [measure_steps, measure_ctrl, List.length_cons]
      exact hmoved
  · exact .inr ⟨by simp only [saturated, hpc], by simp only [left, hpc]⟩

/-- An event keeps the task tracked. -/
theorem Tracked.step (ht : Tracked t) (h : (rampTask summary cfg).step t e = some t') : Tracked t' := by
  obtain ⟨hrun, ⟨-, hctrl, hsteps, -⟩ | ⟨rfl, -, -⟩ | ⟨w, -, -, -, -, rfl⟩⟩ := step_outcomes h
  · intro _
    rw [hctrl, hsteps]
    exact ht hrun
  · intro hend
    cases hend
  · obtain ⟨-, -, hsearch⟩ | ⟨hsat, -⟩ := measure_outcomes cfg w (ht hrun)
    · exact fun _ => hsearch
    · intro hend
      exact absurd (hend.symm.trans (ended_of_saturated hsat)) nofun

/-- A task that saturates has read the flag before it was stored, and was in front of a window. -/
theorem exists_measuring_of_saturated (h : (rampTask summary cfg).step t e = some t')
    (hsat : t'.saturated = true) : e.flag? = some false ∧ ∃ sentW0 rx0, t.pc = .measuring sentW0 rx0 := by
  obtain ⟨-, ⟨hend, -⟩ | ⟨rfl, -⟩ | ⟨_, sentW0, rx0, hflag, hpc, -⟩⟩ := step_outcomes h
  · exact absurd (hsat.symm.trans (not_saturated_of_running hend)) nofun
  · cases hsat
  · exact ⟨hflag, sentW0, rx0, hpc⟩

/-- A task that leaves because of the flag has read it. -/
theorem flag_of_stopped (h : (rampTask summary cfg).step t e = some t') (hend : t'.ended = true)
    (hsat : t'.saturated = false) (ht : Tracked t) : e.flag? = some true := by
  obtain ⟨hrun, ⟨hgo, -⟩ | ⟨-, hflag, -⟩ | ⟨w, _, _, -, -, rfl⟩⟩ := step_outcomes h
  · exact absurd (hgo.symm.trans hend) nofun
  · exact hflag
  · obtain ⟨hgo, -⟩ | ⟨hsat', -⟩ := measure_outcomes cfg w (ht hrun)
    · exact absurd (hgo.symm.trans hend) nofun
    · exact absurd (hsat.symm.trans hsat') nofun

/-- Every event uses up a step, and one more for the read of the flag before it. -/
theorem Tracked.left_lt (ht : Tracked t) (h : (rampTask summary cfg).step t e = some t') :
    t'.left + e.flag?.isSome.toNat < t.left := by
  obtain ⟨hrun, hcases⟩ := step_outcomes h
  have hlt := (ht hrun).lt
  obtain ⟨-, -, -, hleft⟩ | ⟨rfl, hflag, hleft⟩ | ⟨w, sentW0, rx0, hflag, hpc, rfl⟩ := hcases
  · exact hleft hlt
  · rw [hflag]
    exact hleft hlt
  · have hopen : t.left = 5 * (25 - t.steps.length) - 3 := by simp only [left, hpc]
    rw [hflag, Option.isSome_some, Bool.toNat_true]
    obtain ⟨-, hleft, -⟩ | ⟨-, hleft⟩ := measure_outcomes cfg w (ht hrun)
    · omega
    · omega

/-- A task in its loop has an event to take, once it has read the flag where it does so. -/
theorem exists_step (summary : List ℕ → LatencySummary) (cfg : RampConfig) {flag : Option Bool}
    (h : t.ended = false) (hflag : flag.isSome = t.atFlag) :
    ∃ e t', e.flag? = flag ∧ (rampTask summary cfg).step t e = some t' := by
  cases hpc : t.pc with
  | prime =>
    obtain rfl : flag = none := by simpa [atFlag, hpc] using hflag
    by_cases hprime : 0 < cfg.primeSecs
    · exact ⟨.prime, _, rfl, if_pos ⟨hpc, hprime⟩⟩
    · exact ⟨.skipPrime, _, rfl, if_pos ⟨hpc, by omega⟩⟩
  | priming =>
    obtain ⟨b, rfl⟩ := Option.isSome_iff_exists.mp (hflag.trans (by simp [atFlag, hpc]))
    exact ⟨.primed b, _, rfl, if_pos hpc⟩
  | top =>
    obtain rfl : flag = none := by simpa [atFlag, hpc] using hflag
    exact ⟨.storeRate, _, rfl, if_pos hpc⟩
  | warming =>
    obtain ⟨b, rfl⟩ := Option.isSome_iff_exists.mp (hflag.trans (by simp [atFlag, hpc]))
    exact ⟨.openWindow b .new [], _, rfl, if_pos hpc⟩
  | measuring sentW0 rx0 =>
    obtain ⟨b, rfl⟩ := Option.isSome_iff_exists.mp (hflag.trans (by simp [atFlag, hpc]))
    refine ⟨.closeWindow b .new [], if b then { t with pc := .stopped }
      else t.measure cfg (t.window summary sentW0 rx0 .new (rxHw [])), rfl, ?_⟩
    simp only [rampTask, RampTask.step, hpc]
    cases b <;> rfl
  | saturated s => simp [ended, hpc] at h
  | stopped => simp [ended, hpc] at h

end RampTask

/-! ## The tasks of a run -/

/-- What of the configuration decides how the run ends; `warmUp` is `DNSMARK_WARMUP`. -/
structure RunConfig where
  ramp : Bool
  durationSecs : ℕ
  warmUp : ℕ := 5
  task : RampConfig

/-- The warm-up is skipped for ramps and for runs that are not longer than it. -/
def RunConfig.warmUpSecs (cfg : RunConfig) : ℕ :=
  if cfg.ramp = false ∧ 0 < cfg.warmUp ∧ cfg.warmUp < cfg.durationSecs then cfg.warmUp else 0

/-- How far the main task is.  `start` is the `Instant` taken before the `select!`, and `elapsedSecs` what
the snapshot is given. -/
inductive MainPc where
  | warmUp
  | select (start : ℕ)
  | joining (start : ℕ)
  | done (elapsedSecs : ℕ)
deriving DecidableEq, Repr

/-- The main task has not left the `select!`. -/
def MainPc.waiting : MainPc → Bool
  | .warmUp | .select _ => true
  | _ => false

/-- The steps the main task has left. -/
def MainPc.left : MainPc → ℕ
  | .warmUp => 3
  | .select _ => 2
  | .joining _ => 1
  | .done _ => 0

/-- How far a ramp task that has saturated is with saying so. -/
inductive Announcement where
  | silent
  /-- It has stored `shutdown`. -/
  | stored
  /-- It has called `notify_one`, and returned. -/
  | notified
deriving DecidableEq, Repr

/-- The steps it has left. -/
def Announcement.left : Announcement → ℕ
  | .silent => 2
  | .stored => 1
  | .notified => 0

/-- The tasks of a run and what they share. -/
structure Tasks where
  main : MainPc := .warmUp
  shutdown : Bool := false
  /-- The permit that `notify_one` leaves in `ramp_done`. -/
  permit : Bool := false
  ramp : Option RampTask
  /-- What the ramp task has read of `shutdown` and not acted on yet. -/
  flag : Option Bool := none
  said : Announcement := .silent
  /-- The memory guard is in its loop. -/
  guarding : Bool := true
  /-- The UI is in its loop. -/
  ui : Bool
  /-- Awaited workers that have not returned. -/
  workers : ℕ
  /-- The clock, in seconds. -/
  now : ℕ := 0
deriving DecidableEq, Repr

/-- `pct < 10` of the memory guard, which skips a reading without a total. -/
def lowMemory (totalKb availKb : ℕ) : Bool := totalKb ≠ 0 && availKb * 100 / totalKb < 10

inductive RunEvent where
  /-- A second passes. -/
  | tick
  /-- The main task takes the time and enters the `select!`. -/
  | measure
  /-- The ramp task loads `shutdown`. -/
  | rampReads
  | ramp (e : RampEvent)
  /-- The ramp task has saturated: `sd.store(true)`. -/
  | rampStores
  /-- `notify.notify_one()`. -/
  | rampNotifies
  /-- The memory guard wakes up and reads `/proc/meminfo`. -/
  | guardTick (totalKb availKb : ℕ)
  /-- The key `q`, or an error of the terminal. -/
  | uiStop
  /-- The UI finds the flag stored. -/
  | uiLeft
  | workerReturned
  /-- The three branches of the `select!`. -/
  | deadline
  | notified
  | ctrlC
  /-- The last handle is ready and the snapshot is taken. -/
  | finish
deriving DecidableEq, Repr

/-- A step of the tasks towards the end of the run, not one of the clock or of who stops it. -/
def RunEvent.advances : RunEvent → Bool
  | .measure | .rampReads | .ramp _ | .rampStores | .rampNotifies | .uiLeft | .workerReturned
  | .deadline | .notified | .finish => true
  | _ => false

/-- The tasks have just been spawned. -/
def Tasks.start (cfg : RunConfig) (ui : Bool) (workers qpsPerWorker : ℕ) : Tasks where
  ramp := if cfg.ramp then some (.start cfg.task qpsPerWorker) else none
  ui := ui
  workers := workers

namespace Tasks

/-- The main task leaves the `select!`, and stores `shutdown` in any case. -/
def leave (s : Tasks) (start : ℕ) : Tasks := { s with main := .joining start, shutdown := true }

/-- The ramp task has returned: it has notified, or it has left because of the flag. -/
def returned (s : Tasks) (t : RampTask) : Bool :=
  if t.saturated then s.said = .notified else t.ended

def step (summary : List ℕ → LatencySummary) (cfg : RunConfig) (s : Tasks) : RunEvent → Option Tasks
  | .tick => some { s with now := s.now + 1 }
  | .measure =>
    if s.main = .warmUp ∧ cfg.warmUpSecs ≤ s.now then some { s with main := .select s.now } else none
  | .rampReads =>
    s.ramp.bind fun t =>
      if t.atFlag = true ∧ s.flag = none then some { s with flag := some s.shutdown } else none
  | .ramp e =>
    s.ramp.bind fun t =>
      if e.flag? = s.flag then
        ((rampTask summary cfg.task).step t e).map fun t' => { s with ramp := some t', flag := none }
      else none
  | .rampStores =>
    s.ramp.bind fun t =>
      if t.saturated = true ∧ s.said = .silent then some { s with shutdown := true, said := .stored }
      else none
  | .rampNotifies => if s.said = .stored then some { s with permit := true, said := .notified } else none
  | .guardTick totalKb availKb =>
    if s.guarding = true then
      some (if s.shutdown = true then { s with guarding := false }
        else if lowMemory totalKb availKb = true then { s with shutdown := true, guarding := false }
        else s)
    else none
  | .uiStop => if s.ui = true then some { s with shutdown := true, ui := false } else none
  | .uiLeft => if s.ui = true ∧ s.shutdown = true then some { s with ui := false } else none
  | .workerReturned => if 0 < s.workers then some { s with workers := s.workers - 1 } else none
  | .deadline =>
    match s.main with
    | .select start =>
      if cfg.ramp = false ∧ start + cfg.durationSecs ≤ s.now then some (s.leave start) else none
    | _ => none
  | .notified =>
    match s.main with
    | .select start =>
      if cfg.ramp = true ∧ s.permit = true then some { s.leave start with permit := false } else none
    | _ => none
  | .ctrlC =>
    match s.main with
    | .select start => some (s.leave start)
    | _ => none
  | .finish =>
    match s.main with
    | .joining start =>
      if s.workers = 0 ∧ s.ui = false ∧ s.ramp.all s.returned = true then
        some { s with main := .done (s.now - start) }
      else none
    | _ => none

end Tasks

/-- The run as a machine. -/
def runWithShutdown (summary : List ℕ → LatencySummary) (cfg : RunConfig) : Machine Tasks RunEvent :=
  ⟨Tasks.step summary cfg⟩

namespace Tasks

variable {summary : List ℕ → LatencySummary} {cfg : RunConfig} {s s' : Tasks} {e : RunEvent}

/-- What one event does, with its guard. -/
inductive Moved (summary : List ℕ → LatencySummary) (cfg : RunConfig) (s : Tasks) :
    RunEvent → Tasks → Prop
  | tick : Moved summary cfg s .tick { s with now := s.now + 1 }
  | measure (hpc : s.main = .warmUp) (htime : cfg.warmUpSecs ≤ s.now) :
      Moved summary cfg s .measure { s with main := .select s.now }
  | rampReads {t : RampTask} (ht : s.ramp = some t) (hat : t.atFlag = true) (hflag : s.flag = none) :
      Moved summary cfg s .rampReads { s with flag := some s.shutdown }
  | ramp {t t' : RampTask} {e : RampEvent} (ht : s.ramp = some t) (hflag : e.flag? = s.flag)
      (hstep : (rampTask summary cfg.task).step t e = some t') :
      Moved summary cfg s (.ramp e) { s with ramp := some t', flag := none }
  | rampStores {t : RampTask} (ht : s.ramp = some t) (hsat : t.saturated = true)
      (hsaid : s.said = .silent) :
      Moved summary cfg s .rampStores { s with shutdown := true, said := .stored }
  | rampNotifies (hsaid : s.said = .stored) :
      Moved summary cfg s .rampNotifies { s with permit := true, said := .notified }
  | guardTick (totalKb availKb : ℕ) (shutdown guarding : Bool)
      (hkeep : s.shutdown = true → shutdown = true) :
      Moved summary cfg s (.guardTick totalKb availKb)
        { s with shutdown := shutdown, guarding := guarding }
  | uiStop (hui : s.ui = true) : Moved summary cfg s .uiStop { s with shutdown := true, ui := false }
  | uiLeft (hui : s.ui = true) : Moved summary cfg s .uiLeft { s with ui := false }
  | workerReturned (hpos : 0 < s.workers) :
      Moved summary cfg s .workerReturned { s with workers := s.workers - 1 }
  | deadline {start : ℕ} (hpc : s.main = .select start) (hfixed : cfg.ramp = false)
      (htime : start + cfg.durationSecs ≤ s.now) : Moved summary cfg s .deadline (s.leave start)
  | notified {start : ℕ} (hpc : s.main = .select start) (hramp : cfg.ramp = true)
      (hpermit : s.permit = true) :
      Moved summary cfg s .notified { s.leave start with permit := false }
  | ctrlC {start : ℕ} (hpc : s.main = .select start) : Moved summary cfg s .ctrlC (s.leave start)
  | finish {start : ℕ} (hpc : s.main = .joining start) :
      Moved summary cfg s .finish { s with main := .done (s.now - start) }

theorem moved_of_step (h : (runWithShutdown summary cfg).step s e = some s') :
    Moved summary cfg s e s' := by
  cases e with
  | tick =>
    obtain rfl := Option.some.inj h
    exact .tick
  | measure =>
    obtain ⟨⟨hpc, htime⟩, ⟨⟩⟩ := Option.ite_none_right_eq_some.mp h
    exact .measure hpc htime
  | rampReads =>
    obtain ⟨t, ht, hstep⟩ := Option.bind_eq_some_iff.mp h
    obtain ⟨⟨hat, hflag⟩, ⟨⟩⟩ := Option.ite_none_right_eq_some.mp hstep
    exact .rampReads ht hat hflag
  | ramp e =>
    obtain ⟨t, ht, hstep⟩ := Option.bind_eq_some_iff.mp h
    obtain ⟨hflag, hmap⟩ := Option.ite_none_right_eq_some.mp hstep
    obtain ⟨t', hstep', rfl⟩ := Option.map_eq_some_iff.mp hmap
    exact .ramp ht hflag hstep'
  | rampStores =>
    obtain ⟨t, ht, hstep⟩ := Option.bind_eq_some_iff.mp h
    obtain ⟨⟨hsat, hsaid⟩, ⟨⟩⟩ := Option.ite_none_right_eq_some.mp hstep
    exact .rampStores ht hsat hsaid
  | rampNotifies =>
    obtain ⟨hsaid, ⟨⟩⟩ := Option.ite_none_right_eq_some.mp h
    exact .rampNotifies hsaid
  | guardTick totalKb availKb =>
    obtain ⟨-, ⟨⟩⟩ := Option.ite_none_right_eq_some.mp h
    by_cases hsd : s.shutdown = true
    · rw [if_pos hsd]
      exact .guardTick totalKb availKb s.shutdown false id
    · rw [if_neg hsd]
      by_cases hlow : lowMemory totalKb availKb = true
      · rw [if_pos hlow]
        exact .guardTick totalKb availKb true false fun _ => rfl
      · rw [if_neg hlow]
        exact .guardTick totalKb availKb s.shutdown s.guarding id
  | uiStop =>
    obtain ⟨hui, ⟨⟩⟩ := Option.ite_none_right_eq_some.mp h
    exact .uiStop hui
  | uiLeft =>
    obtain ⟨⟨hui, -⟩, ⟨⟩⟩ := Option.ite_none_right_eq_some.mp h
    exact .uiLeft hui
  | workerReturned =>
    obtain ⟨hpos, ⟨⟩⟩ := Option.ite_none_right_eq_some.mp h
    exact .workerReturned hpos
  | deadline =>
    simp only [runWithShutdown, step] at h
    split at h
    · rename_i start hpc
      obtain ⟨⟨hfixed, htime⟩, ⟨⟩⟩ := Option.ite_none_right_eq_some.mp h
      exact .deadline hpc hfixed htime
    · cases h
  | notified =>
    simp only [runWithShutdown, step] at h
    split at h
    · rename_i start hpc
      obtain ⟨⟨hramp, hpermit⟩, ⟨⟩⟩ := Option.ite_none_right_eq_some.mp h
      exact .notified hpc hramp hpermit
    · cases h
  | ctrlC =>
    simp only [runWithShutdown, step] at h
    split at h
    · rename_i start hpc
      obtain rfl := Option.some.inj h
      exact .ctrlC hpc
    · cases h
  | finish =>
    simp only [runWithShutdown, step] at h
    split at h
    · rename_i start hpc
      obtain ⟨-, ⟨⟩⟩ := Option.ite_none_right_eq_some.mp h
      exact .finish hpc
    · cases h

/-- What every event but Ctrl-C keeps. -/
theorem unsignalled_invariant {I : Tasks → Prop}
    (hstep : ∀ s e s', I s → e ≠ .ctrlC → (runWithShutdown summary cfg).step s e = some s' → I s')
    {es : List RunEvent} (hsignal : .ctrlC ∉ es) (hs : I s)
    (h : (runWithShutdown summary cfg).run s es = some s') : I s' := by
  refine (runWithShutdown summary cfg).run_invariant_of_meets (C := fun _ e => e ≠ .ctrlC) hstep hs ?_ h
  refine Machine.meets_of_forall_mem _ (fun e he _ => ?_) s
  rintro rfl
  exact hsignal he

/-! ## What every run keeps -/

/-- What the ramp task has done, and what it has read, fits the flag and the permit. -/
structure RampConsistent (s : Tasks) (t : RampTask) : Prop where
  tracked : t.Tracked
  /-- A task that has left because of the flag has found it stored. -/
  stopped : t.ended = true → t.saturated = false → s.shutdown = true
  read : s.flag.isSome = true → t.atFlag = true
  found : s.flag = some true → s.shutdown = true
  said : s.said ≠ .silent → t.saturated = true
  /-- A task that has notified has left a permit for a main task that is still waiting. -/
  notified : s.said = .notified → s.main.waiting = true → s.permit = true
  permit : s.permit = true → s.said = .notified

structure Consistent (cfg : RunConfig) (s : Tasks) : Prop where
  isSome : s.ramp.isSome = cfg.ramp
  left : s.main.waiting = false → s.shutdown = true
  ramp : ∀ t, s.ramp = some t → RampConsistent s t

theorem consistent_start (cfg : RunConfig) (ui : Bool) (workers qpsPerWorker : ℕ) :
    Consistent cfg (start cfg ui workers qpsPerWorker) := by
  cases hramp : cfg.ramp with
  | false => exact ⟨by simp [start, hramp], nofun, by simp [start, hramp]⟩
  | true =>
    refine ⟨by simp [start, hramp], nofun, ?_⟩
    simp only [start, hramp, if_true, Option.some.injEq, forall_eq']
    exact ⟨RampTask.tracked_start _, nofun, nofun, nofun, fun h => absurd rfl h, nofun, nofun⟩

/-- A step that the ramp task has no part in: the flag only goes up, and the main task does not come
back. -/
theorem RampConsistent.mono {t : RampTask} (ht : RampConsistent s t) (hflag : s'.flag = s.flag)
    (hsaid : s'.said = s.said) (hpermit : s'.permit = s.permit)
    (hsd : s.shutdown = true → s'.shutdown = true)
    (hmain : s'.main.waiting = true → s.main.waiting = true) : RampConsistent s' t where
  tracked := ht.tracked
  stopped hend hsat := hsd (ht.stopped hend hsat)
  read := hflag ▸ ht.read
  found h := hsd (ht.found (hflag ▸ h))
  said := hsaid ▸ ht.said
  notified h hwait := hpermit ▸ ht.notified (hsaid ▸ h) (hmain hwait)
  permit h := hsaid ▸ ht.permit (hpermit ▸ h)

/-- The ramp task takes an event. -/
theorem RampConsistent.ramp {t t' : RampTask} {e : RampEvent} (ht : RampConsistent s t)
    (hflag : e.flag? = s.flag) (hstep : (rampTask summary cfg.task).step t e = some t') :
    RampConsistent { s with ramp := some t', flag := none } t' := by
  have hrun := (RampTask.step_outcomes hstep).1
  -- a task in its loop has not said anything
  have hsilent : s.said = .silent := by
    by_contra hsaid
    exact absurd (hrun.symm.trans (RampTask.ended_of_saturated (ht.said hsaid))) nofun
  refine ⟨ht.tracked.step hstep, fun hend hsat => ?_, nofun, nofun, fun h => absurd hsilent h,
    fun h => absurd (hsilent.symm.trans h) nofun, ht.permit⟩
  exact ht.found (hflag ▸ RampTask.flag_of_stopped hstep hend hsat ht.tracked)

/-- The clock has no part in it. -/
theorem Consistent.later (hs : Consistent cfg s) (now : ℕ) : Consistent cfg { s with now := now } :=
  ⟨hs.isSome, hs.left, fun t ht => (hs.ramp t ht).mono rfl rfl rfl id id⟩

theorem Consistent.step (hs : Consistent cfg s) (h : (runWithShutdown summary cfg).step s e = some s') :
    Consistent cfg s' := by
  cases moved_of_step h with
  | tick => exact hs.later _
  | measure hpc =>
    refine ⟨hs.isSome, nofun, fun t ht => (hs.ramp t ht).mono rfl rfl rfl id fun _ => ?_⟩
    rw [hpc]
    rfl
  | @rampReads t ht hat hflag =>
    refine ⟨hs.isSome, hs.left, fun u hu => ?_⟩
    obtain rfl : t = u := Option.some.inj (ht.symm.trans hu)
    obtain ⟨htracked, hstopped, -, -, hsaid, hnotified, hpermit⟩ := hs.ramp t ht
    exact ⟨htracked, hstopped, fun _ => hat, fun h => Option.some.inj h, hsaid, hnotified, hpermit⟩
  | @ramp t t' e ht hflag hstep =>
    refine ⟨?_, hs.left, fun u hu => ?_⟩
    · rw [← hs.isSome, ht]
      rfl
    · cases hu
      exact (hs.ramp t ht).ramp hflag hstep
  | @rampStores t ht hsat hsaid =>
    refine ⟨hs.isSome, fun _ => rfl, fun u hu => ?_⟩
    obtain rfl : t = u := Option.some.inj (ht.symm.trans hu)
    obtain ⟨htracked, -, hread, -, -, -, hpermit⟩ := hs.ramp t ht
    refine ⟨htracked, fun _ _ => rfl, hread, fun _ => rfl, fun _ => hsat, nofun, fun h => ?_⟩
    exact absurd (hsaid.symm.trans (hpermit h)) nofun
  | rampNotifies hsaid =>
    refine ⟨hs.isSome, hs.left, fun t ht => ?_⟩
    obtain ⟨htracked, hstopped, hread, hfound, hsat, -, -⟩ := hs.ramp t ht
    exact ⟨htracked, hstopped, hread, hfound, fun _ => hsat (by rw [hsaid]; nofun), fun _ _ => rfl,
      fun _ => rfl⟩
  | guardTick _ _ shutdown guarding hkeep =>
    exact ⟨hs.isSome, fun hleft => hkeep (hs.left hleft),
      fun t ht => (hs.ramp t ht).mono rfl rfl rfl hkeep id⟩
  | uiStop =>
    exact ⟨hs.isSome, fun _ => rfl, fun t ht => (hs.ramp t ht).mono rfl rfl rfl (fun _ => rfl) id⟩
  | uiLeft | workerReturned =>
    exact ⟨hs.isSome, hs.left, fun t ht => (hs.ramp t ht).mono rfl rfl rfl id id⟩
  | deadline | ctrlC =>
    exact ⟨hs.isSome, fun _ => rfl, fun t ht => (hs.ramp t ht).mono rfl rfl rfl (fun _ => rfl) nofun⟩
  | notified =>
    refine ⟨hs.isSome, fun _ => rfl, fun t ht => ?_⟩
    obtain ⟨htracked, -, hread, -, hsaid, -, -⟩ := hs.ramp t ht
    exact ⟨htracked, fun _ _ => rfl, hread, fun _ => rfl, hsaid, fun _ => nofun, nofun⟩
  | finish hpc =>
    exact ⟨hs.isSome, fun _ => hs.left (by rw [hpc]; rfl),
      fun t ht => (hs.ramp t ht).mono rfl rfl rfl id nofun⟩

/-! ## A ramp that was stopped -/

/-- The flag is stored while the main task waits for the notification, and not by a ramp task that has
saturated. -/
structure Stopped (s : Tasks) : Prop where
  waiting : s.main.waiting = true
  shutdown : s.shutdown = true
  permit : s.permit = false
  ramp : ∃ t, s.ramp = some t ∧ t.saturated = false

/-- The ramp task has found the flag down, and has still to look at the window that has ended. -/
def Judging (s : Tasks) : Prop :=
  s.flag = some false ∧ ∃ t sentW0 rx0, s.ramp = some t ∧ t.pc = .measuring sentW0 rx0

/-- What a step leaves of it that the ramp task has no part in. -/
theorem Stopped.mono (hs : s.Stopped) (hramp : s'.ramp = s.ramp) (hpermit : s'.permit = s.permit)
    (hsd : s.shutdown = true → s'.shutdown = true) (hmain : s'.main.waiting = true) : s'.Stopped :=
  ⟨hmain, hsd hs.shutdown, hpermit.trans hs.permit, hramp ▸ hs.ramp⟩

theorem judging_congr (hflag : s'.flag = s.flag) (hramp : s'.ramp = s.ramp) :
    s'.Judging ↔ s.Judging := by
  rw [Judging, Judging, hflag, hramp]

/-- What an event but Ctrl-C does to a stopped run: it stays as it is, and keeps the window it is looking
at if it has one, or the ramp task looks at that window and saturates. -/
theorem Stopped.step (hramp : cfg.ramp = true) (hc : Consistent cfg s) (hs : s.Stopped) (hne : e ≠ .ctrlC)
    (h : (runWithShutdown summary cfg).step s e = some s') :
    s'.Stopped ∧ (s'.Judging → s.Judging) ∨
      s.Judging ∧ ∃ t, s'.ramp = some t ∧ t.saturated = true := by
  obtain ⟨t₀, ht₀, hsat₀⟩ := hs.ramp
  cases moved_of_step h with
  | tick | uiLeft | workerReturned =>
    exact .inl ⟨hs.mono rfl rfl id hs.waiting, (judging_congr rfl rfl).mp⟩
  | measure => exact .inl ⟨hs.mono rfl rfl id rfl, (judging_congr rfl rfl).mp⟩
  | rampReads =>
    -- the flag is read as it is
    refine .inl ⟨hs.mono rfl rfl id hs.waiting, fun hj => ?_⟩
    exact absurd (hs.shutdown.symm.trans (Option.some.inj hj.1)) nofun
  | @ramp t t' e ht hflag hstep =>
    cases hsat : t'.saturated with
    | false => exact .inl ⟨⟨hs.waiting, hs.shutdown, hs.permit, t', rfl, hsat⟩, fun hj => by cases hj.1⟩
    | true =>
      obtain ⟨hdown, sentW0, rx0, hpc⟩ := RampTask.exists_measuring_of_saturated hstep hsat
      exact .inr ⟨⟨hflag ▸ hdown, t, sentW0, rx0, ht, hpc⟩, t', rfl, hsat⟩
  | @rampStores t ht hsat =>
    obtain rfl := Option.some.inj (ht₀.symm.trans ht)
    exact absurd (hsat₀.symm.trans hsat) nofun
  | rampNotifies hsaid =>
    have hsat := (hc.ramp t₀ ht₀).said (by rw [hsaid]; nofun)
    exact absurd (hsat₀.symm.trans hsat) nofun
  | guardTick _ _ shutdown guarding hkeep =>
    exact .inl ⟨hs.mono rfl rfl hkeep hs.waiting, (judging_congr rfl rfl).mp⟩
  | uiStop => exact .inl ⟨hs.mono rfl rfl (fun _ => rfl) hs.waiting, (judging_congr rfl rfl).mp⟩
  | deadline _ hfixed => exact absurd (hfixed.symm.trans hramp) nofun
  | notified _ _ hpermit => exact absurd (hs.permit.symm.trans hpermit) nofun
  | ctrlC => exact absurd rfl hne
  | finish hpc => exact absurd (hpc ▸ hs.waiting) nofun

/-- Stopped for good: there is no window left whose end could still notify the main task. -/
def Stranded (s : Tasks) : Prop := s.Stopped ∧ ¬ s.Judging

/-- Nothing but Ctrl-C frees a stranded run. -/
theorem Stranded.step (hramp : cfg.ramp = true) (hc : Consistent cfg s) (hs : s.Stranded)
    (hne : e ≠ .ctrlC) (h : (runWithShutdown summary cfg).step s e = some s') : s'.Stranded := by
  obtain ⟨hstopped, hjudging⟩ | ⟨hjudging, -⟩ := hs.1.step hramp hc hne h
  · exact ⟨hstopped, fun hj => hs.2 (hjudging hj)⟩
  · exact absurd hjudging hs.2

/-! ## A ramp that was not -/

/-- The steps the tasks have left together. -/
def fuel (s : Tasks) : ℕ :=
  s.main.left + (s.ramp.elim 0 RampTask.left - s.flag.isSome.toNat + s.said.left) + s.ui.toNat + s.workers

theorem fuel_start (hramp : cfg.ramp = true) (ui : Bool) (workers qpsPerWorker : ℕ) :
    (start cfg ui workers qpsPerWorker).fuel = 133 + ui.toNat + workers := by
  simp only [fuel, start, hramp, if_true, Option.elim_some, RampTask.left_start, MainPc.left,
    Announcement.left, Option.isSome_none, Bool.toNat_false]

/-- No event adds to the steps that are left, and every step of the tasks takes one of them. -/
theorem Consistent.fuel_step (hs : Consistent cfg s)
    (h : (runWithShutdown summary cfg).step s e = some s') :
    s'.fuel + e.advances.toNat ≤ s.fuel := by
  cases moved_of_step h with
  | tick => exact le_refl _
  | measure hpc | finish hpc =>
    simp only [fuel, hpc, MainPc.left, RunEvent.advances, Bool.toNat_true]
    omega
  | @rampReads t ht hat hflag =>
    have hrun : t.ended = false := by
      cases hpc : t.pc <;> simp [RampTask.atFlag, RampTask.ended, hpc] at hat ⊢
    have htwo := RampTask.two_le_left hat ((hs.ramp t ht).tracked hrun).lt
    simp only [fuel, ht, hflag, Option.elim_some, Option.isSome_some, Option.isSome_none,
      RunEvent.advances, Bool.toNat_true, Bool.toNat_false]
    omega
  | @ramp t t' e ht hflag hstep =>
    have hlt := (hs.ramp t ht).tracked.left_lt hstep
    rw [hflag] at hlt
    simp only [fuel, ht, Option.elim_some, Option.isSome_none, RunEvent.advances,
      Bool.toNat_true, Bool.toNat_false]
    omega
  | @rampStores t ht hsat hsaid =>
    simp only [fuel, ht, hsaid, Option.elim_some, Announcement.left, RunEvent.advances,
      Bool.toNat_true]
    omega
  | rampNotifies hsaid =>
    simp only [fuel, hsaid, Announcement.left, RunEvent.advances, Bool.toNat_true]
    omega
  | guardTick => exact le_refl _
  | uiStop => simp [fuel, RunEvent.advances]
  | uiLeft hui =>
    simp only [fuel, hui, RunEvent.advances, Bool.toNat_true, Bool.toNat_false]
    omega
  | workerReturned hpos =>
    simp only [fuel, RunEvent.advances, Bool.toNat_true]
    omega
  | deadline hpc | notified hpc =>
    simp only [fuel, leave, hpc, MainPc.left, RunEvent.advances, Bool.toNat_true]
    omega
  | ctrlC hpc =>
    simp only [fuel, leave, hpc, MainPc.left, RunEvent.advances, Bool.toNat_false]
    omega

/-- The snapshot has been taken. -/
def Done (s : Tasks) : Prop := ∃ elapsedSecs, s.main = .done elapsedSecs

/-- A main task that has left the `select!` is not stopped. -/
theorem not_stopped_of_left (h : s.main.waiting = false) : ¬ s.Stopped :=
  fun hs => absurd (h.symm.trans hs.waiting) nofun

/-- A ramp task in its loop takes a step, which does not touch the flag. -/
theorem Consistent.exists_ramp_step (summary : List ℕ → LatencySummary) (hs : Consistent cfg s)
    {t : RampTask} (ht : s.ramp = some t) (hend : t.ended = false) :
    ∃ e s', e.advances = true ∧ (runWithShutdown summary cfg).step s e = some s' ∧
      s'.main = s.main ∧ s'.shutdown = s.shutdown := by
  by_cases hread : s.flag.isSome = t.atFlag
  · obtain ⟨e, t', hflag, hstep⟩ := RampTask.exists_step summary cfg.task hend hread
    refine ⟨.ramp e, { s with ramp := some t', flag := none }, rfl, ?_, rfl, rfl⟩
    simp only [runWithShutdown, Tasks.step, ht, Option.bind_some, if_pos hflag, hstep, Option.map_some]
  · -- it has come to the flag and not read it yet
    have hnone : s.flag = none := by
      cases hflag : s.flag with
      | none => rfl
      | some b => exact absurd (by rw [hflag, (hs.ramp t ht).read (by rw [hflag]; rfl)]; rfl) hread
    have hat : t.atFlag = true := by
      rw [hnone] at hread
      simpa using Ne.symm hread
    refine ⟨.rampReads, { s with flag := some s.shutdown }, rfl, ?_, rfl, rfl⟩
    simp only [runWithShutdown, Tasks.step, ht, Option.bind_some]
    exact if_pos ⟨hat, hnone⟩

/-- A ramp task that has saturated says so. -/
theorem exists_announcement (summary : List ℕ → LatencySummary) (cfg : RunConfig) {t : RampTask}
    (ht : s.ramp = some t) (hsat : t.saturated = true) (hsaid : s.said ≠ .notified) :
    ∃ e s', e.advances = true ∧ (runWithShutdown summary cfg).step s e = some s' ∧
      s'.ramp = some t := by
  cases hstage : s.said with
  | silent =>
    refine ⟨.rampStores, { s with shutdown := true, said := .stored }, rfl, ?_, ht⟩
    simp only [runWithShutdown, Tasks.step, ht, Option.bind_some]
    exact if_pos ⟨hsat, hstage⟩
  | stored => exact ⟨.rampNotifies, _, rfl, if_pos hstage, ht⟩
  | notified => exact absurd hstage hsaid

theorem not_stopped_of_saturated {t : RampTask} (ht : s.ramp = some t) (hsat : t.saturated = true) :
    ¬ s.Stopped := by
  rintro ⟨-, -, -, u, hu, hgo⟩
  obtain rfl := Option.some.inj (ht.symm.trans hu)
  exact absurd (hgo.symm.trans hsat) nofun

/-- A run that is not stopped goes on until it is done. -/
theorem Consistent.exists_step (summary : List ℕ → LatencySummary) (hramp : cfg.ramp = true)
    (hs : Consistent cfg s) (hfree : ¬ s.Stopped) (hdone : ¬ s.Done) :
    ∃ e s', e.advances = true ∧ (runWithShutdown summary cfg).step s e = some s' ∧ ¬ s'.Stopped := by
  obtain ⟨t, ht⟩ := Option.isSome_iff_exists.mp (hs.isSome.trans hramp)
  cases hpc : s.main with
  | warmUp =>
    have hnow : cfg.warmUpSecs ≤ s.now := by simp [RunConfig.warmUpSecs, hramp]
    refine ⟨.measure, _, rfl, if_pos ⟨hpc, hnow⟩, fun hstop => hfree ?_⟩
    exact ⟨by rw [hpc]; rfl, hstop.shutdown, hstop.permit, hstop.ramp⟩
  | select start =>
    have hwait : s.main.waiting = true := by rw [hpc]; rfl
    cases hpermit : s.permit with
    | true =>
      refine ⟨.notified, { s.leave start with permit := false }, rfl, ?_, not_stopped_of_left rfl⟩
      simp only [runWithShutdown, Tasks.step, hpc, hramp, hpermit, and_self, if_true]
    | false =>
      cases hsat : t.saturated with
      | true =>
        have hsaid : s.said ≠ .notified := fun h =>
          absurd (hpermit.symm.trans ((hs.ramp t ht).notified h hwait)) nofun
        obtain ⟨e, s', he, hstep, ht'⟩ := exists_announcement summary cfg ht hsat hsaid
        exact ⟨e, s', he, hstep, not_stopped_of_saturated ht' hsat⟩
      | false =>
        -- nobody has stored the flag, so the ramp task is in its loop
        have hsd : s.shutdown = false := by
          cases hsd : s.shutdown with
          | false => rfl
          | true => exact absurd ⟨hwait, hsd, hpermit, t, ht, hsat⟩ hfree
        have hend : t.ended = false := by
          cases hend : t.ended with
          | false => rfl
          | true => exact absurd (hsd.symm.trans ((hs.ramp t ht).stopped hend hsat)) nofun
        obtain ⟨e, s', he, hstep, -, hsd'⟩ := hs.exists_ramp_step summary ht hend
        exact ⟨e, s', he, hstep, fun hstop => absurd (hsd.symm.trans (hsd'.symm.trans hstop.shutdown)) nofun⟩
  | joining start =>
    have hleft : s.main.waiting = false := by rw [hpc]; rfl
    have hsd := hs.left hleft
    by_cases hworkers : 0 < s.workers
    · exact ⟨.workerReturned, _, rfl, if_pos hworkers, not_stopped_of_left hleft⟩
    by_cases hui : s.ui = true
    · exact ⟨.uiLeft, _, rfl, if_pos ⟨hui, hsd⟩, not_stopped_of_left hleft⟩
    by_cases hreturned : s.returned t = true
    · refine ⟨.finish, { s with main := .done (s.now - start) }, rfl, ?_, not_stopped_of_left rfl⟩
      simp only [runWithShutdown, Tasks.step, hpc, ht, Option.all_some, hreturned]
      exact if_pos ⟨by omega, by simpa using hui, trivial⟩
    · cases hsat : t.saturated with
      | true =>
        have hsaid : s.said ≠ .notified := by simpa [returned, hsat] using hreturned
        obtain ⟨e, s', he, hstep, ht'⟩ := exists_announcement summary cfg ht hsat hsaid
        exact ⟨e, s', he, hstep, not_stopped_of_saturated ht' hsat⟩
      | false =>
        have hend : t.ended = false := by simpa [returned, hsat] using hreturned
        obtain ⟨e, s', he, hstep, hmain, -⟩ := hs.exists_ramp_step summary ht hend
        exact ⟨e, s', he, hstep, not_stopped_of_left (hmain ▸ hleft)⟩
  | done elapsedSecs => exact absurd ⟨elapsedSecs, hpc⟩ hdone

/-- A ramp can be in one of three ways, in every state that it can reach.

* Somebody has stopped it, and the ramp task has not found the flag down in front of a window: it stays so
  until Ctrl-C.
* Somebody has stopped it after the ramp task found the flag down at the end of a window: that window
  decides, for every event but Ctrl-C leaves it there, or ends in the first way, or the task saturates.
* Nobody has stopped it: it is done, or its tasks take another step after which it is still like that.

The tasks take at most `134 + workers` steps in a run. -/
theorem ramp_ends_unless_stopped (hramp : cfg.ramp = true) {ui : Bool} {workers qpsPerWorker : ℕ}
    {es : List RunEvent}
    (hrun : (runWithShutdown summary cfg).run (start cfg ui workers qpsPerWorker) es = some s) :
    es.countP RunEvent.advances ≤ 134 + workers ∧
      (s.Stranded ∧
          (∀ es' s', .ctrlC ∉ es' → (runWithShutdown summary cfg).run s es' = some s' → s'.Stranded) ∨
        s.Stopped ∧ s.Judging ∧
          (∀ e s', e ≠ .ctrlC → (runWithShutdown summary cfg).step s e = some s' →
            s'.Stopped ∧ s'.Judging ∨ s'.Stranded ∨
              ¬ s'.Stopped ∧ ∃ t, s'.ramp = some t ∧ t.saturated = true) ∨
        ¬ s.Stopped ∧
          (s.Done ∨ ∃ e s', e.advances = true ∧ (runWithShutdown summary cfg).step s e = some s' ∧
            ¬ s'.Stopped)) := by
  have hkeep : ∀ s e s', Consistent cfg s → (runWithShutdown summary cfg).step s e = some s' →
      Consistent cfg s' := fun _ _ _ hs h => hs.step h
  have hstart := consistent_start cfg ui workers qpsPerWorker
  have hs := (runWithShutdown summary cfg).run_invariant hkeep hstart hrun
  constructor
  · have hcount := (runWithShutdown summary cfg).countP_add_fuel_le (p := RunEvent.advances) hkeep
      (fun _ _ _ hs h => hs.fuel_step h) hstart hrun
    have hui := ui.toNat_le
    rw [fuel_start hramp] at hcount
    omega
  by_cases hstop : s.Stopped
  · by_cases hjudging : s.Judging
    · refine .inr (.inl ⟨hstop, hjudging, fun e s' hne h => ?_⟩)
      obtain ⟨hstop', -⟩ | ⟨-, t, ht, hsat⟩ := hstop.step hramp hs hne h
      · by_cases hjudging' : s'.Judging
        · exact .inl ⟨hstop', hjudging'⟩
        · exact .inr (.inl ⟨hstop', hjudging'⟩)
      · exact .inr (.inr ⟨not_stopped_of_saturated ht hsat, t, ht, hsat⟩)
    · refine .inl ⟨⟨hstop, hjudging⟩, fun es' s' hsignal h => ?_⟩
      exact (unsignalled_invariant (I := fun s => Consistent cfg s ∧ s.Stranded)
        (fun _ _ _ hs hne h => ⟨hs.1.step h, hs.2.step hramp hs.1 hne h⟩) hsignal
        ⟨hs, hstop, hjudging⟩ h).2
  · refine .inr (.inr ⟨hstop, ?_⟩)
    by_cases hdone : s.Done
    · exact .inl hdone
    · exact .inr (hs.exists_step summary hramp hstop hdone)

/-- A ramp with one worker. -/
def quietRamp : RunConfig := ⟨true, 10, 5, ⟨false, 1, 5⟩⟩

/-- The key `q` during the prime. -/
def quit : List RunEvent :=
  [.ramp .prime, .measure, .uiStop, .workerReturned, .rampReads, .ramp (.primed true)]

/-- The ramp task leaves at the end of the prime, and the run is stranded. -/
theorem ramp_ends_unless_stopped_quit :
    ∃ s, (runWithShutdown (fun _ => {}) quietRamp).run (start quietRamp true 1 100000) quit = some s ∧
      s.Stranded ∧
      ∀ es' s', .ctrlC ∉ es' →
        (runWithShutdown (fun _ => {}) quietRamp).run s es' = some s' → s'.Stranded := by
  have hrun : (runWithShutdown (fun _ => {}) quietRamp).run (start quietRamp true 1 100000) quit
      = some _ := rfl
  obtain ⟨-, ⟨hstr, hstays⟩ | ⟨-, hjudging, -⟩ | ⟨hfree, -⟩⟩ := ramp_ends_unless_stopped rfl hrun
  · exact ⟨_, hrun, hstr, hstays⟩
  · cases hjudging.1
  · exact absurd ⟨rfl, rfl, rfl, _, rfl, rfl⟩ hfree

/-- The key `q` after the flag was found down at the end of the first window: this window decides. -/
example : ∃ s, (runWithShutdown (fun _ => {}) ⟨true, 10, 5, ⟨false, 1, 0⟩⟩).run
    (start ⟨true, 10, 5, ⟨false, 1, 0⟩⟩ true 1 100000)
    [.measure, .ramp .skipPrime, .ramp .storeRate, .rampReads, .ramp (.openWindow false .new []), .rampReads,
      .uiStop] = some s ∧ s.Stopped ∧ s.Judging :=
  ⟨_, rfl, ⟨rfl, rfl, rfl, _, rfl, rfl⟩, rfl, _, _, _, rfl, rfl⟩

/-! ## A run of fixed length -/

/-- What the clock has reached when the main task got as far as it is, if nobody pressed Ctrl-C. -/
def OnTime (cfg : RunConfig) (s : Tasks) : Prop :=
  match s.main with
  | .warmUp => True
  | .select start => start ≤ s.now
  | .joining start => start + cfg.durationSecs ≤ s.now
  | .done elapsedSecs => cfg.durationSecs ≤ elapsedSecs

theorem OnTime.step (hfixed : cfg.ramp = false) (hs : s.OnTime cfg) (hne : e ≠ .ctrlC)
    (h : (runWithShutdown summary cfg).step s e = some s') : s'.OnTime cfg := by
  cases moved_of_step h with
  | tick => cases hpc : s.main <;> simp only [OnTime, hpc] at hs ⊢ <;> omega
  | measure => exact le_refl s.now
  | rampReads | ramp | rampStores | rampNotifies | guardTick | uiStop | uiLeft | workerReturned =>
    exact hs
  | deadline _ _ htime => exact htime
  | notified _ hramp => exact absurd (hfixed.symm.trans hramp) nofun
  | ctrlC => exact absurd rfl hne
  | finish hpc =>
    simp only [OnTime, hpc] at hs ⊢
    omega

/-- The run can come to its snapshot without Ctrl-C. -/
def CanEnd (summary : List ℕ → LatencySummary) (cfg : RunConfig) (s : Tasks) : Prop :=
  ∃ es s', .ctrlC ∉ es ∧ (runWithShutdown summary cfg).run s es = some s' ∧ s'.Done

theorem CanEnd.of_run {es : List RunEvent} (hsignal : .ctrlC ∉ es)
    (h : (runWithShutdown summary cfg).run s es = some s') (hend : CanEnd summary cfg s') :
    CanEnd summary cfg s := by
  obtain ⟨es', u, hsignal', hrun, hdone⟩ := hend
  refine ⟨es ++ es', u, ?_, (runWithShutdown summary cfg).run_trans h hrun, hdone⟩
  rw [List.mem_append]
  exact not_or.mpr ⟨hsignal, hsignal'⟩

theorem CanEnd.of_ticks (n : ℕ) (hend : CanEnd summary cfg { s with now := s.now + n }) :
    CanEnd summary cfg s := by
  refine .of_run (show RunEvent.ctrlC ∉ List.replicate n .tick by simp [List.mem_replicate]) ?_ hend
  exact (runWithShutdown summary cfg).run_replicate (f := fun k => { s with now := s.now + k })
    fun _ _ => rfl

/-- Awaiting the handles comes to an end: the workers return and the UI sees the flag. -/
theorem Consistent.canEnd_joining (summary : List ℕ → LatencySummary) (hfixed : cfg.ramp = false)
    (hs : Consistent cfg s) {start : ℕ} (hpc : s.main = .joining start) : CanEnd summary cfg s := by
  have hsd : s.shutdown = true := hs.left (by rw [hpc]; rfl)
  have hramp : s.ramp = none := by
    rw [← Option.isNone_iff_eq_none, ← Option.isSome_eq_false_iff]
    exact hs.isSome.trans hfixed
  have hworkers : (runWithShutdown summary cfg).run s (List.replicate s.workers .workerReturned)
      = some { s with workers := 0 } := by
    have hrun := (runWithShutdown summary cfg).run_replicate (e := .workerReturned) (n := s.workers)
      (f := fun k => { s with workers := s.workers - k }) fun k hk => by
        rw [show s.workers - (k + 1) = s.workers - k - 1 by omega]
        exact if_pos (by simp only; omega)
    simpa using hrun
  have hfinish : ∀ u : Tasks, u.main = .joining start → u.workers = 0 → u.ui = false → u.ramp = none →
      CanEnd summary cfg u := by
    intro u hpc hworkers hui hramp
    refine ⟨[.finish], { u with main := .done (u.now - start) }, by simp, ?_, _, rfl⟩
    refine (runWithShutdown summary cfg).run_single ?_
    simp only [runWithShutdown, Tasks.step, hpc, hworkers, hui, hramp, Option.all_none, and_self,
      if_true]
  refine .of_run (by simp) hworkers ?_
  by_cases hui : s.ui = true
  · refine .of_run (show RunEvent.ctrlC ∉ [.uiLeft] by simp)
      ((runWithShutdown summary cfg).run_single (if_pos ⟨hui, hsd⟩)) ?_
    exact hfinish _ hpc rfl rfl hramp
  · exact hfinish _ hpc rfl (by simpa using hui) hramp

/-- Waiting comes to an end with the clock. -/
theorem Consistent.canEnd_select (summary : List ℕ → LatencySummary) (hfixed : cfg.ramp = false)
    (hs : Consistent cfg s) {start : ℕ} (hpc : s.main = .select start) : CanEnd summary cfg s := by
  refine .of_ticks (start + cfg.durationSecs) ?_
  have hstep : (runWithShutdown summary cfg).step { s with now := s.now + (start + cfg.durationSecs) }
      .deadline = some (leave { s with now := s.now + (start + cfg.durationSecs) } start) := by
    simp only [runWithShutdown, Tasks.step, hpc]
    exact if_pos ⟨hfixed, by omega⟩
  refine .of_run (by simp) ((runWithShutdown summary cfg).run_single hstep) ?_
  exact ((hs.later _).step hstep).canEnd_joining summary hfixed rfl

theorem Consistent.canEnd (summary : List ℕ → LatencySummary) (hfixed : cfg.ramp = false)
    (hs : Consistent cfg s) : CanEnd summary cfg s := by
  cases hpc : s.main with
  | warmUp =>
    refine .of_ticks cfg.warmUpSecs ?_
    have hstep : (runWithShutdown summary cfg).step { s with now := s.now + cfg.warmUpSecs } .measure
        = some { s with main := .select (s.now + cfg.warmUpSecs), now := s.now + cfg.warmUpSecs } :=
      if_pos ⟨hpc, Nat.le_add_left _ _⟩
    refine .of_run (by simp) ((runWithShutdown summary cfg).run_single hstep) ?_
    exact ((hs.later _).step hstep).canEnd_select summary hfixed rfl
  | select start => exact hs.canEnd_select summary hfixed hpc
  | joining start => exact hs.canEnd_joining summary hfixed hpc
  | done elapsedSecs => exact ⟨[], s, by simp, rfl, elapsedSecs, hpc⟩

/-- A run of fixed length that nobody ends with Ctrl-C can always come to its snapshot, and never before its
time: whatever the UI and the memory guard do, the answers are divided by the whole length. -/
theorem fixed_run_keeps_its_length (hfixed : cfg.ramp = false) {ui : Bool}
    {workers qpsPerWorker : ℕ} {es : List RunEvent} (hsignal : .ctrlC ∉ es)
    (hrun : (runWithShutdown summary cfg).run (start cfg ui workers qpsPerWorker) es = some s) :
    CanEnd summary cfg s ∧
      ∀ elapsedSecs : ℕ, s.main = .done elapsedSecs →
        cfg.durationSecs ≤ elapsedSecs ∧
          ∀ st : StatsCollector,
            (st.snapshot summary elapsedSecs).avgQps * cfg.durationSecs ≤ st.completed := by
  have hs := (runWithShutdown summary cfg).run_invariant (fun _ _ _ hs h => Consistent.step hs h)
    (consistent_start cfg ui workers qpsPerWorker) hrun
  refine ⟨hs.canEnd summary hfixed, fun elapsedSecs hpc => ?_⟩
  have hstart : (start cfg ui workers qpsPerWorker).OnTime cfg := trivial
  have hontime : s.OnTime cfg :=
    unsignalled_invariant (fun _ _ _ hs hne h => hs.step hfixed hne h) hsignal hstart hrun
  simp only [OnTime, hpc] at hontime
  refine ⟨hontime, fun st => ?_⟩
  simp only [StatsCollector.snapshot]
  split
  · rename_i hpos
    rw [div_mul_eq_mul_div, div_le_iff₀ hpos]
    exact mul_le_mul_of_nonneg_left (Nat.cast_le.mpr hontime) (Nat.cast_nonneg _)
  · simp

/-- A run of two seconds without a warm-up. -/
def shortRun : RunConfig := ⟨false, 2, 0, ⟨false, 1, 0⟩⟩

/-- The UI stops the run at once, and it still lasts its two seconds. -/
theorem fixed_run_keeps_its_length_quit :
    ∃ s, (runWithShutdown (fun _ => {}) shortRun).run (start shortRun true 1 0)
        [.uiStop, .measure, .workerReturned, .tick, .tick, .deadline, .finish] = some s ∧
      s.main = .done 2 ∧
      ∀ st : StatsCollector, (st.snapshot (fun _ => {}) (2 : ℕ)).avgQps * (2 : ℕ) ≤ st.completed := by
  have hrun : (runWithShutdown (fun _ => {}) shortRun).run (start shortRun true 1 0)
      [.uiStop, .measure, .workerReturned, .tick, .tick, .deadline, .finish] = some _ := rfl
  exact ⟨_, hrun, rfl, ((fixed_run_keeps_its_length rfl (by simp) hrun).2 2 rfl).2⟩

end Tasks

end Dnsmark.Engine
