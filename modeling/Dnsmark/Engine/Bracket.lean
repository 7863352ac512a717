import Dnsmark.Engine.Knee
import Mathlib.Data.List.MinMax

/-!
# The bracket and the targets that were tried

The controller keeps no history: `lastStableQps`, `lo` and `hi` are all it remembers of the targets it
tried.  Here a session of calls keeps the history beside it, with no assumption on the verdicts, so an
oracle may contradict itself and calls may go on after saturation.

One fact carries everything else: the next target is never below a sustained one and never above a
failed one (`Tracks.best_le`, `Tracks.le_failed`).  So each verdict moves exactly one end of the
bracket, to the target it is about, and that end stays the extreme one of the history.
-/

namespace Dnsmark.Engine

/-- The arguments of one call of `advance`. -/
structure Observation where
  achievedQps : ℕ
  p50Us : ℕ
deriving DecidableEq, Repr

/-- A target that was tried, and the verdict on it. -/
structure Verdict where
  target : ℕ
  ok : Bool
deriving DecidableEq, Repr

namespace Verdict

/-- The largest target judged sustained, 0 if there is none. -/
def largestSustained (history : List Verdict) : ℕ :=
  ((history.filter (·.ok)).map (·.target)).max?.getD 0

/-- The smallest target judged not sustained. -/
def smallestFailed (history : List Verdict) : Option ℕ :=
  ((history.filter (!·.ok)).map (·.target)).min?

variable {target : ℕ} {history : List Verdict}

theorem largestSustained_cons (ok : Bool) (h : largestSustained history ≤ target) :
    largestSustained (⟨target, ok⟩ :: history)
      = if ok then target else largestSustained history := by
  cases ok with
  | false => rfl
  | true =>
    unfold largestSustained at h ⊢
    rw [List.filter_cons_of_pos rfl, List.map_cons, List.max?_cons, if_pos rfl, Option.getD_some]
    cases hmax : ((history.filter (·.ok)).map (·.target)).max? with
    | none => rfl
    | some t =>
      rw [hmax] at h
      exact max_eq_left h

theorem smallestFailed_cons (ok : Bool) (h : ∀ t ∈ smallestFailed history, target ≤ t) :
    smallestFailed (⟨target, ok⟩ :: history)
      = if ok then smallestFailed history else some target := by
  cases ok with
  | true => rfl
  | false =>
    unfold smallestFailed at h ⊢
    rw [List.filter_cons_of_pos rfl, List.map_cons, List.min?_cons]
    cases hmin : ((history.filter (!·.ok)).map (·.target)).min? with
    | none => rfl
    | some t => exact congrArg some (min_eq_left (h t hmin))

/-- A failed target is at or above the smallest one. -/
theorem exists_smallestFailed_le {v : Verdict} (hv : v ∈ history) (hok : v.ok = false) :
    ∃ hi ∈ smallestFailed history, hi ≤ v.target := by
  have hmem : v.target ∈ (history.filter (!·.ok)).map (·.target) :=
    List.mem_map_of_mem (List.mem_filter.mpr ⟨hv, by simp [hok]⟩)
  cases hmin : smallestFailed history with
  | none => exact absurd hmem (List.min?_eq_none_iff.mp hmin ▸ List.not_mem_nil)
  | some hi => exact ⟨hi, rfl, (List.min?_eq_some_iff.mp hmin).2 _ hmem⟩

theorem largestSustained_eq_zero (h : ∀ v ∈ history, v.ok = false) : largestSustained history = 0 := by
  have hnone : history.filter (·.ok) = [] := List.filter_eq_nil_iff.mpr fun v hv => by simp [h v hv]
  rw [largestSustained, hnone]
  rfl

end Verdict

/-- A controller, the verdicts it has given, newest first, and its last report. -/
structure Session where
  ctrl : RampController
  history : List Verdict
  report : Option Report

namespace Session

open RampController

/-- Before the first call. -/
def start (useXdp : Bool) : Session := ⟨new useXdp, [], none⟩

/-- One call of `advance`. -/
def call (s : Session) (o : Observation) : Session :=
  let verdict := (s.ctrl.observe o.p50Us).sustained o.achievedQps o.p50Us
  let (ctrl, report) := s.ctrl.advance o.achievedQps o.p50Us
  ⟨ctrl, ⟨s.ctrl.currentQps, verdict⟩ :: s.history, some report⟩

/-- The calls for a sequence of observations, from `new` on. -/
def after (useXdp : Bool) (obs : List Observation) : Session := obs.foldl call (start useXdp)

/-- The last call reported saturation. -/
def Saturated (s : Session) : Prop := ∃ r, s.report = some r ∧ r.saturated

theorem after_concat (useXdp : Bool) (obs : List Observation) (o : Observation) :
    after useXdp (obs ++ [o]) = (after useXdp obs).call o := by
  simp only [after, List.foldl_append, List.foldl_cons, List.foldl_nil]

/-- A call makes one move from the controller that has seen the latency. -/
theorem call_moved (s : Session) (o : Observation) :
    ∃ ok r, (s.call o).history = ⟨s.ctrl.currentQps, ok⟩ :: s.history ∧ (s.call o).report = some r ∧
      Moved (s.ctrl.observe o.p50Us) ok (s.call o).ctrl r :=
  ⟨_, _, rfl, rfl, s.ctrl.advance_moved o.achievedQps o.p50Us⟩

/-! ## The invariant -/

/-- What the controller remembers is the two extremes of the history, with the next target between
them. -/
structure Tracks (history : List Verdict) (c : RampController) : Prop where
  best_eq : c.best = Verdict.largestSustained history
  failed_eq : c.failed = Verdict.smallestFailed history
  best_le : c.best ≤ c.currentQps
  le_failed : ∀ hi ∈ c.failed, c.currentQps ≤ hi
  pos : 1 ≤ c.currentQps
  le_max : c.currentQps ≤ startQps * 2 ^ 19
  failed_le : ∀ hi ∈ c.failed, hi ≤ startQps * 2 ^ 19
  doubling : c.phase = .exp → c.lo = 0 ∧ c.currentQps = startQps * 2 ^ min c.doublings 19

theorem tracks_start (useXdp : Bool) : Tracks (start useXdp).history (start useXdp).ctrl where
  best_eq := rfl
  failed_eq := rfl
  best_le := Nat.zero_le _
  le_failed := nofun
  pos := show 1 ≤ startQps by decide
  le_max := show startQps ≤ startQps * 2 ^ 19 by decide
  failed_le := nofun
  doubling _ := ⟨rfl, rfl⟩

variable {history : List Verdict} {c c' : RampController} {ok : Bool} {r : Report}

theorem Tracks.observe (h : Tracks history c) (p50Us : ℕ) : Tracks history (c.observe p50Us) := by
  constructor <;> simp only [observe_best, observe_failed, observe_currentQps, observe_phase,
    observe_lo, observe_doublings]
  exacts [h.best_eq, h.failed_eq, h.best_le, h.le_failed, h.pos, h.le_max, h.failed_le,
    h.doubling]

/-- A bracket that has not converged is wide enough for a target strictly inside. -/
theorem mid_between (h : ¬ c.converged) :
    c.lo < Bisection.mid c.lo c.hi ∧ Bisection.mid c.lo c.hi < c.hi := by
  unfold converged at h
  rw [decide_eq_true_iff] at h
  unfold Bisection.mid
  omega

/-- The upper end of the search while it is bisecting. -/
theorem mem_failed_iff (hphase : c.phase = .bisect) {t : ℕ} : t ∈ c.failed ↔ t = c.hi := by
  simp only [failed, hphase, Option.mem_def, Option.some.injEq, eq_comm]

theorem best_of_bisect (hphase : c.phase = .bisect) : c.best = c.lo := by
  simp only [best, hphase]

/-- A verdict moves one end of the search to the target it is about. -/
theorem Tracks.ends_around (h : Tracks history c) (hm : Moved c ok c' r) :
    c'.best ≤ c.currentQps ∧ ∀ hi ∈ c'.failed, c.currentQps ≤ hi := by
  obtain ⟨-, hbest, hfailed⟩ := hm.ends
  rw [hbest, hfailed]
  cases ok with
  | true => exact ⟨le_rfl, h.le_failed⟩
  | false =>
    refine ⟨h.best_le, ?_⟩
    rintro hi ⟨⟩
    exact le_rfl

/-- The upper end never leaves the range of the doubling phase. -/
theorem Tracks.failed_le_moved (h : Tracks history c) (hm : Moved c ok c' r) :
    ∀ hi ∈ c'.failed, hi ≤ startQps * 2 ^ 19 := by
  obtain ⟨-, -, hfailed⟩ := hm.ends
  rw [hfailed]
  cases ok with
  | true => exact h.failed_le
  | false =>
    rintro hi ⟨⟩
    exact h.le_max

/-- A midpoint of a bracket in range is in range, and between the ends. -/
theorem target_of_mid (hphase : c.phase = .bisect) (hconv : ¬ c.converged)
    (hhi : ∀ hi ∈ c.failed, hi ≤ startQps * 2 ^ 19) :
    (c.best ≤ Bisection.mid c.lo c.hi ∧ ∀ hi ∈ c.failed, Bisection.mid c.lo c.hi ≤ hi) ∧
      1 ≤ Bisection.mid c.lo c.hi ∧ Bisection.mid c.lo c.hi ≤ startQps * 2 ^ 19 := by
  obtain ⟨hlt, hgt⟩ := mid_between hconv
  rw [best_of_bisect hphase]
  simp only [mem_failed_iff hphase, forall_eq] at hhi ⊢
  omega

/-- The doubling phase stays within its range. -/
theorem Tracks.doubled_target (h : Tracks history c) (hp : c.phase = .exp)
    (hd : c.doublings + 1 < maxDoublings) :
    saturatingMul c.currentQps 2 = startQps * 2 ^ (c.doublings + 1) ∧
      startQps * 2 ^ (c.doublings + 1) ≤ startQps * 2 ^ 19 := by
  unfold maxDoublings at hd
  have hcur : c.currentQps = startQps * 2 ^ c.doublings := by
    rw [(h.doubling hp).2, min_eq_left (by omega)]
  rw [hcur]
  exact ⟨saturatingMul_startQps (by unfold maxDoublings; omega),
    Nat.mul_le_mul_left _ (Nat.pow_le_pow_right (by decide) (by omega))⟩

/-- The next target stays between the ends and within the range of the doubling phase. -/
theorem Tracks.target (h : Tracks history c) (hm : Moved c ok c' r) :
    (c'.best ≤ c'.currentQps ∧ ∀ hi ∈ c'.failed, c'.currentQps ≤ hi) ∧
      1 ≤ c'.currentQps ∧ c'.currentQps ≤ startQps * 2 ^ 19 := by
  have hends := h.ends_around hm
  have hhi := h.failed_le_moved hm
  have hpos := h.pos
  have hmax := h.le_max
  cases hm with
  | doubled hp hd =>
    obtain ⟨hnext, hle⟩ := h.doubled_target hp hd
    have hgrow : c.currentQps ≤ saturatingMul c.currentQps 2 := by
      rw [hnext, (h.doubling hp).2]
      exact Nat.mul_le_mul_left _ (Nat.pow_le_pow_right (by decide) (by omega))
    refine ⟨⟨hends.1.trans hgrow, ?_⟩, hpos.trans hgrow, hnext.trans_le hle⟩
    simp only [failed, hp]
    exact fun hi hmem => absurd hmem (Option.not_mem_none hi)
  | capped hp hd => exact ⟨hends, hpos, hmax⟩
  | bracketed hp c₁ hc₁ hconv =>
    exact target_of_mid (c := { c₁ with currentQps := _ }) (by rw [hc₁]) hconv hhi
  | bracketedDone hp c₁ hc₁ hconv =>
    subst hc₁
    exact ⟨hends, hpos, hmax⟩
  | halved hp ok c₁ hc₁ hgo =>
    exact target_of_mid (c := { c₁ with currentQps := _ }) (by rw [hc₁, ← hp])
      (fun hconv => hgo (.inl hconv)) hhi
  | halvedDone hp ok c₁ hc₁ hstop =>
    subst hc₁
    exact ⟨hends, hpos, hmax⟩

/-- A call keeps track. -/
theorem Tracks.moved (h : Tracks history c) (hm : Moved c ok c' r) :
    Tracks (⟨c.currentQps, ok⟩ :: history) c' := by
  obtain ⟨-, hbest, hfailed⟩ := hm.ends
  obtain ⟨⟨hbest_le, hle_failed⟩, hpos, hmax⟩ := h.target hm
  refine ⟨?_, ?_, hbest_le, hle_failed, hpos, hmax, h.failed_le_moved hm, ?_⟩
  · rw [hbest, Verdict.largestSustained_cons ok (h.best_eq.ge.trans h.best_le), h.best_eq]
  · have hle : ∀ t ∈ Verdict.smallestFailed history, c.currentQps ≤ t := h.failed_eq ▸ h.le_failed
    rw [hfailed, Verdict.smallestFailed_cons ok hle, h.failed_eq]
  · intro hexp
    cases hm with
    | doubled hp hd =>
      refine ⟨(h.doubling hp).1, ?_⟩
      rw [min_eq_left (by unfold maxDoublings at hd; simp only; omega)]
      exact (h.doubled_target hp hd).1
    | capped hp hd =>
      unfold maxDoublings at hd
      obtain ⟨hlo, hcur⟩ := h.doubling hp
      rw [min_eq_right (by omega)] at hcur
      exact ⟨hlo, by rw [min_eq_right (by simp only; omega)]; exact hcur⟩
    | bracketed hp c₁ hc₁ => simp [hc₁] at hexp
    | bracketedDone hp c₁ hc₁ => simp [hc₁] at hexp
    | halved hp ok c₁ hc₁ => simp [hc₁, hp] at hexp
    | halvedDone hp ok c₁ hc₁ => simp [hc₁, hp] at hexp

/-! ## What a call reports and what it leaves behind -/

/-- A call that goes on bisecting leaves the next target at the midpoint, strictly inside. -/
theorem between_of_moved (hm : Moved c ok c' r) (hphase : c'.phase = .bisect)
    (hgo : r.saturated = false) :
    c'.lo < c'.currentQps ∧ c'.currentQps < c'.hi ∧
      c'.currentQps = c'.lo + (c'.hi - c'.lo) / 2 := by
  cases hm with
  | doubled hp => exact absurd (hp.symm.trans hphase) (by decide)
  | capped hp => exact absurd (hp.symm.trans hphase) (by decide)
  | bracketed hp c₁ hc₁ hconv =>
    obtain ⟨hlt, hgt⟩ := mid_between hconv
    exact ⟨hlt, hgt, rfl⟩
  | bracketedDone => cases hgo
  | halved hp ok c₁ hc₁ hstop =>
    obtain ⟨hlt, hgt⟩ := mid_between fun hconv => hstop (.inl hconv)
    exact ⟨hlt, hgt, rfl⟩
  | halvedDone => cases hgo

/-- A call that saturates returns the lower end of the search. -/
theorem reported_of_moved (hm : Moved c ok c' r) (hsat : r.saturated) :
    r.maxSustainableQps = c'.best := by
  cases hm with
  | doubled => cases hsat
  | capped hp => simp only [best, hp]
  | bracketed => cases hsat
  | bracketedDone hp c₁ hc₁ =>
    subst hc₁
    rfl
  | halved => cases hsat
  | halvedDone hp ok c₁ hc₁ =>
    subst hc₁
    simp only [best, hp]

/-- A call that goes on returns the next target. -/
theorem newTarget_of_moved (hm : Moved c ok c' r) (hgo : r.saturated = false) :
    r.newTargetQps = c'.currentQps := by
  cases hm with
  | doubled => rfl
  | bracketed => rfl
  | halved => rfl
  | capped => cases hgo
  | bracketedDone => cases hgo
  | halvedDone => cases hgo

/-- A call moves the ends of the bracket towards each other, and never leaves the bisection. -/
theorem Tracks.nested (h : Tracks history c) (hm : Moved c ok c' r) :
    c.lo ≤ c'.lo ∧ (c.phase = .bisect → c'.phase = .bisect ∧ c'.hi ≤ c.hi) := by
  have hbisect : c.phase = .bisect → c.lo ≤ c.currentQps ∧ c.currentQps ≤ c.hi := by
    intro hp
    exact ⟨best_of_bisect hp ▸ h.best_le, h.le_failed _ ((mem_failed_iff hp).mpr rfl)⟩
  have hexp : c.phase = .exp → c.lo = 0 ∧ c.phase ≠ .bisect := by
    intro hp
    exact ⟨(h.doubling hp).1, fun hb => absurd (hp.symm.trans hb) (by decide)⟩
  cases hm with
  | doubled hp => exact ⟨le_rfl, fun hb => absurd hb (hexp hp).2⟩
  | capped hp => exact ⟨le_rfl, fun hb => absurd hb (hexp hp).2⟩
  | bracketed hp c₁ hc₁ => exact ⟨(hexp hp).1 ▸ Nat.zero_le _, fun hb => absurd hb (hexp hp).2⟩
  | bracketedDone hp c₁ hc₁ => exact ⟨(hexp hp).1 ▸ Nat.zero_le _, fun hb => absurd hb (hexp hp).2⟩
  | halved hp ok c₁ hc₁ =>
    obtain ⟨hlo, hhi⟩ := hbisect hp
    subst hc₁
    cases ok
    · exact ⟨le_rfl, fun _ => ⟨hp, hhi⟩⟩
    · exact ⟨hlo, fun _ => ⟨hp, le_rfl⟩⟩
  | halvedDone hp ok c₁ hc₁ =>
    obtain ⟨hlo, hhi⟩ := hbisect hp
    subst hc₁
    cases ok
    · exact ⟨le_rfl, fun _ => ⟨hp, hhi⟩⟩
    · exact ⟨hlo, fun _ => ⟨hp, le_rfl⟩⟩

/-! ## Whole sessions -/

theorem tracks_call {s : Session} (h : Tracks s.history s.ctrl) (o : Observation) :
    Tracks (s.call o).history (s.call o).ctrl := by
  obtain ⟨ok, r, hhistory, -, hm⟩ := s.call_moved o
  rw [hhistory, ← observe_currentQps s.ctrl o.p50Us]
  exact (h.observe o.p50Us).moved hm

theorem tracks_after (useXdp : Bool) (obs : List Observation) :
    Tracks (after useXdp obs).history (after useXdp obs).ctrl := by
  induction obs using List.reverseRecOn with
  | nil => exact tracks_start useXdp
  | append_singleton obs o ih =>
    rw [after_concat]
    exact tracks_call ih o

/-- Later brackets lie inside earlier ones. -/
theorem nested_after (useXdp : Bool) (obs more : List Observation) :
    (after useXdp obs).ctrl.lo ≤ (after useXdp (obs ++ more)).ctrl.lo ∧
      ((after useXdp obs).ctrl.phase = .bisect →
        (after useXdp (obs ++ more)).ctrl.phase = .bisect ∧
          (after useXdp (obs ++ more)).ctrl.hi ≤ (after useXdp obs).ctrl.hi) := by
  induction more using List.reverseRecOn with
  | nil =>
    rw [List.append_nil]
    exact ⟨le_rfl, fun hp => ⟨hp, le_rfl⟩⟩
  | append_singleton more o ih =>
    rw [← List.append_assoc, after_concat]
    obtain ⟨ok, r, -, -, hm⟩ := (after useXdp (obs ++ more)).call_moved o
    obtain ⟨hlo, hhi⟩ := ((tracks_after useXdp (obs ++ more)).observe o.p50Us).nested hm
    simp only [observe_lo, observe_phase, observe_hi] at hlo hhi
    refine ⟨ih.1.trans hlo, fun hp => ?_⟩
    obtain ⟨hp', hle⟩ := ih.2 hp
    obtain ⟨hp'', hle'⟩ := hhi hp'
    exact ⟨hp'', hle'.trans hle⟩

/-- The last report of a session came with a move. -/
theorem last_moved (useXdp : Bool) (obs : List Observation) :
    obs = [] ∨ ∃ c ok r, (after useXdp obs).report = some r ∧ Moved c ok (after useXdp obs).ctrl r := by
  induction obs using List.reverseRecOn with
  | nil => exact .inl rfl
  | append_singleton obs o _ =>
    rw [after_concat]
    obtain ⟨ok, r, -, hr, hm⟩ := (after useXdp obs).call_moved o
    exact .inr ⟨_, ok, r, hr, hm⟩

/-- What a session's bracket, next target and report say about the targets tried so far.  Both plain
subtractions of `advance` are `hi - lo` on the bracket the call leaves behind. -/
structure Bracketed (s : Session) : Prop where
  between : s.ctrl.phase = .bisect → ¬ s.Saturated →
    s.ctrl.lo < s.ctrl.currentQps ∧ s.ctrl.currentQps < s.ctrl.hi ∧
      s.ctrl.currentQps = s.ctrl.lo + (s.ctrl.hi - s.ctrl.lo) / 2
  lo_le_hi : s.ctrl.phase = .bisect → s.ctrl.lo ≤ s.ctrl.hi
  lo_largest : s.ctrl.phase = .bisect → s.ctrl.lo = Verdict.largestSustained s.history
  hi_smallest : s.ctrl.phase = .bisect → Verdict.smallestFailed s.history = some s.ctrl.hi
  target_range : 1 ≤ s.ctrl.currentQps ∧ s.ctrl.currentQps ≤ 100000 * 2 ^ 19
  reported : ∀ r, s.report = some r → r.saturated →
    r.maxSustainableQps = Verdict.largestSustained s.history

/-- After every sequence of observations, on both datapaths, the bracket is the two extremes of the
history and the report is its lower end; and whatever follows, the bracket only shrinks. -/
theorem bracket_tracks_history (useXdp : Bool) (obs : List Observation) :
    (after useXdp obs).Bracketed ∧
      ∀ more, (after useXdp obs).ctrl.lo ≤ (after useXdp (obs ++ more)).ctrl.lo ∧
        ((after useXdp obs).ctrl.phase = .bisect →
          (after useXdp (obs ++ more)).ctrl.phase = .bisect ∧
            (after useXdp (obs ++ more)).ctrl.hi ≤ (after useXdp obs).ctrl.hi) := by
  have htracks := tracks_after useXdp obs
  have hlast := last_moved useXdp obs
  refine ⟨⟨?_, ?_, ?_, ?_, ⟨htracks.pos, htracks.le_max⟩, ?_⟩, nested_after useXdp obs⟩
  · intro hp hgo
    obtain rfl | ⟨c, ok, r, hr, hm⟩ := hlast
    · cases hp
    · apply between_of_moved hm hp
      exact Bool.eq_false_iff.mpr fun hsat => hgo ⟨r, hr, hsat⟩
  · intro hp
    have hlo := htracks.best_le
    rw [best_of_bisect hp] at hlo
    exact hlo.trans (htracks.le_failed _ ((mem_failed_iff hp).mpr rfl))
  · intro hp
    exact (best_of_bisect hp).symm.trans htracks.best_eq
  · intro hp
    rw [← htracks.failed_eq]
    exact (mem_failed_iff hp).mpr rfl
  · intro r hr hsat
    obtain rfl | ⟨c, ok, r', hr', hm⟩ := hlast
    · cases hr
    · obtain rfl : r' = r := Option.some.inj (hr'.symm.trans hr)
      exact (reported_of_moved hm hsat).trans htracks.best_eq

end Session

end Dnsmark.Engine
