import Dnsmark.Common.Registration
import Dnsmark.Xdp.UnifiedWorker

/-!
# Registration order in the AF_XDP datapath

A unified worker kicks a batch, and only then inserts its ids.  `Net` puts the workers of a closed
loop in front of a server that answers every query exactly once: `unanswered` are the ids handed to
the NIC whose reply has not been matched.  A run of `Net` meets the assumptions under which no reply
should be missed: the clock does not go back, a reply is received before its query expires, and no
id is handed over while it is registered or about to be.

Then everything depends on one order: a reply is matched if and only if its id was inserted before,
and if that holds of every reply nothing is ever swept.
-/

namespace Dnsmark.Xdp

open Dnsmark.Inflight Registration

/-- The ids a worker has handed to the NIC and not inserted yet. -/
def Pc.awaiting : Pc → List QueryId
  | .register ids _ => ids
  | _ => []

/-- The reading of the table's clock in an act; the collector has a clock of its own. -/
def Act.clock? : Act → Option ℕ
  | .insert t => some t
  | .reply _ _ t => some t
  | .startSweep t => some t
  | _ => none

/-- The query a received reply answers. -/
def Act.reply? : Act → Option QueryId
  | .reply id _ _ => some id
  | _ => none

/-- The ids an act hands to the NIC. -/
def Act.handed (w' : UnifiedWorker) : Act → List QueryId
  | .transmit _ _ => w'.pc.awaiting
  | _ => []

/-- The workers, the server's debts, the time, and how many replies found no slot. -/
structure Net (N : ℕ) where
  state : State N
  unanswered : Finset QueryId
  clock : ℕ
  missed : ℕ

namespace Net

variable {cfg : Config} {N : ℕ}

/-- The table the workers share. -/
abbrev slots (s : Net N) : SlotTable QueryId := s.state.shared.slots

/-- The ids every worker has handed over and not inserted. -/
abbrev awaiting (s : Net N) (i : Fin N) : List QueryId := (s.state.threads i).pc.awaiting

/-- No outstanding query that is registered has expired at time `t`, which is not in the past. -/
def Punctual (cfg : Config) (s : Net N) (t : ℕ) : Prop :=
  s.clock ≤ t ∧ ∀ id ∈ s.unanswered, s.slots id ≠ 0 →
    Table.stale .inFlight cfg.timeoutNs t (s.slots id) = false

/-- What is assumed of a step: replies are punctual, only outstanding queries are answered, and no
id is issued that is registered or awaits its registration. -/
def Fair (cfg : Config) (s : Net N) (w' : UnifiedWorker) (a : Act) : Prop :=
  (∀ t ∈ a.clock?, s.Punctual cfg t) ∧ (∀ id ∈ a.reply?, id ∈ s.unanswered) ∧
    (a.handed w').Nodup ∧ ∀ id ∈ a.handed w', s.slots id = 0 ∧ ∀ j, id ∉ s.awaiting j

-- the instances are given by hand: the default one would enumerate all ids
instance (s : Net N) (t : ℕ) : Decidable (s.Punctual cfg t) :=
  @instDecidableAnd _ _ _ Finset.decidableDforallFinset

instance (s : Net N) (w' : UnifiedWorker) (a : Act) : Decidable (s.Fair cfg w' a) :=
  @instDecidableAnd _ _ (Option.decidableForallMem _) <|
    @instDecidableAnd _ _ (Option.decidableForallMem _) <|
      @instDecidableAnd _ _ _ (List.decidableBAll _ _)

/-- The state after act `a` of worker `i`, which left `w'` and `m'`. -/
def after (s : Net N) (i : Fin N) (a : Act) (w' : UnifiedWorker) (m' : Shared) : Net N where
  state := ⟨Function.update s.state.threads i w', m'⟩
  unanswered := a.reply?.elim s.unanswered s.unanswered.erase ∪ (a.handed w').toFinset
  clock := a.clock?.getD s.clock
  missed := s.missed + a.reply?.elim 0 fun id => if s.slots id = 0 then 1 else 0

/-- A fair step of one worker. -/
def step (cfg : Config) (s : Net N) (e : Fin N × Act) : Option (Net N) :=
  match (s.state.threads e.1).step cfg N e.1 s.state.shared e.2 with
  | some (w', m') => if s.Fair cfg w' e.2 then some (s.after e.1 e.2 w' m') else none
  | none => none

def machine (cfg : Config) (N : ℕ) : Machine (Net N) (Fin N × Act) := ⟨step cfg⟩

/-- Nothing sent yet. -/
def start (N : ℕ) : Net N := ⟨.start N, ∅, 0, 0⟩

/-- No reply was missed and no query counted as a timeout. -/
def Clean (s : Net N) : Prop := s.missed = 0 ∧ s.state.shared.stats.timeouts = 0

/-- A reply is matched only after the worker that sent its query has inserted it. -/
def RegisteredFirst (s : Net N) (e : Fin N × Act) : Prop :=
  ∀ id ∈ e.2.reply?, ∀ j, id ∉ s.awaiting j

instance (s : Net N) (e : Fin N × Act) : Decidable (s.RegisteredFirst e) :=
  Option.decidableForallMem _

theorem step_cases {s s' : Net N} {e : Fin N × Act} (h : step cfg s e = some s') :
    ∃ w' m', UnifiedWorker.Stepped cfg N e.1 (s.state.threads e.1) s.state.shared e.2 w' m' ∧
      s.Fair cfg w' e.2 ∧ s' = s.after e.1 e.2 w' m' := by
  unfold step at h
  split at h
  · rename_i w' m' hw
    split at h
    · exact ⟨w', m', UnifiedWorker.step_cases hw, ‹_›, (Option.some.inj h).symm⟩
    · cases h
  · cases h

/-- The workers of a `Net` run as they would without it. -/
theorem step_forget {s s' : Net N} {e : Fin N × Act} (h : step cfg s e = some s') :
    (workers cfg N).machine.step s.state (.thread e.1 e.2) = some s'.state := by
  unfold step at h
  split at h
  · rename_i w' m' hw
    split at h
    · obtain rfl := Option.some.inj h
      exact Threads.machine_step_thread _ hw
    · cases h
  · cases h

/-- A run of a `Net` is a run of its workers. -/
theorem run_forget {s s' : Net N} {es : List (Fin N × Act)} (h : (machine cfg N).run s es = some s') :
    (workers cfg N).machine.run s.state (es.map fun e => .thread e.1 e.2) = some s'.state :=
  Machine.run_map _ _ Net.state _ (fun _ _ _ hstep => step_forget hstep) h

/-! ## What a step keeps -/

/-- The worker has swept nothing: its sweep, if it is in one, has counted nothing and looked at the
clock in the past. -/
def Calm (cfg : Config) (clock : ℕ) : Pc → Prop
  | .sweep sc => sc.n = 0 ∧ sc.nowNs ≤ clock ∧ sc.timeoutNs = cfg.timeoutNs
  | .timeouts _ => False
  | .drain _ => False
  | _ => True

theorem Calm.mono {clock clock' : ℕ} (hle : clock ≤ clock') {pc : Pc} (h : Calm cfg clock pc) :
    Calm cfg clock' pc := by
  cases pc with
  | sweep sc => exact ⟨h.1, h.2.1.trans hle, h.2.2⟩
  | timeouts _ => exact h
  | drain _ => exact h
  | _ => trivial

/-- Every outstanding query is awaited or registered and in time, nothing was missed or swept. -/
structure Good (cfg : Config) (s : Net N) : Prop where
  isOpen : Open (Table.stale .inFlight cfg.timeoutNs s.clock) s.slots s.awaiting s.unanswered
  clean : s.Clean
  running : s.state.shared.shutdown = false
  calm : ∀ i, Calm cfg s.clock (s.state.threads i).pc

theorem good_start : Good cfg (start N) where
  isOpen := Open.start
  clean := ⟨rfl, rfl⟩
  running := rfl
  calm _ := trivial

variable {s : Net N} {i : Fin N} {a : Act} {w' : UnifiedWorker} {m' : Shared}

theorem awaiting_after (s : Net N) (i : Fin N) (a : Act) (w' : UnifiedWorker) (m' : Shared) :
    (s.after i a w' m').awaiting = Function.update s.awaiting i w'.pc.awaiting := by
  funext j
  by_cases hj : j = i
  · subst hj
    simp [awaiting, after]
  · simp [awaiting, after, Function.update_of_ne hj]

theorem Fair.clock_le (hf : s.Fair cfg w' a) : s.clock ≤ a.clock?.getD s.clock := by
  cases ht : a.clock? with
  | none => exact le_refl _
  | some t => exact (hf.1 t ht).1

/-- Nothing registered expires at a fair step. -/
theorem Fair.isOpen (hf : s.Fair cfg w' a) (hs : Good cfg s) :
    Open (Table.stale .inFlight cfg.timeoutNs (a.clock?.getD s.clock)) s.slots s.awaiting
      s.unanswered := by
  cases ht : a.clock? with
  | none => exact hs.isOpen
  | some t => exact hs.isOpen.wait (hf.1 t ht).2

/-- A fair step is good when it keeps the table and the awaited ids right and sweeps nothing. -/
theorem Good.after (hs : Good cfg s) (hf : s.Fair cfg w' a)
    (hopen : Open (Table.stale .inFlight cfg.timeoutNs (a.clock?.getD s.clock)) m'.slots
      (Function.update s.awaiting i w'.pc.awaiting)
      (a.reply?.elim s.unanswered s.unanswered.erase ∪ (a.handed w').toFinset))
    (hfound : ∀ id ∈ a.reply?, s.slots id ≠ 0)
    (htime : m'.stats.timeouts = s.state.shared.stats.timeouts)
    (hdown : m'.shutdown = s.state.shared.shutdown)
    (hcalm : Calm cfg (a.clock?.getD s.clock) w'.pc) : Good cfg (s.after i a w' m') where
  isOpen := by
    rw [awaiting_after]
    exact hopen
  clean := by
    refine ⟨?_, htime.trans hs.clean.2⟩
    cases hr : a.reply? with
    | none => simp [Net.after, hr, hs.clean.1]
    | some id => simp [Net.after, hr, hs.clean.1, hfound id hr]
  running := hdown.trans hs.running
  calm := (Function.forall_update_iff s.state.threads fun _ w => Calm cfg _ w.pc).mpr
    ⟨hcalm, fun j _ => (hs.calm j).mono hf.clock_le⟩

/-- A fair step that touches neither the table nor what is awaited. -/
theorem Good.silent (hs : Good cfg s) (hf : s.Fair cfg w' a) (hreply : a.reply? = none)
    (hhanded : a.handed w' = []) (hslots : m'.slots = s.slots)
    (hawait : w'.pc.awaiting = s.awaiting i)
    (htime : m'.stats.timeouts = s.state.shared.stats.timeouts)
    (hdown : m'.shutdown = s.state.shared.shutdown)
    (hcalm : Calm cfg (a.clock?.getD s.clock) w'.pc) : Good cfg (s.after i a w' m') := by
  refine hs.after hf ?_ (by simp [hreply]) htime hdown hcalm
  rw [hslots, hawait, Function.update_eq_self, hreply, hhanded]
  simpa using hf.isOpen hs

/-- Every fair step keeps a good state good if the reply it matches, if any, was registered. -/
theorem good_step (hloop : cfg.firehose = false) (hs : Good cfg s) (hf : s.Fair cfg w' a)
    (h : UnifiedWorker.Stepped cfg N i (s.state.threads i) s.state.shared a w' m')
    (hC : s.RegisteredFirst (i, a)) : Good cfg (s.after i a w' m') := by
  have hcalm := hs.calm i
  cases h with
  | goOn hpc | transmitNone _ _ hpc | addInFlight _ hpc | replies hpc | noReplies hpc | noSweep hpc
  | releaseExpired _ hpc =>
    exact hs.silent hf rfl rfl rfl (by simp [awaiting, Pc.awaiting, hpc]) rfl rfl trivial
  | leave _ _ hdown => exact absurd (hs.running.symm.trans hdown) (by decide)
  | gate _ pc' hpc _ hpc' =>
    rcases hpc' with rfl | rfl <;>
      exact hs.silent hf rfl rfl rfl (by simp [awaiting, Pc.awaiting, hpc]) rfl rfl trivial
  | transmit room pool enq hpc =>
    refine hs.after hf ?_ (by simp [Act.reply?]) rfl rfl trivial
    have hnone : s.awaiting i = [] := by simp [awaiting, Pc.awaiting, hpc]
    exact (hf.isOpen hs).send hnone hf.2.2.1 hf.2.2.2
  | insert id ids enq nowNs hpc =>
    refine hs.after hf ?_ (by simp [Act.reply?]) rfl rfl trivial
    have hnext : s.awaiting i = id :: ids := by simp [awaiting, Pc.awaiting, hpc]
    -- a stamp is not older than the clock it was read from
    have hfresh : Table.stale .inFlight cfg.timeoutNs nowNs (max nowNs 1) = false := by
      simp [Table.stale]
    simpa [Act.reply?, Act.handed, Pc.awaiting, Inflight.insert] using
      (hf.isOpen hs).register hnext (show max nowNs 1 ≠ 0 by omega) hfresh
  | addNothing _ _ hfire => exact absurd (hloop.symm.trans hfire) (by decide)
  | countSent enq nowNs hpc =>
    unfold UnifiedWorker.countSent
    simp only
    split <;> exact hs.silent hf rfl rfl rfl (by simp [awaiting, Pc.awaiting, hpc]) rfl rfl trivial
  | reply completed id rcode nowNs hpc =>
    have hun : id ∈ s.unanswered := hf.2.1 id rfl
    have hreg : ∀ j, id ∉ s.awaiting j := hC id rfl
    have hid : s.slots id ≠ 0 := hs.isOpen.found hun hreg
    rw [UnifiedWorker.reply_of_occupied hloop _ hid]
    refine hs.after hf ?_ (by simpa [Act.reply?] using hid) rfl rfl trivial
    have hsame : (Pc.matching (completed + 1)).awaiting = s.awaiting i := by
      simp [awaiting, Pc.awaiting, hpc]
    rw [hsame, Function.update_eq_self]
    simpa [Act.reply?, Act.handed] using (hf.isOpen hs).receive hreg
  | endReplies completed hpc =>
    simp only [UnifiedWorker.endReplies, hloop, Bool.false_eq_true, if_false]
    exact hs.silent hf rfl rfl rfl (by simp [awaiting, Pc.awaiting, hpc]) rfl rfl trivial
  | startSweep nowNs hpc =>
    exact hs.silent hf rfl rfl rfl (by simp [awaiting, Pc.awaiting, hpc]) rfl rfl
      ⟨rfl, le_refl _, rfl⟩
  | sweepStep sc sc' freed hpc hsc =>
    rw [hpc] at hcalm
    obtain ⟨rfl, hn, hnow, hto⟩ := Scan.step_of_fresh hsc hcalm.2.1 fun id hid => by
      rw [hcalm.2.2]
      exact hs.isOpen.not_late hid
    refine hs.silent hf rfl rfl rfl (by simp [awaiting, Pc.awaiting, hpc]) rfl rfl ?_
    exact ⟨hn.trans hcalm.1, hnow ▸ hcalm.2.1, hto.trans hcalm.2.2⟩
  | endSweep sc pc' hpc hpc' =>
    rw [hpc] at hcalm
    rcases hpc' with ⟨hpos, -⟩ | ⟨-, rfl⟩
    · exact absurd hcalm.1 hpos.ne'
    · exact hs.silent hf rfl rfl rfl (by simp [awaiting, Pc.awaiting, hpc]) rfl rfl trivial
  | countTimeouts _ _ hpc =>
    rw [hpc] at hcalm
    exact hcalm.elim
  | drainStep _ _ _ hpc =>
    rw [hpc] at hcalm
    exact hcalm.elim
  | endDrain _ hpc =>
    rw [hpc] at hcalm
    exact hcalm.elim
  | flushSent nowNs hpc =>
    refine hs.silent hf rfl rfl rfl (by simp [awaiting, Pc.awaiting, hpc]) ?_ rfl trivial
    simp only
    split <;> rfl
  | flushRcodes hpc =>
    refine hs.silent hf rfl rfl rfl (by simp [awaiting, Pc.awaiting, hpc]) ?_ rfl trivial
    simp only
    split <;> simp

/-- A reply to a query that is not registered yet is missed. -/
theorem not_clean_of_not_registeredFirst (hs : Good cfg s) (hC : ¬ s.RegisteredFirst (i, a)) :
    ¬ (s.after i a w' m').Clean := by
  simp only [RegisteredFirst, not_forall] at hC
  obtain ⟨id, hid, hawait⟩ := hC
  have hempty : s.slots id = 0 := hs.isOpen.missed (by simpa using hawait)
  rintro ⟨hmissed, -⟩
  simp [Net.after, Option.mem_def.mp hid, hempty] at hmissed

/-- In every run under these assumptions no reply is missed and nothing is counted as a timeout, if
and only if every reply is matched after its id was inserted. -/
theorem always_clean_iff (hloop : cfg.firehose = false) {es : List (Fin N × Act)} {s : Net N}
    (hrun : (machine cfg N).run (start N) es = some s) :
    (machine cfg N).Always Clean (start N) es ↔ (machine cfg N).Meets RegisteredFirst (start N) es := by
  refine (machine cfg N).always_iff_meets (I := Good cfg) (fun _ h => h.clean) ?_ ?_ good_start hrun
  · intro s e s' hs h hC
    obtain ⟨w', m', hst, hf, rfl⟩ := step_cases h
    exact good_step hloop hs hf hst hC
  · intro s e s' hs h hC
    obtain ⟨w', m', -, -, rfl⟩ := step_cases h
    exact not_clean_of_not_registeredFirst hs hC

end Net

end Dnsmark.Xdp
