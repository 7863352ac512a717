import Dnsmark.Udp.Gate
import Mathlib.Data.List.GetD

/-!
# Which query a latency sample belongs to

A reply is matched by its 16-bit id alone.  `Traced` runs one closed-loop worker against a server
that answers each query at most once, echoing its id, and records what the worker itself cannot see:
the queries in the order they were sent, which of them were answered, which query stamped each slot
last, and for every reply that completed a slot the query it answered (`Completion.query`) beside
the query whose stamp it took (`Completion.owner`).  Forgetting the records gives a run of the
worker (`Traced.run_forget`).

The stamp in an occupied slot is always the one of the last query sent with that id
(`Traced.Recorded`).  A reply therefore takes the right stamp unless its id has been issued again
since, and the slot is occupied by the later query when it arrives.
-/

namespace Dnsmark.Udp

open Dnsmark.Stats

/-- A reply that completed a slot. -/
structure Completion where
  /-- The query the reply answers. -/
  query : ℕ
  /-- The query whose stamp was in the slot. -/
  owner : ℕ
  recvNs : ℕ
  /-- The sample passed to `record_response`, if the reply was in time. -/
  sample : Option ℕ
deriving DecidableEq, Repr

/-- A worker, its collector, and the record of its run. -/
structure Traced where
  worker : Worker
  stats : StatsCollector
  /-- Id and send clock of every query, in the order of sending. -/
  queries : List (QueryId × ℕ)
  /-- The query that stamped each slot last. -/
  owner : QueryId → ℕ
  answered : List ℕ
  completions : List Completion

/-- What happens in a run against the server. -/
inductive ServerEvent where
  | send (sendNs : ℕ)
  | sendFailed (wouldBlock : Bool)
  | sweep (nowNs : ℕ)
  /-- The server's answer to query number `query`, received at `recvNs`. -/
  | reply (recvNs query : ℕ) (msg : Datagram)

/-- What the worker sees of it. -/
def ServerEvent.toEvent : ServerEvent → Event
  | .send t => .send t
  | .sendFailed b => .sendFailed b
  | .sweep t => .sweep t
  | .reply t _ msg => .recv t [msg]

/-- A DNS message whose first two bytes are `id`. -/
def echoes (id : QueryId) (msg : Datagram) : Bool :=
  match msg with
  | b0 :: b1 :: _ => decide (12 ≤ msg.length) && decide ((u16FromBeBytes b0 b1).toFin = id)
  | _ => false

namespace Traced

/-- The run before its first event. -/
def start (nextId : QueryId) : Traced where
  worker := .new nextId
  stats := .new
  queries := []
  owner _ := 0
  answered := []
  completions := []

/-- The sample a step added to the histogram. -/
def sampled (before after : StatsCollector) : Option ℕ :=
  if after.histogram = before.histogram then none else after.histogram.head?

/-- Receive the answer to query number `query`, which was sent with `id`. -/
def answer (cfg : Config) (s : Traced) (recvNs query : ℕ) (id : QueryId) (msg : Datagram) : Traced :=
  let p := Worker.recvOne cfg recvNs (s.worker, s.stats) msg
  { s with
    worker := p.1
    stats := p.2
    answered := query :: s.answered
    completions :=
      if s.worker.slots id ≠ 0 ∧ p.1.slots id = 0 then
        ⟨query, s.owner id, recvNs, sampled s.stats p.2⟩ :: s.completions
      else s.completions }

/-- One step of the worker, recorded.  A reply must answer a query that was sent and not answered
before, and echo its id. -/
def step (cfg : Config) (s : Traced) : ServerEvent → Option Traced
  | .send t => (Worker.step cfg (s.worker, s.stats) (.send t)).map fun p =>
      { s with
        worker := p.1
        stats := p.2
        queries := s.queries ++ [(s.worker.nextId, t)]
        owner := Function.update s.owner s.worker.nextId s.queries.length }
  | .sendFailed b => (Worker.step cfg (s.worker, s.stats) (.sendFailed b)).map fun p =>
      { s with worker := p.1, stats := p.2 }
  | .sweep t => (Worker.step cfg (s.worker, s.stats) (.sweep t)).map fun p =>
      { s with worker := p.1, stats := p.2 }
  | .reply t query msg =>
    match s.queries[query]? with
    | some (id, _) =>
      if query ∉ s.answered ∧ echoes id msg then some (s.answer cfg t query id msg) else none
    | none => none

/-- One worker and the server it talks to. -/
def machine (cfg : Config) : Machine Traced ServerEvent := ⟨step cfg⟩

/-! ## Forgetting the record -/

/-- A recorded step is a step of the worker. -/
theorem step_forget {cfg : Config} {s s' : Traced} {e : ServerEvent} (h : step cfg s e = some s') :
    Worker.step cfg (s.worker, s.stats) e.toEvent = some (s'.worker, s'.stats) := by
  cases e with
  | send t =>
    obtain ⟨p, hp, rfl⟩ := Option.map_eq_some_iff.mp h
    exact hp
  | sendFailed b =>
    obtain ⟨p, hp, rfl⟩ := Option.map_eq_some_iff.mp h
    exact hp
  | sweep t =>
    simp only [step] at h
    obtain ⟨p, hp, rfl⟩ := Option.map_eq_some_iff.mp h
    exact hp
  | reply t query msg =>
    simp only [step] at h
    split at h
    · split at h
      · obtain rfl := Option.some.inj h
        rfl
      · cases h
    · cases h

/-- A recorded run is a run of the worker. -/
theorem run_forget {cfg : Config} {s s' : Traced} {es : List ServerEvent}
    (h : (machine cfg).run s es = some s') :
    (Worker.machine cfg).run (s.worker, s.stats) (es.map ServerEvent.toEvent)
      = some (s'.worker, s'.stats) := by
  induction es generalizing s with
  | nil =>
    obtain rfl : s = s' := by simpa using h
    rfl
  | cons e es ih =>
    obtain ⟨t, ht, hrun⟩ := (machine cfg).run_cons_eq_some.mp h
    exact (Worker.machine cfg).run_cons_eq_some.mpr ⟨_, step_forget ht, ih hrun⟩

/-! ## One reply -/

/-- A DNS message that echoes `id` is decided by slot `id`. -/
theorem recvOne_of_echoes (cfg : Config) {id : QueryId} {msg : Datagram} (hmsg : echoes id msg)
    (recvNs : ℕ) (p : Worker × StatsCollector) :
    ∃ rcode, Worker.recvOne cfg recvNs p msg =
      if p.1.slots id ≠ 0 then
        (p.1.complete id, Worker.report cfg p.2 rcode (recvNs - p.1.slots id))
      else p := by
  match msg, hmsg with
  | b0 :: b1 :: b2 :: b3 :: rest, hmsg =>
    simp only [echoes, Bool.and_eq_true, decide_eq_true_eq] at hmsg
    obtain ⟨-, rfl⟩ := hmsg
    exact ⟨(b3 &&& 0x0f).toNat, rfl⟩
  | [b0, b1], hmsg => simp [echoes] at hmsg
  | [b0, b1, b2], hmsg => simp [echoes] at hmsg

/-- What an in-time report adds to the histogram. -/
theorem sampled_report (cfg : Config) (st : StatsCollector) (rcode rttNs : ℕ) :
    sampled st (Worker.report cfg st rcode rttNs)
      = if rttNs ≤ cfg.timeoutNs then some (max (rttNs / 1000) 1) else none := by
  unfold Worker.report
  split
  · have hne : (st.recordResponse rcode (max (rttNs / 1000) 1)).histogram ≠ st.histogram := by
      intro h
      have hlen := congrArg List.length h
      simp [StatsCollector.recordResponse] at hlen
    rw [sampled, if_neg hne]
    simp [StatsCollector.recordResponse]
  · rw [sampled, if_pos (StatsCollector.recordRcodes_histogram ..)]

/-- A reply that finds its slot occupied completes it with the stamp it holds. -/
theorem answer_of_occupied {cfg : Config} {s : Traced} {id : QueryId} {msg : Datagram}
    (hmsg : echoes id msg) (recvNs query : ℕ) (hs : s.worker.slots id ≠ 0) :
    (s.answer cfg recvNs query id msg).worker = s.worker.complete id ∧
      (s.answer cfg recvNs query id msg).completions =
        ⟨query, s.owner id, recvNs,
          if recvNs - s.worker.slots id ≤ cfg.timeoutNs then
            some (max ((recvNs - s.worker.slots id) / 1000) 1) else none⟩ :: s.completions := by
  obtain ⟨rcode, hrecv⟩ := recvOne_of_echoes cfg hmsg recvNs (s.worker, s.stats)
  rw [if_pos hs] at hrecv
  have hzero : (s.worker.complete id).slots id = 0 := by
    rw [Worker.complete_slots, SlotTable.clear_self]
  refine ⟨?_, ?_⟩
  · simp only [answer, hrecv]
  · simp only [answer, hrecv, if_pos (And.intro hs hzero), sampled_report]

/-- A reply that finds its slot empty changes nothing but the record of answers. -/
theorem answer_of_empty {cfg : Config} {s : Traced} {id : QueryId} {msg : Datagram}
    (hmsg : echoes id msg) (recvNs query : ℕ) (hs : s.worker.slots id = 0) :
    (s.answer cfg recvNs query id msg).worker = s.worker ∧
      (s.answer cfg recvNs query id msg).completions = s.completions := by
  obtain ⟨rcode, hrecv⟩ := recvOne_of_echoes cfg hmsg recvNs (s.worker, s.stats)
  rw [if_neg (not_not.mpr hs)] at hrecv
  refine ⟨?_, ?_⟩
  · simp only [answer, hrecv]
  · simp only [answer, hrecv]
    rw [if_neg (fun h => h.1 hs)]

/-- The record after a send through the gate. -/
def issue (s : Traced) (t : ℕ) : Traced :=
  { s with
    worker := s.worker.sent t
    stats := s.stats.incSent
    queries := s.queries ++ [(s.worker.nextId, t)]
    owner := Function.update s.owner s.worker.nextId s.queries.length }

/-- What a recorded step can be. -/
theorem step_cases {cfg : Config} {s s' : Traced} {e : ServerEvent} (h : step cfg s e = some s') :
    (∃ t, e = .send t ∧ s' = s.issue t) ∨
    (∃ w st, (∀ t query msg, e ≠ .reply t query msg) ∧ (∀ t, e ≠ .send t) ∧
      (∀ id, w.slots id ≠ 0 → w.slots id = s.worker.slots id) ∧
      s' = { s with worker := w, stats := st }) ∨
    (∃ t query msg id sendNs, e = .reply t query msg ∧ s.queries[query]? = some (id, sendNs) ∧
      query ∉ s.answered ∧ echoes id msg ∧ s' = s.answer cfg t query id msg) := by
  cases e with
  | send t =>
    obtain ⟨p, hp, rfl⟩ := Option.map_eq_some_iff.mp h
    obtain ⟨t', he, -, rfl⟩ | ⟨b, he, -⟩ | ⟨t', msgs, he, -⟩ | ⟨t', he, -⟩ := Worker.step_cases hp
    · cases he
      exact .inl ⟨t, rfl, rfl⟩
    all_goals cases he
  | sendFailed b =>
    obtain ⟨p, hp, rfl⟩ := Option.map_eq_some_iff.mp h
    refine .inr (.inl ⟨p.1, p.2, nofun, nofun, ?_, rfl⟩)
    obtain ⟨t', he, -⟩ | ⟨b, -, -, rfl⟩ | ⟨t', msgs, he, -⟩ | ⟨t', he, -⟩ := Worker.step_cases hp
    · cases he
    · exact fun id _ => rfl
    all_goals cases he
  | sweep t =>
    simp only [step] at h
    obtain ⟨p, hp, rfl⟩ := Option.map_eq_some_iff.mp h
    refine .inr (.inl ⟨p.1, p.2, nofun, nofun, ?_, rfl⟩)
    obtain ⟨t', he, -⟩ | ⟨b, he, -⟩ | ⟨t', msgs, he, -⟩ | ⟨t', -, rfl⟩ := Worker.step_cases hp
    · cases he
    · cases he
    · cases he
    · intro id hid
      obtain ⟨hsw, -⟩ | hsw := Worker.sweep_eq cfg t' (s.worker, s.stats)
      all_goals
        rw [hsw] at hid ⊢
        exact SlotTable.sweep_eq_of_ne_zero hid
  | reply t query msg =>
    simp only [step] at h
    split at h
    · rename_i id sendNs hq
      split at h
      · rename_i hc
        exact .inr (.inr ⟨t, query, msg, id, sendNs, rfl, hq, hc.1, hc.2,
          (Option.some.inj h).symm⟩)
      · cases h
    · cases h

/-! ## The record is right -/

/-- Every occupied slot holds the stamp of its owner, and the owner is the last query sent with that
id. -/
structure Recorded (s : Traced) : Prop where
  stamp : ∀ id, s.worker.slots id ≠ 0 →
    ∃ t, s.queries[s.owner id]? = some (id, t) ∧ s.worker.slots id = max t 1
  latest : ∀ query id t, s.queries[query]? = some (id, t) → query ≤ s.owner id

theorem recorded_start (nextId : QueryId) : Recorded (start nextId) where
  stamp id h := absurd rfl h
  latest query id t h := by simp [start] at h

/-- A send becomes the last query with its id and stamps its slot. -/
theorem Recorded.issue {s : Traced} (hs : Recorded s) (t : ℕ) : Recorded (s.issue t) := by
  refine ⟨?_, ?_⟩
  · intro id hid
    by_cases hne : id = s.worker.nextId
    · subst hne
      exact ⟨t, by simp [Traced.issue], by simp [Traced.issue]⟩
    · simp only [Traced.issue, Worker.sent_slots, SlotTable.store_of_ne _ hne,
        Function.update_of_ne hne] at hid ⊢
      obtain ⟨t', hq, hstamp⟩ := hs.stamp id hid
      exact ⟨t', List.getElem?_append_left (List.getElem?_eq_some_iff.mp hq).1 ▸ hq, hstamp⟩
  · intro query id t' hq
    simp only [Traced.issue] at hq ⊢
    by_cases hne : id = s.worker.nextId
    · subst hne
      simp only [Function.update_self]
      have hlen := (List.getElem?_eq_some_iff.mp hq).1
      simp only [List.length_append, List.length_singleton] at hlen
      omega
    · simp only [Function.update_of_ne hne]
      rcases Nat.lt_or_ge query s.queries.length with hlt | hge
      · rw [List.getElem?_append_left hlt] at hq
        exact hs.latest query id t' hq
      · rw [List.getElem?_append_right hge, List.getElem?_singleton] at hq
        split at hq
        · exact absurd (congrArg Prod.fst (Option.some.inj hq)).symm hne
        · cases hq

/-- A step that only empties slots keeps the record right. -/
theorem Recorded.shrink {s s' : Traced} (hs : Recorded s) (hq : s'.queries = s.queries)
    (ho : s'.owner = s.owner)
    (hsub : ∀ id, s'.worker.slots id ≠ 0 → s'.worker.slots id = s.worker.slots id) :
    Recorded s' := by
  refine ⟨fun id hid => ?_, fun query id t h => ?_⟩
  · rw [hq, ho, hsub id hid]
    exact hs.stamp id (hsub id hid ▸ hid)
  · rw [ho]
    exact hs.latest query id t (hq ▸ h)

/-- Every step keeps the record right. -/
theorem recorded_step {cfg : Config} (s : Traced) (e : ServerEvent) (s' : Traced)
    (hs : Recorded s) (h : step cfg s e = some s') : Recorded s' := by
  obtain ⟨t, -, rfl⟩ | ⟨w, st, -, -, hsub, rfl⟩ | ⟨t, query, msg, id, sendNs, -, -, -, hmsg, rfl⟩ :=
    step_cases h
  · exact hs.issue t
  · exact hs.shrink rfl rfl hsub
  · refine hs.shrink rfl rfl fun id' hid' => ?_
    by_cases hz : s.worker.slots id = 0
    · rw [(answer_of_empty hmsg t query hz).1]
    · rw [(answer_of_occupied hmsg t query hz).1, Worker.complete_slots] at hid' ⊢
      by_cases heq : id' = id
      · subst heq
        exact absurd (SlotTable.clear_self ..) hid'
      · exact SlotTable.clear_of_ne _ heq

/-! ## Attribution -/

/-- The condition on a step: a reply arrives before its id is issued again, or finds its slot
empty. -/
def NotReissued (s : Traced) (e : ServerEvent) : Prop :=
  ∀ t query msg id sendNs, e = .reply t query msg → s.queries[query]? = some (id, sendNs) →
    (∀ later t', s.queries[later]? = some (id, t') → later ≤ query) ∨ s.worker.slots id = 0

/-- Replies that took another query's stamp. -/
def misattributed (s : Traced) : ℕ := (s.completions.filter fun c => c.owner ≠ c.query).length

theorem misattributed_eq_zero {s : Traced} :
    s.misattributed = 0 ↔ ∀ c ∈ s.completions, c.owner = c.query := by
  simp [misattributed, List.filter_eq_nil_iff]

/-- With its id not issued again, an occupied slot holds the query's own stamp. -/
theorem Recorded.owner_eq {s : Traced} (hs : Recorded s) {query sendNs : ℕ} {id : QueryId}
    (hq : s.queries[query]? = some (id, sendNs)) (hid : s.worker.slots id ≠ 0)
    (hlast : ∀ later t', s.queries[later]? = some (id, t') → later ≤ query) :
    s.owner id = query := by
  obtain ⟨t, howner, -⟩ := hs.stamp id hid
  exact Nat.le_antisymm (hlast _ _ howner) (hs.latest query id sendNs hq)

/-- A step that meets the condition attributes every completion correctly. -/
theorem misattributed_step_of_notReissued {cfg : Config} (s : Traced) (e : ServerEvent)
    (s' : Traced) (hs : Recorded s) (h : step cfg s e = some s') (hC : NotReissued s e) :
    s'.misattributed = s.misattributed := by
  obtain ⟨t, -, rfl⟩ | ⟨w, st, -, -, -, rfl⟩ | ⟨t, query, msg, id, sendNs, he, hq, -, hmsg, rfl⟩ :=
    step_cases h
  · rfl
  · rfl
  · by_cases hz : s.worker.slots id = 0
    · rw [misattributed, (answer_of_empty hmsg t query hz).2, misattributed]
    · have hlast := (hC t query msg id sendNs he hq).resolve_right hz
      have howner := hs.owner_eq hq hz hlast
      rw [misattributed, (answer_of_occupied hmsg t query hz).2,
        List.filter_cons_of_neg (by simp [howner]), misattributed]

/-- A step that breaks it gives a reply another query's stamp. -/
theorem misattributed_step_of_reissued {cfg : Config} (s : Traced) (e : ServerEvent)
    (s' : Traced) (hs : Recorded s) (h : step cfg s e = some s') (hC : ¬ NotReissued s e) :
    s.misattributed < s'.misattributed := by
  simp only [NotReissued, not_forall, not_or, not_le] at hC
  obtain ⟨t, query, msg, id, sendNs, rfl, hq, ⟨later, t', hlater, hlt⟩, hz⟩ := hC
  obtain ⟨t₁, he, -⟩ | ⟨w, st, hno, -⟩ | ⟨t₁, query₁, msg₁, id₁, sendNs₁, he, hq₁, -, hmsg, rfl⟩ :=
    step_cases h
  · cases he
  · exact absurd rfl (hno t query msg)
  · cases he
    obtain ⟨rfl, rfl⟩ := Prod.mk.inj (Option.some.inj (hq₁.symm.trans hq))
    have hne : s.owner id₁ ≠ query :=
      fun heq => absurd (hs.latest later id₁ t' hlater) (by omega)
    rw [misattributed, misattributed, (answer_of_occupied hmsg t query hz).2,
      List.filter_cons_of_pos (by simpa using hne), List.length_cons]
    exact Nat.lt_succ_self _

/-- A sample is computed from the stamp of the slot's owner. -/
structure Sampled (s : Traced) : Prop where
  recorded : Recorded s
  value : ∀ c ∈ s.completions, ∀ v, c.sample = some v →
    ∃ id t, s.queries[c.owner]? = some (id, t) ∧ v = max 1 ((c.recvNs - max t 1) / 1000)

/-- Sent queries stay in the record. -/
theorem sampled_step {cfg : Config} (s : Traced) (e : ServerEvent) (s' : Traced)
    (hs : Sampled s) (h : step cfg s e = some s') : Sampled s' := by
  refine ⟨recorded_step s e s' hs.recorded h, ?_⟩
  obtain ⟨t, -, rfl⟩ | ⟨w, st, -, -, -, rfl⟩ | ⟨t, query, msg, id, sendNs, he, hq, -, hmsg, rfl⟩ :=
    step_cases h
  · intro c hc v hv
    obtain ⟨id, t', hq, hval⟩ := hs.value c hc v hv
    exact ⟨id, t', List.getElem?_append_left (List.getElem?_eq_some_iff.mp hq).1 ▸ hq, hval⟩
  · exact hs.value
  · by_cases hz : s.worker.slots id = 0
    · rw [(answer_of_empty hmsg t query hz).2]
      exact hs.value
    · rw [(answer_of_occupied hmsg t query hz).2]
      intro c hc v hv
      rcases List.mem_cons.mp hc with rfl | hc
      · obtain ⟨t', howner, hstamp⟩ := hs.recorded.stamp id hz
        refine ⟨id, t', howner, ?_⟩
        simp only [hstamp] at hv
        split at hv
        · rw [max_comm]
          exact (Option.some.inj hv).symm
        · cases hv
      · exact hs.value c hc v hv

/-- A query sent after the clock's first nanosecond, whose stamp is its send clock. -/
def Clocked (_ : Traced) (e : ServerEvent) : Prop := ∀ t, e = .send t → 0 < t

theorem clocked_step {cfg : Config} (s : Traced) (e : ServerEvent) (s' : Traced)
    (hs : ∀ x ∈ s.queries, 0 < x.2) (hC : Clocked s e) (h : step cfg s e = some s') :
    ∀ x ∈ s'.queries, 0 < x.2 := by
  obtain ⟨t, he, rfl⟩ | ⟨w, st, -, -, -, rfl⟩ | ⟨t, query, msg, id, sendNs, -, -, -, -, rfl⟩ :=
    step_cases h
  · intro x hx
    rcases List.mem_append.mp hx with hx | hx
    · exact hs x hx
    · rw [List.mem_singleton.mp hx]
      exact hC t he
  · exact hs
  · exact hs

/-- In every run against a server that answers each query at most once, no reply takes the stamp of
another query exactly when every reply arrives before its id is issued again or finds its slot
empty. In such a run every sample is the round trip, in microseconds and at least `1`, of the very
query its reply answers. -/
theorem samples_attributed_iff (cfg : Config) (nextId : QueryId) (es : List ServerEvent)
    (s : Traced) (h : (machine cfg).run (start nextId) es = some s) :
    ((machine cfg).Always (fun q => ∀ c ∈ q.completions, c.owner = c.query) (start nextId) es ↔
        (machine cfg).Meets NotReissued (start nextId) es) ∧
      ((machine cfg).Meets NotReissued (start nextId) es →
        (machine cfg).Meets Clocked (start nextId) es →
        ∀ c ∈ s.completions, ∀ v, c.sample = some v →
          ∃ id t, s.queries[c.query]? = some (id, t) ∧ v = max 1 ((c.recvNs - t) / 1000)) := by
  refine ⟨?_, fun hC hclock c hc v hv => ?_⟩
  · rw [← (machine cfg).always_drift_eq_iff recorded_step misattributed_step_of_notReissued
      misattributed_step_of_reissued (recorded_start nextId) rfl h]
    exact (machine cfg).always_congr (I := fun _ => True) (fun _ _ _ _ _ => trivial)
      (fun _ _ => misattributed_eq_zero.symm) trivial es
  · have hzero : s.misattributed = 0 :=
      ((machine cfg).drift_eq_iff_meets recorded_step misattributed_step_of_notReissued
        misattributed_step_of_reissued (recorded_start nextId) h).mpr hC
    have hsampled : Sampled s := (machine cfg).run_invariant sampled_step
      ⟨recorded_start nextId, by simp [start]⟩ h
    have hpos : ∀ x ∈ s.queries, 0 < x.2 :=
      (machine cfg).run_invariant_of_meets clocked_step (by simp [start]) hclock h
    obtain ⟨id, t, hq, hval⟩ := hsampled.value c hc v hv
    rw [misattributed_eq_zero.mp hzero c hc] at hq
    have ht : max t 1 = t := Nat.max_eq_left (hpos (id, t) (List.mem_of_getElem? hq))
    exact ⟨id, t, hq, by rw [hval, ht]⟩

/-- One query, sent at 5 ns and answered 900 µs later: its reply takes its own stamp, and the sample is
900 µs. -/
theorem samples_attributed_one_query :
    ∃ s, (machine Worker.lossyConfig).run (start 7) [.send 5, .reply 900005 0 (replyTo 7)]
        = some s ∧
      (machine Worker.lossyConfig).Always (fun q => ∀ c ∈ q.completions, c.owner = c.query)
        (start 7) [.send 5, .reply 900005 0 (replyTo 7)] ∧
      ∃ c ∈ s.completions, c.sample = some 900 ∧
        ∃ id t, s.queries[c.query]? = some (id, t) ∧ 900 = max 1 ((c.recvNs - t) / 1000) := by
  have hmeets : (machine Worker.lossyConfig).Meets NotReissued (start 7)
      [.send 5, .reply 900005 0 (replyTo 7)] := by
    refine (machine Worker.lossyConfig).meets_cons rfl (by rintro _ _ _ _ _ ⟨⟩)
      ((machine Worker.lossyConfig).meets_cons rfl ?_ trivial)
    -- the only query sent is the one the reply answers
    rintro t query msg id sendNs ⟨⟩ -
    refine .inl fun later t' hlater => Nat.lt_succ_iff.mp ?_
    exact (List.getElem?_eq_some_iff.mp hlater).1
  have hclock : (machine Worker.lossyConfig).Meets Clocked (start 7)
      [.send 5, .reply 900005 0 (replyTo 7)] :=
    (machine Worker.lossyConfig).meets_of_forall_mem (by simp [Clocked]) _
  have hboth := samples_attributed_iff Worker.lossyConfig 7
    [.send 5, .reply 900005 0 (replyTo 7)] _ rfl
  exact ⟨_, rfl, hboth.1.mpr hmeets, _, List.mem_cons_self, rfl,
    hboth.2 hmeets hclock _ List.mem_cons_self 900 rfl⟩

/-! ## A reply that takes the wrong stamp

The schedule of `Worker.wrapRun`, with the first query answered late instead of never: its reply comes
10 µs after the 65537th send has stamped slot `0` again. -/

/-- Query number `k + 1` and the reply to it. -/
def answeredQuery (k : ℕ) : List ServerEvent :=
  [.send (20000 * (k + 1)),
    .reply (20000 * (k + 1) + 10000) (k + 1) (replyTo (Fin.ofNat 65536 (k + 1)))]

/-- The first `n` queries after the late one. -/
def answeredQueries (n : ℕ) : List ServerEvent := (List.range n).flatMap answeredQuery

/-- The late query, 65535 answered ones, the query that reuses the id, and the late reply. -/
def aliasRun : List ServerEvent :=
  .send 1 :: (answeredQueries 65535 ++
    [.send (20000 * 65536), .reply (20000 * 65536 + 10000) 0 (replyTo 0)])

theorem echoes_replyTo (id : QueryId) : echoes id (replyTo id) = true := by
  simp only [echoes, replyTo, u16FromBeBytes_ofNat]
  rfl

/-- While the first query waits, later ones have later numbers and are answered. -/
structure FirstWaits (n : ℕ) (s : Traced) : Prop where
  lost : Worker.OneLost n s.worker
  length_eq : s.queries.length = n + 1
  first : s.queries[0]? = some (0, 1)
  answered : ∀ a ∈ s.answered, 0 < a ∧ a ≤ n

theorem step_send {cfg : Config} {s : Traced} (hgate : s.worker.outstanding < cfg.maxOutstanding)
    (t : ℕ) : step cfg s (.send t) = some (s.issue t) := by
  simp only [step, Worker.step, if_pos hgate, Option.map_some, issue]

theorem step_reply {cfg : Config} {s : Traced} {query sendNs : ℕ} {id : QueryId} {msg : Datagram}
    (hq : s.queries[query]? = some (id, sendNs)) (hnew : query ∉ s.answered) (hmsg : echoes id msg)
    (t : ℕ) : step cfg s (.reply t query msg) = some (s.answer cfg t query id msg) := by
  simp only [step, hq]
  exact if_pos ⟨hnew, hmsg⟩

/-- One answered query leaves the table as it was. -/
theorem FirstWaits.answeredQuery {n : ℕ} {s : Traced} (hs : FirstWaits n s) (hn : n < 65535) :
    ∃ s', (machine Worker.lossyConfig).run s (Traced.answeredQuery n) = some s' ∧
      FirstWaits (n + 1) s' := by
  obtain ⟨hlost, hlen, hfirst, hans⟩ := hs
  have hgate : s.worker.outstanding < Worker.lossyConfig.maxOutstanding := by
    rw [hlost.outstanding_eq]
    decide
  have hq : (s.issue (20000 * (n + 1))).queries[n + 1]?
      = some (Fin.ofNat 65536 (n + 1), 20000 * (n + 1)) := by
    simp only [issue]
    rw [List.getElem?_append_right hlen.le, hlen, Nat.sub_self, hlost.nextId_eq]
    rfl
  have hnew : n + 1 ∉ (s.issue (20000 * (n + 1))).answered :=
    fun hmem => absurd (hans _ hmem).2 (by omega)
  have hrun : (machine Worker.lossyConfig).run s (Traced.answeredQuery n) = some _ :=
    (machine Worker.lossyConfig).run_cons_eq_some.mpr ⟨_, step_send hgate _,
      (machine Worker.lossyConfig).run_single (step_reply hq hnew (echoes_replyTo _) _)⟩
  refine ⟨_, hrun, ⟨?_, ?_, ?_, ?_⟩⟩
  · -- the worker below ends where `Worker.OneLost.answeredQuery` says
    obtain ⟨p, hp, hlost'⟩ := hlost.answeredQuery (p := (s.worker, s.stats)) hn
    have heq := Option.some.inj ((run_forget hrun).symm.trans hp)
    rw [← congrArg Prod.fst heq] at hlost'
    exact hlost'
  · show (s.queries ++ _).length = n + 1 + 1
    rw [List.length_append, hlen, List.length_singleton]
  · show (s.queries ++ _)[0]? = _
    rw [List.getElem?_append_left (by omega), hfirst]
  · intro a ha
    rcases List.mem_cons.mp ha with rfl | ha
    · omega
    · exact ⟨(hans a ha).1, (hans a ha).2.trans (Nat.le_succ n)⟩

/-- While the first query waits, any number of answered queries up to the wrap can follow. -/
theorem FirstWaits.answeredQueries {s : Traced} (hs : FirstWaits 0 s) {n : ℕ} (hn : n ≤ 65535) :
    ∃ s', (machine Worker.lossyConfig).run s (Traced.answeredQueries n) = some s' ∧
      FirstWaits n s' := by
  induction n with
  | zero => exact ⟨s, rfl, hs⟩
  | succ n ih =>
    obtain ⟨t, hrun, ht⟩ := ih (by omega)
    obtain ⟨u, hrun', hu⟩ := ht.answeredQuery (by omega)
    refine ⟨u, ?_, hu⟩
    rw [Traced.answeredQueries, List.range_succ, List.flatMap_append, List.flatMap_singleton]
    exact (machine Worker.lossyConfig).run_trans hrun hrun'

/-- Seen from the worker, answered queries are those of `Worker.answeredQueries`. -/
theorem map_toEvent_answeredQueries (n : ℕ) :
    (answeredQueries n).map ServerEvent.toEvent = Worker.answeredQueries n := by
  rw [answeredQueries, Worker.answeredQueries, List.map_flatMap]
  rfl

/-- The clock of the run never goes back: it is the one of `Worker.wrapRun`, and the late reply. -/
theorem clockOrdered_aliasRun : ClockOrdered (aliasRun.map ServerEvent.toEvent) := by
  have hes : aliasRun.map ServerEvent.toEvent
      = Worker.wrapRun ++ [.recv (20000 * 65536 + 10000) [replyTo 0]] := by
    rw [aliasRun, List.map_cons, List.map_append, map_toEvent_answeredQueries, Worker.wrapRun,
      List.cons_append, List.append_assoc]
    rfl
  rw [ClockOrdered, hes, List.filterMap_append, List.pairwise_append]
  refine ⟨Worker.clockOrdered_wrapRun, by simp [Event.clock?], ?_⟩
  intro t ht u hu
  have hle := Worker.clock_le_wrapRun t ht
  simp only [List.filterMap_cons, Event.clock?, List.filterMap_nil, List.mem_singleton] at hu
  omega

/-- The late reply is matched to the query that took its slot: a query sent at 1 ns and answered at
1 310 730 000 ns is reported with the 10 µs round trip of query 65536. -/
theorem sample_misattributed_after_wrap :
    1 ≤ Worker.lossyConfig.maxOutstanding ∧ Worker.lossyConfig.maxOutstanding ≤ 65536 ∧
      ClockOrdered (aliasRun.map ServerEvent.toEvent) ∧
      ∃ s, (machine Worker.lossyConfig).run (start 0) aliasRun = some s ∧
        s.queries[0]? = some (0, 1) ∧
        ⟨0, 65536, 1310730000, some 10⟩ ∈ s.completions := by
  refine ⟨by decide, by decide, clockOrdered_aliasRun, ?_⟩
  have hwaits : FirstWaits 0 ((start 0).issue 1) :=
    ⟨⟨rfl, rfl, rfl⟩, rfl, rfl, by simp [issue, start]⟩
  obtain ⟨s, hrun, ⟨hslots, hout, hnext⟩, hlen, hfirst, hans⟩ :=
    hwaits.answeredQueries (Nat.le_refl 65535)
  have hwrap : s.worker.nextId = 0 := hnext.trans (by decide)
  have hgate : s.worker.outstanding < Worker.lossyConfig.maxOutstanding := by
    rw [hout]
    decide
  have hq : (s.issue (20000 * 65536)).queries[0]? = some (0, 1) := by
    simp only [issue]
    rw [List.getElem?_append_left (by omega), hfirst]
  have hnew : 0 ∉ (s.issue (20000 * 65536)).answered :=
    fun hmem => absurd (hans 0 hmem).1 (by omega)
  have hslot : (s.issue (20000 * 65536)).worker.slots 0 = 20000 * 65536 := by
    simp only [issue, Worker.sent_slots, hwrap, SlotTable.store_self]
    rfl
  have howner : (s.issue (20000 * 65536)).owner 0 = 65536 := by
    simp only [issue, hwrap, Function.update_self, hlen]
  have hstart : step Worker.lossyConfig (start 0) (.send 1) = some ((start 0).issue 1) :=
    step_send (by decide) 1
  refine ⟨_, (machine Worker.lossyConfig).run_cons_eq_some.mpr
    ⟨(start 0).issue 1, hstart, (machine Worker.lossyConfig).run_trans hrun
      ((machine Worker.lossyConfig).run_cons_eq_some.mpr ⟨_, step_send hgate _,
        (machine Worker.lossyConfig).run_single
          (step_reply hq hnew (echoes_replyTo 0) (20000 * 65536 + 10000))⟩)⟩, hq, ?_⟩
  rw [(answer_of_occupied (echoes_replyTo 0) _ 0 (by rw [hslot]; decide)).2, hslot, howner]
  exact List.mem_cons_self

end Traced

end Dnsmark.Udp
