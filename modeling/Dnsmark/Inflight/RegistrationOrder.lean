import Dnsmark.Udp.FloodRegistration
import Dnsmark.Xdp.Registration

/-!
# Registration order in both datapaths

Both senders hand a batch to the kernel or the NIC first and insert its ids afterwards, while
another thread may already hold the reply.  `SharedInFlight::take` gives two reasons for an empty
slot, "already taken, or the id was reused"; a reply that overtakes the insertion of its own id is a
third.  It is the only one when the server answers every query once and in time and no id is
reissued early.
-/

namespace Dnsmark.Inflight

open Dnsmark.Xdp Dnsmark.Udp.Flood

/-- For any number of workers of either datapath and every interleaving in which every query is
answered once and in time and no id is reissued while registered: every reply is matched and no
query is counted as a timeout, if and only if every reply is received after its sender has inserted
its id. -/
theorem replies_matched_iff_registeredFirst (xcfg : Xdp.Config) (N : ℕ) (ucfg : Udp.Flood.Config) (M : ℕ)
    (ids : Fin M → QueryId) (hloop : 0 < xcfg.maxOutstanding) (hlat : ucfg.trackLatency = true)
    (xes : List (Fin N × Xdp.Act)) (x : Net N)
    (hx : (Net.machine xcfg N).run (Net.start N) xes = some x)
    (ues : List (Threads.Event (Fin M) Udp.Flood.Act Empty)) (u : Links M)
    (hu : (links ucfg M).machine.run (Links.start ids) ues = some u) :
    ((Net.machine xcfg N).Always Net.Clean (Net.start N) xes ↔
      (Net.machine xcfg N).Meets Net.RegisteredFirst (Net.start N) xes) ∧
    ((links ucfg M).machine.Always Links.Clean (Links.start ids) ues ↔
      (links ucfg M).machine.Meets Links.RegisteredFirst (Links.start ids) ues) := by
  exact ⟨Net.always_clean_iff (Xdp.Config.firehose_eq_false hloop) hx, Links.always_clean_iff hlat hu⟩

/-- Worker 0 of two sends and inserts id 0, then worker 1 receives its reply. -/
def xdpInsertFirst : List (Fin 2 × Xdp.Act) :=
  [(0, .checkShutdown), (0, .gate 1), (0, .transmit 1 1), (0, .insert 5), (1, .checkShutdown),
    (1, .gate 0), (1, .replies), (1, .reply 0 0 9)]

/-- The sender inserts id 0 and then the receiver gets its reply. -/
def udpInsertFirst : List (Threads.Event (Fin 1) Udp.Flood.Act Empty) :=
  [.thread 0 (.tx .checkShutdown), .thread 0 (.tx (.batch 5 1)), .thread 0 (.tx .insert),
    .thread 0 (.rx .checkShutdown), .thread 0 (.rx .noSweep), .thread 0 (.rx .datagrams),
    .thread 0 (.rx (.datagram (replyTo 0) 9))]

/-- When the insertion comes first both datapaths match the reply. -/
theorem replies_matched_insertFirst :
    (Net.machine ⟨1, 3000000000, false⟩ 2).Always Net.Clean (Net.start 2) xdpInsertFirst ∧
    (links ⟨true, 3000000000⟩ 1).machine.Always Links.Clean (Links.start fun _ => 0) udpInsertFirst := by
  have hxdp : ((Net.machine ⟨1, 3000000000, false⟩ 2).run (Net.start 2) xdpInsertFirst).isSome := by
    decide +kernel
  have hudp : ((links ⟨true, 3000000000⟩ 1).machine.run (Links.start fun _ => 0)
      udpInsertFirst).isSome := by
    decide +kernel
  obtain ⟨s, hs⟩ := Option.isSome_iff_exists.mp hxdp
  obtain ⟨t, ht⟩ := Option.isSome_iff_exists.mp hudp
  obtain ⟨hxiff, huiff⟩ := replies_matched_iff_registeredFirst ⟨1, 3000000000, false⟩ 2
    ⟨true, 3000000000⟩ 1 (fun _ => 0) (by decide) rfl xdpInsertFirst s hs udpInsertFirst t ht
  exact ⟨hxiff.mpr (by decide +kernel), huiff.mpr (by decide +kernel)⟩

/-- Worker 1 receives the reply to id 0 before worker 0, which sent it, inserts it. -/
def xdpReplyFirst : List (Fin 2 × Xdp.Act) :=
  [(0, .checkShutdown), (0, .gate 1), (0, .transmit 1 1), (1, .checkShutdown), (1, .gate 0),
    (1, .replies), (1, .reply 0 0 9), (0, .insert 10)]

/-- The receiver gets the reply to id 0 before the sender inserts it. -/
def udpReplyFirst : List (Threads.Event (Fin 1) Udp.Flood.Act Empty) :=
  [.thread 0 (.tx .checkShutdown), .thread 0 (.tx (.batch 5 1)), .thread 0 (.rx .checkShutdown),
    .thread 0 (.rx .noSweep), .thread 0 (.rx .datagrams), .thread 0 (.rx (.datagram (replyTo 0) 9)),
    .thread 0 (.tx .insert)]

/-- In either datapath the reply that came first is missed, and its query then occupies its slot
with nothing left to match it: the next sweep past its horizon counts it as a timeout. -/
theorem reply_overtakes_registration :
    (∃ s, (Net.machine ⟨1, 3000000000, false⟩ 2).run (Net.start 2) xdpReplyFirst = some s ∧
      s.missed = 1 ∧ s.unanswered = ∅ ∧ s.slots 0 = 10) ∧
    (∃ s : Links 1, (links ⟨true, 3000000000⟩ 1).machine.run (Links.start fun _ => 0) udpReplyFirst
        = some s ∧
      (s.threads 0).missed = 1 ∧ (s.threads 0).unanswered = ∅ ∧ (s.threads 0).pair.slots 0 = 5) := by
  have hxdp : ((Net.machine ⟨1, 3000000000, false⟩ 2).run (Net.start 2) xdpReplyFirst).map
      (fun s => (s.missed, s.unanswered, s.slots 0)) = some (1, ∅, 10) := by decide +kernel
  have hudp : ((links ⟨true, 3000000000⟩ 1).machine.run (Links.start fun _ => 0) udpReplyFirst).map
      (fun s => ((s.threads 0).missed, (s.threads 0).unanswered, (s.threads 0).pair.slots 0))
      = some (1, ∅, 5) := by decide +kernel
  obtain ⟨s, hs, heq⟩ := Option.map_eq_some_iff.mp hxdp
  obtain ⟨t, ht, heq'⟩ := Option.map_eq_some_iff.mp hudp
  simp only [Prod.mk.injEq] at heq heq'
  exact ⟨⟨s, hs, heq⟩, ⟨t, ht, heq'⟩⟩

end Dnsmark.Inflight
