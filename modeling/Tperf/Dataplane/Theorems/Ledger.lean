import Tperf.Dataplane.Lemmas.Ledger
import Tperf.Dataplane.Theorems.Accounting
import Tperf.Proto.Frame

/-!
# Totals and peers
-/

namespace Tperf.Dataplane
open Lib Metrics Proto

/-- In every state in which no task is between its two updates, the totals of the test are the sums
over the peers, modulo `2 ^ 64`, but for what came from strangers. -/
theorem totals_sum_peers (cfg : Config) (assignment : Assignment) (payload : Payload)
    (htargets : ∀ t ∈ assignment.targets, t.id.toNat < cfg.hostlist.length) :
    (∀ (ls : List UdpIoLabel) (s : UdpIo),
      (udpIo cfg payload).run (.init cfg assignment) ls = some s → s.Settled →
      s.send.test.counters.TotalsExceed
        ((strays assignment.selfId cfg.hostlist.length s.received).map UInt64.toNat).sum
        (strays assignment.selfId cfg.hostlist.length s.received).length) ∧
    (∀ (lookup : Nat → Str → Option (List SocketAddr)) (port : UInt16) (family : Option AddrFamily)
      (ls : List TcpIoLabel) (s : TcpIo),
      (tcpIo cfg payload (buildIpMap lookup cfg.hostlist port family)).run (.init cfg assignment) ls =
        some s → s.Settled →
      s.counters.TotalsExceed (strayBytes (buildIpMap lookup cfg.hostlist port family) s.conns) 0) := by
  constructor
  · intro ls s hrun hsettled
    have hok : s.Ok cfg assignment.selfId :=
      Machine.run_invariant (fun h hs => h.step hs) hrun (UdpIo.init_ok htargets)
    exact hok.settled hsettled
  · intro lookup port family ls s hrun hsettled
    have hmap := buildIpMap_below lookup cfg.hostlist port family
    have hok : s.Ok cfg (buildIpMap lookup cfg.hostlist port family) :=
      Machine.run_invariant (fun h hs => h.step hmap hs) hrun (TcpIo.init_ok _ htargets)
    exact hok.settled hsettled

def toSecond : Assignment := ⟨"a".toList, 0, [], [⟨"b".toList, 1, []⟩]⟩

/-- A packet of a stranger, a packet of the second host, and a complete pass. -/
def udpStranger : List UdpIoLabel :=
  [.spawn, .recv (.datagram (packet 7 0 [1, 2, 3])), .recv (.datagram (packet 1 5 [9]))] ++
    List.replicate 4 (.recv .step) ++ List.replicate 3 (.send (.worker 0 .step)) ++
    [.send (.worker 0 .sendOk)] ++ List.replicate 3 (.send (.worker 0 .step))

/-- The second host has the address 2. -/
def lookupSecond (id : Nat) (_ : Str) : Option (List SocketAddr) :=
  if id = 1 then some [⟨.v4 2, 9100⟩] else none

/-- A stranger's connection, one of the second host, and a complete write. -/
def tcpStranger : List TcpIoLabel :=
  [.spawn, .accept (.v4 7), .accept (.v4 2), .read 0 100, .read 1 50, .step 1, .task 0 .connected,
    .task 0 .step, .task 0 (.accept 1), .task 0 .step, .task 0 .step]

theorem totals_sum_peers_stranger :
    (∃ s, (udpIo sampleConfig oneByte).run (.init sampleConfig toSecond) udpStranger = some s ∧
      s.send.test.counters.TotalsExceed 3 1) ∧
    (∃ s, (tcpIo sampleConfig oneByte (buildIpMap lookupSecond sampleConfig.hostlist 9100 none)).run
        (.init sampleConfig toSecond) tcpStranger = some s ∧
      s.counters.TotalsExceed 100 0) := by
  have htargets : ∀ t ∈ toSecond.targets, t.id.toNat < sampleConfig.hostlist.length := by decide
  obtain ⟨hudp, htcp⟩ := totals_sum_peers sampleConfig toSecond oneByte htargets
  constructor
  · have h : ((udpIo sampleConfig oneByte).run (.init sampleConfig toSecond) udpStranger).map (fun s =>
        (decide s.Settled, strays 0 2 s.received)) = some (true, [3]) := by decide +kernel
    obtain ⟨s, hs, h⟩ := Option.map_eq_some_iff.mp h
    obtain ⟨hsettled, hstrays⟩ := Prod.mk.inj h
    have hex := hudp _ s hs (of_decide_eq_true hsettled)
    change s.send.test.counters.TotalsExceed ((strays 0 2 s.received).map UInt64.toNat).sum
      (strays 0 2 s.received).length at hex
    rw [hstrays] at hex
    exact ⟨s, hs, hex⟩
  · have h : ((tcpIo sampleConfig oneByte (buildIpMap lookupSecond sampleConfig.hostlist 9100 none)).run
        (.init sampleConfig toSecond) tcpStranger).map (fun s => (decide s.Settled,
          strayBytes (buildIpMap lookupSecond sampleConfig.hostlist 9100 none) s.conns)) =
        some (true, 100) := by decide +kernel
    obtain ⟨s, hs, h⟩ := Option.map_eq_some_iff.mp h
    obtain ⟨hsettled, hstrays⟩ := Prod.mk.inj h
    have hex := htcp lookupSecond 9100 none _ s hs (of_decide_eq_true hsettled)
    rw [hstrays] at hex
    exact ⟨s, hs, hex⟩

end Tperf.Dataplane
