import Tperf.Dataplane.Fleet
import Tperf.Metrics.Fields
import Tperf.Server.MetricsLoop

/-!
# The hosts of a test and their metrics loops
-/

namespace Tperf.Server
open Lib Metrics Proto Dataplane

/-- The tasks of all hosts, and the metrics loop of each. -/
structure Measured (σ : Type) where
  fleet : σ
  loops : List MetricsLoop

inductive MeasuredLabel (ι : Type)
  | fleet (l : ι)
  | metrics (a : Nat) (l : LoopLabel)

/-- A snapshot is that of the counters. -/
def LoopLabel.looksAt (c : Counters) : LoopLabel → Bool
  | .snap c' => c' = c
  | _ => true

/-- `counters s a` are those of the host `a`. A snapshot of them is one step here; `snapshot_all` loads one atomic
after the other. -/
def measured {σ ι : Type} (M : Machine σ ι) (counters : σ → Nat → Option Counters) :
    Machine (Measured σ) (MeasuredLabel ι) where
  step s
    | .fleet l => (M.step s.fleet l).map fun fleet => ⟨fleet, s.loops⟩
    | .metrics a l => do
        let c ← counters s.fleet a
        let m ← s.loops[a]?
        let m ← metricsLoop.step m l
        if l.looksAt c then some ⟨s.fleet, s.loops.set a m⟩ else none

/-- `clkTck a` is what `clk_tck` returns on the host `a`. -/
def startLoops (S : Site) (clkTck : Nat → UInt64) : List MetricsLoop :=
  (List.range S.hosts).map fun a => .init (S.assignment a).selfName S.cfg.hostlist (clkTck a)

def measuredTcp (S : TcpSite) : Machine (Measured TcpFleet) (MeasuredLabel TcpFleetLabel) :=
  measured (tcpFleet S) fun s a => s.hosts[a]?.map (·.counters)

def measuredUdp (S : Site) : Machine (Measured UdpFleet) (MeasuredLabel UdpFleetLabel) :=
  measured (udpFleet S) fun s a => s.hosts[a]?.map (·.send.test.counters)

/-- What a window shows of the host `name`. -/
def shownOf (f : Field) (name : Str) (w : MetricWindow) : Nat :=
  ((w.peers.filter fun e => e.peer = name).map fun e => (f.ofPeer e).toNat).sum

end Tperf.Server
