import Mathlib.Data.Rat.Cast.Defs
import Tperf.Lib.Word
import Tperf.Proto.Basic

/-!
# Counters and metric windows

An `AtomicU64` is its value; `fetch_add` wraps. Rates are exact rationals.
-/

namespace Tperf.Metrics
open Lib Proto

structure AtomStats where
  bytesSent : UInt64
  bytesRecv : UInt64
  packetsSent : UInt64
  packetsRecv : UInt64
  packetsDropped : UInt64
  deriving DecidableEq, Repr

structure Snap where
  bytesSent : UInt64
  bytesRecv : UInt64
  packetsSent : UInt64
  packetsRecv : UInt64
  packetsDropped : UInt64
  deriving DecidableEq, Repr

namespace AtomStats

def default : AtomStats := ⟨0, 0, 0, 0, 0⟩

def snapshot (a : AtomStats) : Snap where
  bytesSent := a.bytesSent
  bytesRecv := a.bytesRecv
  packetsSent := a.packetsSent
  packetsRecv := a.packetsRecv
  packetsDropped := a.packetsDropped

def addSent (a : AtomStats) (bytes packets : UInt64) : AtomStats :=
  let a := if bytes > 0 then { a with bytesSent := a.bytesSent + bytes } else a
  if packets > 0 then { a with packetsSent := a.packetsSent + packets } else a

def addRecv (a : AtomStats) (bytes packets : UInt64) : AtomStats :=
  let a := if bytes > 0 then { a with bytesRecv := a.bytesRecv + bytes } else a
  if packets > 0 then { a with packetsRecv := a.packetsRecv + packets } else a

def addDrop (a : AtomStats) (n : UInt64) : AtomStats :=
  if n > 0 then { a with packetsDropped := a.packetsDropped + n } else a

theorem add_eq_of_not_pos {a b : UInt64} (h : ¬ b > 0) : a + b = a := by
  have hb : b = 0 := UInt64.toNat_inj.mp (by simpa [UInt64.lt_iff_toNat_lt] using h)
  rw [hb, UInt64.add_zero]

/-- The tests for zero change nothing. -/
theorem addSent_eq (a : AtomStats) (b p : UInt64) :
    a.addSent b p = { a with bytesSent := a.bytesSent + b, packetsSent := a.packetsSent + p } := by
  by_cases hb : b > 0 <;> by_cases hp : p > 0 <;> simp [addSent, hb, hp, add_eq_of_not_pos]

theorem addRecv_eq (a : AtomStats) (b p : UInt64) :
    a.addRecv b p = { a with bytesRecv := a.bytesRecv + b, packetsRecv := a.packetsRecv + p } := by
  by_cases hb : b > 0 <;> by_cases hp : p > 0 <;> simp [addRecv, hb, hp, add_eq_of_not_pos]

theorem addDrop_eq (a : AtomStats) (n : UInt64) :
    a.addDrop n = { a with packetsDropped := a.packetsDropped + n } := by
  by_cases hn : n > 0 <;> simp [addDrop, hn, add_eq_of_not_pos]

end AtomStats

def Snap.delta (self later : Snap) : Snap where
  bytesSent := satSub later.bytesSent self.bytesSent
  bytesRecv := satSub later.bytesRecv self.bytesRecv
  packetsSent := satSub later.packetsSent self.packetsSent
  packetsRecv := satSub later.packetsRecv self.packetsRecv
  packetsDropped := satSub later.packetsDropped self.packetsDropped

/-! ## The counters of a test -/

/-- One record of counters for each name, since `Counters::new`. -/
structure Counters where
  total : AtomStats
  peers : List AtomStats
  names : List Str
  aligned : peers.length = names.length
  deriving DecidableEq

namespace Counters

def new (hostlist : List Str) : Counters where
  total := .default
  peers := hostlist.map fun _ => .default
  names := hostlist
  aligned := List.length_map _

/-- `c.total.f()`. -/
def onTotal (c : Counters) (f : AtomStats → AtomStats) : Counters := { c with total := f c.total }

/-- `if let Some(p) = c.peer(id) { p.f() }`. -/
def onPeer (c : Counters) (id : UInt32) (f : AtomStats → AtomStats) : Counters where
  total := c.total
  peers := c.peers.modify id.toNat f
  names := c.names
  aligned := (List.length_modify f c.peers id.toNat).trans c.aligned

def peer (c : Counters) (id : UInt32) : Option AtomStats := c.peers[id.toNat]?

def snapshotAll (c : Counters) : Snap × List Snap := (c.total.snapshot, c.peers.map AtomStats.snapshot)

variable (c : Counters) (id : UInt32) (f : AtomStats → AtomStats)

@[simp] theorem onTotal_total : (c.onTotal f).total = f c.total := rfl

@[simp] theorem onTotal_peers : (c.onTotal f).peers = c.peers := rfl

@[simp] theorem onTotal_names : (c.onTotal f).names = c.names := rfl

@[simp] theorem onTotal_peer : (c.onTotal f).peer id = c.peer id := rfl

@[simp] theorem onPeer_total : (c.onPeer id f).total = c.total := rfl

@[simp] theorem onPeer_names : (c.onPeer id f).names = c.names := rfl

@[simp] theorem onPeer_peer_self : (c.onPeer id f).peer id = (c.peer id).map f := by
  simp [onPeer, peer]

end Counters

/-! ## Windows -/

structure ProcSample where
  utimeTicks : UInt64
  stimeTicks : UInt64
  rssBytes : UInt64
  deriving DecidableEq, Repr

/-- `clkTck` is what `clk_tck` returns, positive on every system. -/
def cpuPct (clkTck : UInt64) (before after : ProcSample) (durationNs : UInt64) : Rat :=
  if durationNs = 0 then 0 else
    let dticks := satAdd (satSub after.utimeTicks before.utimeTicks)
      (satSub after.stimeTicks before.stimeTicks)
    let cpuNs := satMul dticks (1000000000 / clkTck)
    (cpuNs.toNat : Rat) / (durationNs.toNat : Rat) * 100

def bps (bytes durationNs : UInt64) : Rat :=
  if durationNs = 0 then 0 else (bytes.toNat : Rat) * 8 * 1000000000 / (durationNs.toNat : Rat)

/-- The filter of `build_window`: a peer with something to report. -/
def Snap.active (s : Snap) : Bool :=
  s.bytesSent > 0 || s.bytesRecv > 0 || s.packetsSent > 0 || s.packetsRecv > 0 || s.packetsDropped > 0

def Snap.entry (name : Str) (s : Snap) : PeerMetrics where
  peer := name
  bytesSent := s.bytesSent
  bytesRecv := s.bytesRecv
  packetsSent := s.packetsSent
  packetsRecv := s.packetsRecv
  packetsDropped := s.packetsDropped

def buildWindow (server : Str) (wallStartNs wallEndNs durationNs : UInt64) (total : Snap)
    (peerSnaps : List Snap) (names : List Str) (cpu : Rat) (memoryBytes : UInt64) :
    MetricWindow where
  server := server
  wallStartNs := wallStartNs
  wallEndNs := wallEndNs
  durationNs := durationNs
  bytesSent := total.bytesSent
  bytesRecv := total.bytesRecv
  sendBps := bps total.bytesSent durationNs
  recvBps := bps total.bytesRecv durationNs
  packetsSent := total.packetsSent
  packetsRecv := total.packetsRecv
  packetsDropped := total.packetsDropped
  cpuPct := cpu
  memoryBytes := memoryBytes
  peers := ((names.zip peerSnaps).filter fun p => p.2.active).map fun p => p.2.entry p.1

end Tperf.Metrics
