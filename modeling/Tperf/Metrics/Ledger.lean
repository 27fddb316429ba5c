import Mathlib.Data.UInt
import Mathlib.Algebra.Group.InjSurj
import Mathlib.Algebra.Group.Prod
import Mathlib.Algebra.BigOperators.Group.List.Lemmas
import Tperf.Lib.Ledger
import Tperf.Metrics.Basic

/-!
# Counters as a ledger

The five counters of a record are added one by one, modulo `2 ^ 64`.
-/

namespace Tperf.Metrics
open Lib Proto

namespace AtomStats

def toTuple (a : AtomStats) : UInt64 × UInt64 × UInt64 × UInt64 × UInt64 :=
  (a.bytesSent, a.bytesRecv, a.packetsSent, a.packetsRecv, a.packetsDropped)

theorem toTuple_injective : Function.Injective toTuple := by
  intro a b h
  cases a
  cases b
  simpa [toTuple] using h

instance : Zero AtomStats := ⟨.default⟩

instance : Add AtomStats where
  add a b := ⟨a.bytesSent + b.bytesSent, a.bytesRecv + b.bytesRecv, a.packetsSent + b.packetsSent,
    a.packetsRecv + b.packetsRecv, a.packetsDropped + b.packetsDropped⟩

instance : SMul Nat AtomStats where
  smul n a := ⟨n • a.bytesSent, n • a.bytesRecv, n • a.packetsSent, n • a.packetsRecv,
    n • a.packetsDropped⟩

instance : AddCommMonoid AtomStats :=
  toTuple_injective.addCommMonoid toTuple rfl (fun _ _ => rfl) fun _ _ => rfl

/-- What `add_sent` adds. -/
def ofSent (bytes packets : UInt64) : AtomStats := ⟨bytes, 0, packets, 0, 0⟩

/-- What `add_recv` adds. -/
def ofRecv (bytes packets : UInt64) : AtomStats := ⟨0, bytes, 0, packets, 0⟩

/-- What `add_drop` adds. -/
def ofDrop (n : UInt64) : AtomStats := ⟨0, 0, 0, 0, n⟩

theorem add_def (a b : AtomStats) :
    a + b = ⟨a.bytesSent + b.bytesSent, a.bytesRecv + b.bytesRecv, a.packetsSent + b.packetsSent,
      a.packetsRecv + b.packetsRecv, a.packetsDropped + b.packetsDropped⟩ := rfl

variable (a : AtomStats) (bytes packets n : UInt64)

theorem addSent_eq_add : a.addSent bytes packets = a + ofSent bytes packets := by
  simp [addSent_eq, add_def, ofSent]

theorem addRecv_eq_add : a.addRecv bytes packets = a + ofRecv bytes packets := by
  simp [addRecv_eq, add_def, ofRecv]

theorem addDrop_eq_add : a.addDrop n = a + ofDrop n := by
  simp [addDrop_eq, add_def, ofDrop]

theorem ofRecv_add (b b' p p' : UInt64) : ofRecv b p + ofRecv b' p' = ofRecv (b + b') (p + p') := by
  simp [add_def, ofRecv]

/-- A counter of the sum is the sum of that counter. -/
theorem sum_counter {g : AtomStats → UInt64} (hadd : ∀ a b, g (a + b) = g a + g b) (hzero : g 0 = 0)
    (l : List AtomStats) : g l.sum = (l.map g).sum := by
  induction l with
  | nil => exact hzero
  | cons a l ih => rw [List.sum_cons, hadd, ih, List.map_cons, List.sum_cons]

end AtomStats

namespace Counters

def ledger (c : Counters) : Ledger AtomStats := ⟨c.total, c.peers⟩

/-- The totals are the sums over the peers, but for `bytes` and `packets` received more. -/
structure TotalsExceed (c : Counters) (bytes packets : Nat) : Prop where
  bytesSent : c.total.bytesSent = (c.peers.map (·.bytesSent)).sum
  bytesRecv : c.total.bytesRecv = (c.peers.map (·.bytesRecv)).sum + UInt64.ofNat bytes
  packetsSent : c.total.packetsSent = (c.peers.map (·.packetsSent)).sum
  packetsRecv : c.total.packetsRecv = (c.peers.map (·.packetsRecv)).sum + UInt64.ofNat packets
  packetsDropped : c.total.packetsDropped = (c.peers.map (·.packetsDropped)).sum

theorem totalsExceed {c : Counters} {bytes packets : Nat}
    (h : c.ledger.Exceeds (.ofRecv (UInt64.ofNat bytes) (UInt64.ofNat packets))) :
    c.TotalsExceed bytes packets := by
  have h : c.total = c.peers.sum + .ofRecv (UInt64.ofNat bytes) (UInt64.ofNat packets) := h
  have hfield : ∀ {g : AtomStats → UInt64}, (∀ a b, g (a + b) = g a + g b) → g 0 = 0 →
      g c.total = (c.peers.map g).sum + g (.ofRecv (UInt64.ofNat bytes) (UInt64.ofNat packets)) := by
    intro g hadd hzero
    rw [h, hadd, AtomStats.sum_counter hadd hzero]
  constructor
  · exact (hfield (fun _ _ => rfl) rfl).trans (UInt64.add_zero _)
  · exact hfield (fun _ _ => rfl) rfl
  · exact (hfield (fun _ _ => rfl) rfl).trans (UInt64.add_zero _)
  · exact hfield (fun _ _ => rfl) rfl
  · exact (hfield (fun _ _ => rfl) rfl).trans (UInt64.add_zero _)

/-- Fresh counters. -/
theorem ledger_new (hostlist : List Str) : (new hostlist).ledger.Exceeds 0 := by
  have hsum : ((new hostlist).peers).sum = 0 :=
    List.sum_eq_zero fun a ha => (List.mem_map.mp ha).elim fun _ h => h.2.symm
  change 0 = ((new hostlist).peers).sum + 0
  rw [hsum, add_zero]

variable {c : Counters} {f : AtomStats → AtomStats} {d : AtomStats}

theorem hands_onTotal (hf : ∀ a, f a = a + d) (p : AtomStats) :
    c.ledger.Hands p (c.onTotal f).ledger (p + d) := by
  have h := Ledger.hands_total c.ledger p d
  rwa [← hf] at h

theorem hands_onTotal_zero (hf : ∀ a, f a = a + d) : c.ledger.Hands 0 (c.onTotal f).ledger d := by
  have h := @hands_onTotal c f d hf 0
  rwa [zero_add] at h

theorem hands_onPeer (hf : ∀ a, f a = a + d) {id : UInt32} (hid : id.toNat < c.names.length) :
    c.ledger.Hands d (c.onPeer id f).ledger 0 := by
  obtain rfl : f = (· + d) := funext hf
  exact Ledger.hands_part c.ledger (by rw [ledger, c.aligned]; exact hid) d

end Counters

end Tperf.Metrics
