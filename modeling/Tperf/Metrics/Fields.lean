import Tperf.Metrics.Basic

/-!
# The five counters of a record
-/

namespace Tperf.Metrics
open Lib Proto

inductive Field
  | bytesSent
  | bytesRecv
  | packetsSent
  | packetsRecv
  | packetsDropped
  deriving DecidableEq, Repr

namespace Field

def ofSnap : Field → Snap → UInt64
  | bytesSent, s => s.bytesSent
  | bytesRecv, s => s.bytesRecv
  | packetsSent, s => s.packetsSent
  | packetsRecv, s => s.packetsRecv
  | packetsDropped, s => s.packetsDropped

def ofPeer : Field → PeerMetrics → UInt64
  | bytesSent, p => p.bytesSent
  | bytesRecv, p => p.bytesRecv
  | packetsSent, p => p.packetsSent
  | packetsRecv, p => p.packetsRecv
  | packetsDropped, p => p.packetsDropped

def ofWindow : Field → MetricWindow → UInt64
  | bytesSent, w => w.bytesSent
  | bytesRecv, w => w.bytesRecv
  | packetsSent, w => w.packetsSent
  | packetsRecv, w => w.packetsRecv
  | packetsDropped, w => w.packetsDropped

/-- The field of a host's entry, 0 where the host has none. -/
def ofEntry (f : Field) (e : Option PeerMetrics) : Nat := (e.map fun p => (f.ofPeer p).toNat).getD 0

/-- The field of the host `j` in a list of snapshots. -/
def ofHost (f : Field) (j : Nat) (peers : List Snap) : Nat :=
  (peers[j]?.map fun x => (f.ofSnap x).toNat).getD 0

end Field

theorem Field.ofHost_snapshotAll {c : Counters} {id : UInt32} {a : AtomStats} (f : Field)
    (h : c.peer id = some a) : f.ofHost id.toNat c.snapshotAll.2 = (f.ofSnap a.snapshot).toNat := by
  have h : c.peers[id.toNat]? = some a := h
  simp [ofHost, Counters.snapshotAll, h]

/-! ## Differences -/

/-- No counter of `a` is above that of `b`. -/
def Snap.le (a b : Snap) : Bool :=
  a.bytesSent ≤ b.bytesSent && a.bytesRecv ≤ b.bytesRecv && a.packetsSent ≤ b.packetsSent &&
    a.packetsRecv ≤ b.packetsRecv && a.packetsDropped ≤ b.packetsDropped

theorem Snap.le_field {a b : Snap} (h : a.le b = true) (f : Field) : f.ofSnap a ≤ f.ofSnap b := by
  simp only [Snap.le, Bool.and_eq_true, decide_eq_true_eq] at h
  obtain ⟨⟨⟨⟨h₁, h₂⟩, h₃⟩, h₄⟩, h₅⟩ := h
  cases f with
  | bytesSent => exact h₁
  | bytesRecv => exact h₂
  | packetsSent => exact h₃
  | packetsRecv => exact h₄
  | packetsDropped => exact h₅

theorem Field.ofSnap_delta (f : Field) (a b : Snap) :
    f.ofSnap (a.delta b) = satSub (f.ofSnap b) (f.ofSnap a) := by
  cases f <;> rfl

/-- Where nothing wraps, a delta and what came before are what came after. -/
theorem Field.delta_add (f : Field) {a b : Snap} (h : a.le b = true) :
    (f.ofSnap (a.delta b)).toNat + (f.ofSnap a).toNat = (f.ofSnap b).toNat := by
  have hle := UInt64.le_iff_toNat_le.mp (Snap.le_field h f)
  rw [f.ofSnap_delta, satSub_toNat]
  omega

/-! ## The entries of a window, by host -/

/-- The entry of each host, if it has one. -/
def entries (names : List Str) (deltas : List Snap) : List (Option PeerMetrics) :=
  names.zipWith (fun n d => if d.active then some (d.entry n) else none) deltas

theorem buildWindow_peers (server : Str) (ws we dur : UInt64) (total : Snap) (deltas : List Snap)
    (names : List Str) (cpu : Rat) (mem : UInt64) :
    (buildWindow server ws we dur total deltas names cpu mem).peers =
      (entries names deltas).filterMap id := by
  simp only [buildWindow, entries]
  induction names generalizing deltas with
  | nil => simp
  | cons n names ih =>
      cases deltas with
      | nil => simp
      | cons d deltas =>
          cases h : d.active with
          | true => simpa [h] using ih deltas
          | false => simpa [h] using ih deltas

theorem Field.ofEntry_entry (f : Field) (n : Str) (d : Snap) :
    f.ofEntry (if d.active then some (d.entry n) else none) = (f.ofSnap d).toNat := by
  cases h : d.active with
  | true => cases f <;> rfl
  | false =>
      -- the filter leaves out a host whose five counters are all 0
      have hz : ∀ x : UInt64, ¬ x > 0 → x.toNat = 0 := by
        intro x hx
        simpa [UInt64.lt_iff_toNat_lt] using hx
      simp only [Snap.active, Bool.or_eq_false_iff, decide_eq_false_iff_not] at h
      obtain ⟨⟨⟨⟨h₁, h₂⟩, h₃⟩, h₄⟩, h₅⟩ := h
      cases f with
      | bytesSent => exact (hz _ h₁).symm
      | bytesRecv => exact (hz _ h₂).symm
      | packetsSent => exact (hz _ h₃).symm
      | packetsRecv => exact (hz _ h₄).symm
      | packetsDropped => exact (hz _ h₅).symm

theorem entries_length {names : List Str} {deltas : List Snap} (h : deltas.length = names.length) :
    (entries names deltas).length = names.length := by
  rw [entries, List.length_zipWith, h, Nat.min_self]

theorem entries_getElem? {names : List Str} {deltas : List Snap} {j : Nat} {n : Str} {d : Snap}
    (hn : names[j]? = some n) (hd : deltas[j]? = some d) :
    (entries names deltas)[j]? = some (if d.active then some (d.entry n) else none) := by
  rw [entries, List.getElem?_zipWith, hn, hd]

/-- An entry carries the name of its host. -/
theorem entries_name {names : List Str} {deltas : List Snap} {j : Nat} {e : PeerMetrics}
    (h : (entries names deltas)[j]? = some (some e)) : names[j]? = some e.peer := by
  rw [entries, List.getElem?_zipWith] at h
  cases hn : names[j]? with
  | none => simp [hn] at h
  | some n =>
      cases hd : deltas[j]? with
      | none => simp [hn, hd] at h
      | some d =>
          simp only [hn, hd, Option.some.injEq, Option.ite_none_right_eq_some] at h
          rw [← h.2]; rfl

end Tperf.Metrics
