import Tperf.Dataplane.Lemmas.Ledger
import Tperf.Metrics.Fields

/-!
# What an update adds to the books of a peer
-/

namespace Tperf.Dataplane
open Lib Metrics Proto

theorem Counters.onPeer_peer {c : Counters} {d id : UInt32} {f : AtomStats → AtomStats} {a : AtomStats}
    (h : c.peer id = some a) : (c.onPeer d f).peer id = some (if d = id then f a else a) := by
  by_cases hd : d = id
  · subst hd
    simp [h]
  · have hne : d.toNat ≠ id.toNat := fun he => hd (UInt32.toNat_inj.mp he)
    simp only [Counters.onPeer, Counters.peer, List.getElem?_modify, hne, hd, if_false] at h ⊢
    simpa using h

/-! ## Bytes and packets -/

inductive Way
  | sent
  | received

def Way.bytes : Way → Field
  | .sent => .bytesSent
  | .received => .bytesRecv

def Way.packets : Way → Field
  | .sent => .packetsSent
  | .received => .packetsRecv

/-- As the counters hold them. -/
def amount (p : Nat × Nat) : UInt64 × UInt64 := (UInt64.ofNat p.1, UInt64.ofNat p.2)

@[simp] theorem amount_zero : amount 0 = 0 := rfl

@[simp] theorem amount_add (p q : Nat × Nat) : amount (p + q) = amount p + amount q :=
  Prod.ext (UInt64.ofNat_add p.1 q.1) (UInt64.ofNat_add p.2 q.2)

def sentOf (a : AtomStats) : UInt64 × UInt64 := (a.bytesSent, a.packetsSent)

def receivedOf (a : AtomStats) : UInt64 × UInt64 := (a.bytesRecv, a.packetsRecv)

/-- What an update adds. -/
def AddOp.amount : AddOp → UInt64 × UInt64
  | .sent bytes packets => (bytes, packets)
  | .drop _ => 0

theorem AddOp.apply_amount (op : AddOp) (a : AtomStats) :
    sentOf (op.apply a) = sentOf a + op.amount ∧ receivedOf (op.apply a) = receivedOf a := by
  cases op <;>
    simp [AddOp.apply, AddOp.amount, sentOf, receivedOf, AtomStats.addSent_eq, AtomStats.addDrop_eq]

theorem AddOp.Of.amount_eq {op : AddOp} {n packets : Nat} (h : op.Of n packets) :
    op.amount = Dataplane.amount (op.passes * n, op.passes * packets) := by
  rcases h with rfl | rfl
  · simp [AddOp.amount, Dataplane.amount, AddOp.passes]
  · simp only [AddOp.amount, AddOp.passes, Nat.zero_mul]
    rfl

/-! ## Without a wrap -/

theorem toNat_add_eq {c : UInt64} {undone total : Nat}
    (h : c + UInt64.ofNat undone = UInt64.ofNat total) (hle : undone ≤ total) (hlt : total < 2 ^ 64) :
    c.toNat + undone = total := by
  have hc : c = UInt64.ofNat (total - undone) := by
    apply add_right_cancel (b := UInt64.ofNat undone)
    rw [h, ← UInt64.ofNat_add, Nat.sub_add_cancel hle]
  rw [hc, UInt64.toNat_ofNat', Nat.mod_eq_of_lt (by omega)]
  exact Nat.sub_add_cancel hle

/-- What two counters show. -/
def shown (c : UInt64 × UInt64) : Nat × Nat := (c.1.toNat, c.2.toNat)

theorem shown_add_eq {c : UInt64 × UInt64} {undone total : Nat × Nat}
    (h : c + amount undone = amount total) (hle : undone ≤ total)
    (hlt : total.1 < 2 ^ 64 ∧ total.2 < 2 ^ 64) : shown c + undone = total := by
  obtain ⟨hbytes, hpackets⟩ := Prod.ext_iff.mp h
  exact Prod.ext (toNat_add_eq hbytes hle.1 hlt.1) (toNat_add_eq hpackets hle.2 hlt.2)

theorem sum_ofNat {α : Type} (f : α → Nat) (l : List α) :
    (l.map (UInt64.ofNat ∘ f)).sum = UInt64.ofNat (l.map f).sum := by
  induction l with
  | nil => rfl
  | cons x l ih => simp [ih, UInt64.ofNat_add]

end Tperf.Dataplane
