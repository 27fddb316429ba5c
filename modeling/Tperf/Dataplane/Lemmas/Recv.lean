import Tperf.Lib.HighWater
import Tperf.Dataplane.Lemmas.Packet

/-!
# What the receiver does with packets
-/

namespace Tperf.Dataplane
open Lib Lib.HighWater Metrics

/-! ## `note_seq` -/

/-- The slot holds the mark, saturated. -/
def AtMark (slot : Option UInt64) (e : Option Nat) : Prop :=
  slot.map UInt64.toNat = e.map fun k => min k (2 ^ 64 - 1)

theorem AtMark.none : AtMark none none := rfl

theorem AtMark.cases {slot : Option UInt64} {e : Option Nat} (h : AtMark slot e) :
    (slot = .none ∧ e = .none) ∨ ∃ exp k, slot = some exp ∧ e = some k ∧ exp.toNat = min k (2 ^ 64 - 1) := by
  cases slot with
  | none => cases e with
    | none => exact .inl ⟨rfl, rfl⟩
    | some k => cases h
  | some exp => cases e with
    | none => cases h
    | some k => exact .inr ⟨exp, k, rfl, rfl, Option.some.inj h⟩

theorem noteSeq_spec {slot : Option UInt64} {e : Option Nat} (seq : UInt64) (h : AtMark slot e) :
    AtMark (noteSeq slot seq).1 (advance e seq.toNat) ∧
      (noteSeq slot seq).2.toNat = (skipped e seq.toNat).length := by
  have hs := satAdd_toNat seq 1
  have hlt := seq.toNat_lt
  rcases h.cases with ⟨rfl, rfl⟩ | ⟨exp, k, rfl, rfl, hk⟩
  · refine ⟨congrArg some ?_, rfl⟩
    rw [hs]
    simp
  · have he := satAdd_toNat exp 1
    rw [skipped_length]
    simp only [noteSeq]
    by_cases heq : seq = exp
    · subst heq
      rw [if_pos rfl]
      refine ⟨congrArg some ?_, ?_⟩
      · simp only [he, UInt64.toNat_one, Option.getD_some]
        omega
      · simp only [UInt64.toNat_zero]
        omega
    · have hne : seq.toNat ≠ exp.toNat := fun h => heq (UInt64.toNat_inj.mp h)
      rw [if_neg heq]
      by_cases hgt : seq > exp
      · have hgt' : exp.toNat < seq.toNat := hgt
        rw [if_pos hgt]
        refine ⟨congrArg some ?_, ?_⟩
        · simp only [hs, UInt64.toNat_one, Option.getD_some]
          omega
        · rw [UInt64.toNat_sub_of_le _ _ (UInt64.le_iff_toNat_le.mpr (by omega))]
          omega
      · have hle : ¬ exp.toNat < seq.toNat := hgt
        rw [if_neg hgt]
        refine ⟨congrArg some ?_, ?_⟩
        · simp only [hk, Option.getD_some]
          omega
        · simp only [UInt64.toNat_zero]
          omega

/-! ## One packet -/

namespace UdpTest

variable (t : UdpTest) (id : UInt32) (f : AtomStats → AtomStats)

/-- The slot of a sender. -/
def slot : Option UInt64 := t.expected[id.toNat]?.getD none

def dropped : UInt64 := t.counters.total.packetsDropped

def peerDropped : Option UInt64 := (t.counters.peer id).map (·.packetsDropped)

/-- A host other than this one. -/
def Knows : Prop := id.toNat < t.npeers ∧ id ≠ t.selfId

variable {t id}

theorem Knows.peer (h : t.Knows id) : ∃ a, t.counters.peer id = some a := by
  have hlt : id.toNat < t.counters.peers.length := by rw [t.counters.aligned]; exact h.1
  exact ⟨_, List.getElem?_eq_getElem hlt⟩

theorem Knows.expected (h : t.Knows id) : t.expected[id.toNat]? = some (t.slot id) := by
  have hlt : id.toNat < t.expected.length := by rw [t.expected_length]; exact h.1
  rw [slot, List.getElem?_eq_getElem hlt, Option.getD_some]

/-- The receiver counts the data and notes the number of any packet that fits its buffer. -/
theorem recv_packet {seq : UInt64} {data : List UInt8} (hd : udpHdr + data.length ≤ udpRecvBuf) :
    t.recv (packet id seq data) =
      let n := UInt64.ofNat data.length
      let r := t.onTotal (·.addRecv n 1)
      if id.toNat < t.npeers ∧ id ≠ t.selfId then
        let r := r.onPeer id (·.addRecv n 1)
        match t.expected[id.toNat]? with
        | none => r
        | some slot =>
            let r := r.setExpected id (noteSeq slot seq).1
            (r.onTotal (·.addDrop (noteSeq slot seq).2)).onPeer id (·.addDrop (noteSeq slot seq).2)
      else r := by
  have htake : (packet id seq data).take udpRecvBuf = packet id seq data :=
    List.take_of_length_le (by rw [packet_length]; exact hd)
  have hlen : (packet id seq data).length - udpHdr = data.length := by rw [packet_length]; omega
  have hplen : (UInt32.ofNat data.length).toUInt64 = UInt64.ofNat data.length := by
    simp only [udpRecvBuf] at hd
    apply UInt64.toNat_inj.mp
    simp only [UInt32.toNat_toUInt64, UInt32.toNat_ofNat', UInt64.toNat_ofNat']
    omega
  simp only [recv, htake, readHdr_packet, hlen, hplen, ne_eq, not_true_eq_false, if_false]
  rfl

/-- What is left of the drop counters, the slot and the rest by a packet from a known sender. -/
theorem recv_known (seq : UInt64) {data : List UInt8} (hd : udpHdr + data.length ≤ udpRecvBuf)
    (h : t.Knows id) :
    let r := t.recv (packet id seq data)
    r.Knows id ∧ r.slot id = (noteSeq (t.slot id) seq).1 ∧
      r.dropped = t.dropped + (noteSeq (t.slot id) seq).2 ∧
      r.peerDropped id = (t.peerDropped id).map (· + (noteSeq (t.slot id) seq).2) := by
  have hlt : id.toNat < t.expected.length := by rw [t.expected_length]; exact h.1
  have hc : id.toNat < t.npeers ∧ id ≠ t.selfId := h
  obtain ⟨a, ha⟩ := h.peer
  simp only [recv_packet hd, if_pos hc, h.expected]
  refine ⟨h, ?_, ?_, ?_⟩
  · simp [slot, onPeer, onTotal, setExpected, hlt]
  · simp [dropped, onPeer, onTotal, setExpected, AtomStats.addRecv_eq, AtomStats.addDrop_eq]
  · simp [peerDropped, onPeer, onTotal, setExpected, AtomStats.addRecv_eq, AtomStats.addDrop_eq, ha]

/-! ## A sequence of packets -/

/-- The drops of `t` from the sender `id`, counted from zero and with the mark `e`. -/
structure Counted (t : UdpTest) (id : UInt32) (e : Option Nat) (n : Nat) : Prop where
  knows : t.Knows id
  mark : AtMark (t.slot id) e
  total : t.dropped = UInt64.ofNat n
  peer : t.peerDropped id = some (UInt64.ofNat n)

theorem Counted.recv {e : Option Nat} {n : Nat} (h : t.Counted id e n) (seq : UInt64)
    {data : List UInt8} (hd : udpHdr + data.length ≤ udpRecvBuf) :
    (t.recv (packet id seq data)).Counted id (advance e seq.toNat)
      (n + (skipped e seq.toNat).length) := by
  obtain ⟨hk, hs, ht, hp⟩ := recv_known seq hd h.knows
  obtain ⟨hm, hn⟩ := noteSeq_spec seq h.mark
  have hadd : UInt64.ofNat n + (noteSeq (t.slot id) seq).2 =
      UInt64.ofNat (n + (skipped e seq.toNat).length) := by
    rw [UInt64.ofNat_add, ← hn, UInt64.ofNat_toNat]
  refine ⟨hk, ?_, ?_, ?_⟩
  · rw [hs]; exact hm
  · rw [ht, h.total, hadd]
  · rw [hp, h.peer, Option.map_some, hadd]

/-- After any packets from one sender the drops are the numbers skipped. -/
theorem Counted.foldl {e : Option Nat} {n : Nat} (h : t.Counted id e n) {l : List (List UInt8)}
    (hl : ∀ d ∈ l, IsPacket id d) :
    (l.foldl UdpTest.recv t).Counted id (HighWater.mark e (l.map seqOf))
      (n + (skips e (l.map seqOf)).length) := by
  induction l generalizing t e n with
  | nil => exact h
  | cons d l ih =>
      obtain ⟨seq, data, rfl, hd⟩ := hl d List.mem_cons_self
      have h₁ := h.recv seq hd
      have h₂ := ih h₁ fun q hq => hl q (List.mem_cons_of_mem _ hq)
      simp only [List.map_cons, List.foldl_cons, mark_cons, skips, List.length_append, seqOf_packet]
      rw [← Nat.add_assoc]
      exact h₂

/-! ## What is received -/

/-- `r` has received `bytes` and `packets` more than `t` from the sender `id`. -/
structure Received (t : UdpTest) (id : UInt32) (bytes packets : Nat) (r : UdpTest) : Prop where
  knows : r.Knows id ↔ t.Knows id
  bytesRecv : r.counters.total.bytesRecv = t.counters.total.bytesRecv + UInt64.ofNat bytes
  packetsRecv : r.counters.total.packetsRecv = t.counters.total.packetsRecv + UInt64.ofNat packets
  peer : t.Knows id → (r.counters.peer id).map (fun a => (a.bytesRecv, a.packetsRecv)) =
    (t.counters.peer id).map fun a =>
      (a.bytesRecv + UInt64.ofNat bytes, a.packetsRecv + UInt64.ofNat packets)

theorem Received.refl (t : UdpTest) (id : UInt32) : t.Received id 0 0 t where
  knows := Iff.rfl
  bytesRecv := (UInt64.add_zero _).symm
  packetsRecv := (UInt64.add_zero _).symm
  peer _ := by cases t.counters.peer id <;> simp

theorem Received.recv {r : UdpTest} {bytes packets : Nat} (h : t.Received id bytes packets r)
    (seq : UInt64) {data : List UInt8} (hd : udpHdr + data.length ≤ udpRecvBuf) :
    t.Received id (bytes + data.length) (packets + 1) (r.recv (packet id seq data)) := by
  have hb := h.bytesRecv
  have hp := h.packetsRecv
  rw [recv_packet hd]
  by_cases hk : r.Knows id
  · have hc : id.toNat < r.npeers ∧ id ≠ r.selfId := hk
    obtain ⟨a, ha⟩ := (h.knows.mp hk).peer
    obtain ⟨a', ha'⟩ := hk.peer
    have hpeer := h.peer (h.knows.mp hk)
    simp only [ha, ha', Option.map_some, Option.some.injEq, Prod.mk.injEq] at hpeer
    simp only [if_pos hc, hk.expected]
    refine ⟨h.knows, ?_, ?_, fun _ => ?_⟩
    · simp [onPeer, onTotal, setExpected, AtomStats.addRecv_eq, AtomStats.addDrop_eq, hb,
        UInt64.add_assoc]
    · simp [onPeer, onTotal, setExpected, AtomStats.addRecv_eq, AtomStats.addDrop_eq, hp,
        UInt64.add_assoc]
    · simp [onPeer, onTotal, setExpected, AtomStats.addRecv_eq, AtomStats.addDrop_eq, ha, ha',
        hpeer.1, hpeer.2, UInt64.add_assoc]
  · have hc : ¬ (id.toNat < r.npeers ∧ id ≠ r.selfId) := hk
    simp only [if_neg hc]
    refine ⟨h.knows, ?_, ?_, fun ht => absurd (h.knows.mpr ht) hk⟩
    · simp [onTotal, AtomStats.addRecv_eq, hb, UInt64.add_assoc]
    · simp [onTotal, AtomStats.addRecv_eq, hp, UInt64.add_assoc]

theorem Received.foldl {r : UdpTest} {bytes packets : Nat} (h : t.Received id bytes packets r)
    {l : List (List UInt8)} (hl : ∀ d ∈ l, IsPacket id d) :
    t.Received id (bytes + (l.map fun d => d.length - udpHdr).sum) (packets + l.length)
      (l.foldl UdpTest.recv r) := by
  induction l generalizing r bytes packets with
  | nil => exact h
  | cons d l ih =>
      obtain ⟨seq, data, rfl, hd⟩ := hl d List.mem_cons_self
      have h₁ := ih (h.recv seq hd) fun q hq => hl q (List.mem_cons_of_mem _ hq)
      have hlen : (packet id seq data).length - udpHdr = data.length := by rw [packet_length]; omega
      rw [List.map_cons, List.sum_cons, List.length_cons, List.foldl_cons, hlen, ← Nat.add_assoc,
        Nat.add_comm l.length, ← Nat.add_assoc]
      exact h₁

end UdpTest

/-- A fresh receiver has counted nothing. -/
theorem spawnUdp_counted {hostlist : List Str} {selfId id : UInt32}
    (hid : id.toNat < hostlist.length) (hne : id ≠ selfId) :
    (spawnUdp hostlist selfId).Counted id none 0 where
  knows := ⟨hid, hne⟩
  mark := by simp [UdpTest.slot, spawnUdp, hid, AtMark.none]
  total := rfl
  peer := by simp [UdpTest.peerDropped, spawnUdp, Counters.peer, Counters.new, hid, AtomStats.default]

/-- The numbers skipped by arrivals below `2 ^ 64` are fewer than `2 ^ 64`. -/
theorem skips_lt {l : List Nat} (h : ∀ s ∈ l, s < 2 ^ 64) : (skips none l).length < 2 ^ 64 := by
  cases l with
  | nil => simp [skips]
  | cons s l =>
      obtain ⟨k, hk⟩ := mark_isSome (e := some (s + 1)) (l := l) (.inl rfl)
      have hle := skips_length_le hk
      rw [skips_none_cons]
      rcases mark_attained hk with he | ⟨x, hx, rfl⟩
      · have := h s List.mem_cons_self
        simp only [Option.some.injEq] at he
        simp only [Option.getD_some] at hle
        omega
      · have := h x (List.mem_cons_of_mem s hx)
        simp only [Option.getD_some] at hle
        omega

end Tperf.Dataplane
