import Tperf.Dataplane.Io
import Tperf.Dataplane.Lemmas.Account
import Tperf.Metrics.Ledger

/-!
# What a task owes a peer
-/

namespace Tperf.Dataplane
open Lib Metrics Proto

/-! ## The send tasks -/

def AddOp.stats : AddOp → AtomStats
  | .sent bytes packets => .ofSent bytes packets
  | .drop n => .ofDrop n

theorem AddOp.apply_eq_add (op : AddOp) (a : AtomStats) : op.apply a = a + op.stats := by
  cases op with
  | sent bytes packets => exact a.addSent_eq_add bytes packets
  | drop n => exact a.addDrop_eq_add n

/-- What the total has and the peer has not. -/
def UdpPc.owes : UdpPc → AtomStats
  | .peer op => op.stats
  | _ => 0

def TcpPc.owes : TcpPc → AtomStats
  | .peer op => op.stats
  | _ => 0

theorem UdpWorker.Steps.hands {t t' : UdpTest} {w w' : UdpWorker} {e : UdpEvent}
    (h : Steps t w e t' w') (hid : w.destId.toNat < t.npeers) :
    t.counters.ledger.Hands w.pc.owes t'.counters.ledger w'.pc.owes := by
  cases h with
  | total hpc =>
      rw [hpc]
      exact Counters.hands_onTotal_zero (AddOp.apply_eq_add _)
  | peer hpc =>
      rw [hpc]
      exact Counters.hands_onPeer (AddOp.apply_eq_add _) hid
  | stop hpc | pass hpc | cut hpc | next hpc | done hpc | beyond hpc | take hpc | sendOk hpc | sendErr hpc
  | abort hpc | unborn hpc =>
      rw [hpc]
      exact .refl _ _

theorem TcpSend.Steps.hands {s s' : TcpSend} {l : TcpLabel} (h : s.Steps l s')
    (hid : s.destId.toNat < s.counters.names.length) :
    s.counters.ledger.Hands s.pc.owes s'.counters.ledger s'.pc.owes := by
  cases h with
  | total hpc =>
      rw [hpc]
      exact Counters.hands_onTotal_zero (AddOp.apply_eq_add _)
  | peer hpc =>
      rename_i op
      have hafter : (after op).owes = 0 := by cases op <;> rfl
      rw [hpc]
      change s.counters.ledger.Hands op.stats _ (after op).owes
      rw [hafter]
      exact Counters.hands_onPeer op.apply_eq_add hid
  | cancel => exact .refl _ _
  | connected hpc | connectErr hpc | stop hpc | write hpc | quit hpc | fail hpc | accept hpc | whole hpc
  | writeErr hpc | abort hpc | unborn hpc =>
      rw [hpc]
      exact .refl _ _

theorem TcpSend.Steps.names {s s' : TcpSend} {l : TcpLabel} (h : s.Steps l s') :
    s'.counters.names = s.counters.names := by
  cases h <;> rfl

/-! ## The receive task -/

theorem UdpTest.recv_eq (t : UdpTest) (dgram : List UInt8) :
    t.recv dgram =
      match accepted dgram with
      | none => t
      | some (senderId, seq, payloadBytes) =>
          let t₁ := t.onTotal (·.addRecv payloadBytes 1)
          if senderId.toNat < t.npeers ∧ senderId ≠ t.selfId then
            let t₂ := t₁.onPeer senderId (·.addRecv payloadBytes 1)
            match t.expected[senderId.toNat]? with
            | none => t₂
            | some slot =>
                let t₃ := t₂.setExpected senderId (noteSeq slot seq).1
                (t₃.onTotal (·.addDrop (noteSeq slot seq).2)).onPeer senderId
                  (·.addDrop (noteSeq slot seq).2)
          else t₁ := by
  simp only [UdpTest.recv, accepted]
  cases readHdr (dgram.take udpRecvBuf) with
  | none => rfl
  | some hdr =>
      obtain ⟨senderId, seq, plen⟩ := hdr
      by_cases hlen : plen.toUInt64 = UInt64.ofNat ((dgram.take udpRecvBuf).length - udpHdr)
      · simp only [hlen, Option.bind_eq_bind, Option.bind_some, ne_eq, not_true, if_false]
        rfl
      · simp only [hlen, Option.bind_eq_bind, Option.bind_some, ne_eq, not_false_iff, if_true]

theorem udpRecv_noted {t : UdpTest} {senderId : UInt32} {slot : Option UInt64} (seq : UInt64)
    (h : t.expected[senderId.toNat]? = some slot) :
    udpRecv.step (t, .note senderId seq) .step = some (t.setExpected senderId (noteSeq slot seq).1,
      .totalDrop senderId (noteSeq slot seq).2) := by
  simp only [udpRecv, h]

/-- Without interruption the steps do what `UdpTest.recv` does. -/
theorem recv_uninterrupted (t : UdpTest) (dgram : List UInt8) :
    ∃ n, udpRecv.run (t, .waiting) (.datagram dgram :: List.replicate n .step) =
      some (t.recv dgram, .waiting) := by
  rw [t.recv_eq dgram]
  cases ha : accepted dgram with
  | none => exact ⟨0, by simp [udpRecv, ha]⟩
  | some hdr =>
      obtain ⟨senderId, seq, payloadBytes⟩ := hdr
      have hstep : udpRecv.step (t, .waiting) (.datagram dgram) =
          some (t.onTotal (·.addRecv payloadBytes 1),
            if senderId.toNat < t.npeers ∧ senderId ≠ t.selfId
            then .peerRecv senderId seq payloadBytes else .waiting) := by
        simp only [udpRecv, ha]
      by_cases hid : senderId.toNat < t.npeers ∧ senderId ≠ t.selfId
      · -- a host of the list has a slot
        obtain ⟨slot, hslot⟩ : ∃ slot, t.expected[senderId.toNat]? = some slot :=
          ⟨_, List.getElem?_eq_getElem (t.expected_length ▸ hid.1)⟩
        have hnoted := @udpRecv_noted
          ((t.onTotal (·.addRecv payloadBytes 1)).onPeer senderId (·.addRecv payloadBytes 1))
          senderId slot seq hslot
        refine ⟨4, ?_⟩
        rw [Machine.run_cons, hstep, Option.bind_some]
        simp only [if_pos hid, hslot]
        change (udpRecv.step (_, .note senderId seq) .step).bind
          (fun s => udpRecv.run s (List.replicate 2 .step)) = _
        rw [hnoted]
        rfl
      · refine ⟨0, ?_⟩
        rw [Machine.run_cons, hstep, Option.bind_some]
        simp only [if_neg hid]
        rfl

/-- The same for one datagram after the other. -/
theorem recvs_uninterrupted (t : UdpTest) (dgrams : List (List UInt8)) :
    ∃ ls, ls.flatMap RecvLabel.dgrams = dgrams ∧
      udpRecv.run (t, .waiting) ls = some (dgrams.foldl UdpTest.recv t, .waiting) := by
  induction dgrams generalizing t with
  | nil => exact ⟨[], rfl, rfl⟩
  | cons dgram dgrams ih =>
      obtain ⟨n, hn⟩ := recv_uninterrupted t dgram
      obtain ⟨ls, hls, hrun⟩ := ih (t.recv dgram)
      refine ⟨(.datagram dgram :: List.replicate n .step) ++ ls, ?_, ?_⟩
      · have hsteps : (List.replicate n RecvLabel.step).flatMap RecvLabel.dgrams = [] :=
          List.flatMap_eq_nil_iff.mpr fun l hl => by rw [List.eq_of_mem_replicate hl]; rfl
        rw [List.flatMap_append, List.flatMap_cons, hsteps, hls]
        rfl
      · rw [Machine.run_append, hn, Option.bind_some, hrun, List.foldl_cons]

def RecvPc.owes : RecvPc → AtomStats
  | .peerRecv _ _ payloadBytes => .ofRecv payloadBytes 1
  | .peerDrop _ d => .ofDrop d
  | _ => 0

/-- The host it updates is one of `n`. -/
def RecvPc.Known (n : Nat) : RecvPc → Prop
  | .peerRecv senderId _ _ | .note senderId _ | .totalDrop senderId _ | .peerDrop senderId _ =>
      senderId.toNat < n
  | .waiting | .ended => True

/-- The payload bytes of each datagram accepted from a sender id that is out of range or that of this
host. -/
def strays (selfId : UInt32) (npeers : Nat) (dgrams : List (List UInt8)) : List UInt64 :=
  dgrams.filterMap fun dgram => (accepted dgram).bind fun (senderId, _, payloadBytes) =>
    if senderId.toNat < npeers ∧ senderId ≠ selfId then none else some payloadBytes

def strayStats (l : List UInt64) : AtomStats := (l.map fun n => AtomStats.ofRecv n 1).sum

theorem strayStats_eq (l : List UInt64) :
    strayStats l = .ofRecv (UInt64.ofNat (l.map UInt64.toNat).sum) (UInt64.ofNat l.length) := by
  induction l with
  | nil => rfl
  | cons n l ih =>
      have hcons : strayStats (n :: l) = .ofRecv n 1 + strayStats l := rfl
      rw [hcons, ih, AtomStats.ofRecv_add, List.map_cons, List.sum_cons, List.length_cons, UInt64.ofNat_add,
        UInt64.ofNat_add, UInt64.ofNat_toNat, UInt64.add_comm 1]
      rfl

theorem strays_append (selfId : UInt32) (npeers : Nat) (ds ds' : List (List UInt8)) :
    strayStats (strays selfId npeers (ds ++ ds')) =
      strayStats (strays selfId npeers ds) + strayStats (strays selfId npeers ds') := by
  rw [strays, List.filterMap_append, strayStats, List.map_append, List.sum_append]
  rfl

/-- The branches of `udpRecv`. -/
inductive UdpTest.RecvSteps (t : UdpTest) : RecvPc → RecvLabel → UdpTest → RecvPc → Prop
  | refused {dgram : List UInt8} (ha : accepted dgram = none) :
      RecvSteps t .waiting (.datagram dgram) t .waiting
  | known {dgram : List UInt8} {senderId : UInt32} {seq payloadBytes : UInt64}
      (ha : accepted dgram = some (senderId, seq, payloadBytes))
      (hid : senderId.toNat < t.npeers ∧ senderId ≠ t.selfId) :
      RecvSteps t .waiting (.datagram dgram) (t.onTotal (·.addRecv payloadBytes 1))
        (.peerRecv senderId seq payloadBytes)
  | stray {dgram : List UInt8} {senderId : UInt32} {seq payloadBytes : UInt64}
      (ha : accepted dgram = some (senderId, seq, payloadBytes))
      (hid : ¬ (senderId.toNat < t.npeers ∧ senderId ≠ t.selfId)) :
      RecvSteps t .waiting (.datagram dgram) (t.onTotal (·.addRecv payloadBytes 1)) .waiting
  | peerRecv {senderId : UInt32} {seq payloadBytes : UInt64} :
      RecvSteps t (.peerRecv senderId seq payloadBytes) .step
        (t.onPeer senderId (·.addRecv payloadBytes 1)) (.note senderId seq)
  | slotless {senderId : UInt32} {seq : UInt64} : RecvSteps t (.note senderId seq) .step t .waiting
  | noted {senderId : UInt32} {seq : UInt64} {slot : Option UInt64}
      (hslot : t.expected[senderId.toNat]? = some slot) :
      RecvSteps t (.note senderId seq) .step (t.setExpected senderId (noteSeq slot seq).1)
        (.totalDrop senderId (noteSeq slot seq).2)
  | totalDrop {senderId : UInt32} {d : UInt64} :
      RecvSteps t (.totalDrop senderId d) .step (t.onTotal (·.addDrop d)) (.peerDrop senderId d)
  | peerDrop {senderId : UInt32} {d : UInt64} :
      RecvSteps t (.peerDrop senderId d) .step (t.onPeer senderId (·.addDrop d)) .waiting
  | stop : RecvSteps t .waiting .stop t .ended

theorem recv_steps {t t' : UdpTest} {pc pc' : RecvPc} {l : RecvLabel}
    (h : udpRecv.step (t, pc) l = some (t', pc')) : t.RecvSteps pc l t' pc' := by
  cases l with
  | datagram dgram =>
      cases pc <;> simp only [udpRecv, reduceCtorEq] at h
      cases ha : accepted dgram with
      | none =>
          simp only [ha, Option.some.injEq, Prod.mk.injEq] at h
          obtain ⟨rfl, rfl⟩ := h
          exact .refused ha
      | some hdr =>
          simp only [ha, Option.some.injEq, Prod.mk.injEq] at h
          obtain ⟨rfl, rfl⟩ := h
          by_cases hid : hdr.1.toNat < t.npeers ∧ hdr.1 ≠ t.selfId
          · rw [if_pos hid]
            exact .known ha hid
          · rw [if_neg hid]
            exact .stray ha hid
  | step =>
      cases pc with
      | waiting | ended => simp [udpRecv] at h
      | peerRecv | totalDrop | peerDrop =>
          simp only [udpRecv, Option.some.injEq, Prod.mk.injEq] at h
          obtain ⟨rfl, rfl⟩ := h
          constructor
      | note senderId seq =>
          cases hslot : t.expected[senderId.toNat]? with
          | none =>
              simp only [udpRecv, hslot, Option.some.injEq, Prod.mk.injEq] at h
              obtain ⟨rfl, rfl⟩ := h
              exact .slotless
          | some slot =>
              simp only [udpRecv, hslot, Option.some.injEq, Prod.mk.injEq] at h
              obtain ⟨rfl, rfl⟩ := h
              exact .noted hslot
  | stop =>
      cases pc <;> simp only [udpRecv, reduceCtorEq, Option.some.injEq, Prod.mk.injEq] at h
      obtain ⟨rfl, rfl⟩ := h
      exact .stop

theorem UdpTest.RecvSteps.fixed {t t' : UdpTest} {pc pc' : RecvPc} {l : RecvLabel}
    (h : t.RecvSteps pc l t' pc') : t'.selfId = t.selfId ∧ t'.counters.names = t.counters.names := by
  cases h <;> exact ⟨rfl, rfl⟩

theorem UdpTest.RecvSteps.known_of {t t' : UdpTest} {pc pc' : RecvPc} {l : RecvLabel}
    (h : t.RecvSteps pc l t' pc') (hpc : pc.Known t.npeers) : pc'.Known t.npeers := by
  cases h with
  | refused | stray | slotless | peerDrop | stop => exact trivial
  | known ha hid => exact hid.1
  | peerRecv | noted | totalDrop => exact hpc

theorem strays_refused {dgram : List UInt8} (selfId : UInt32) (npeers : Nat)
    (ha : accepted dgram = none) : strays selfId npeers [dgram] = [] := by
  simp [strays, ha]

theorem strays_accepted {dgram : List UInt8} {senderId : UInt32} {seq payloadBytes : UInt64}
    (selfId : UInt32) (npeers : Nat) (ha : accepted dgram = some (senderId, seq, payloadBytes)) :
    strays selfId npeers [dgram] =
      if senderId.toNat < npeers ∧ senderId ≠ selfId then [] else [payloadBytes] := by
  by_cases hid : senderId.toNat < npeers ∧ senderId ≠ selfId <;> simp [strays, ha, hid]

theorem UdpTest.RecvSteps.hands {t t' : UdpTest} {pc pc' : RecvPc} {l : RecvLabel}
    (h : t.RecvSteps pc l t' pc') (hpc : pc.Known t.npeers) :
    t.counters.ledger.Hands pc.owes t'.counters.ledger
      (strayStats (strays t.selfId t.npeers l.dgrams) + pc'.owes) := by
  cases h with
  | refused ha =>
      rw [RecvLabel.dgrams, strays_refused _ _ ha]
      exact .refl _ _
  | known ha hid =>
      rw [RecvLabel.dgrams, strays_accepted _ _ ha, if_pos hid]
      exact Counters.hands_onTotal (fun a => a.addRecv_eq_add _ 1) 0
  | stray ha hid =>
      rw [RecvLabel.dgrams, strays_accepted _ _ ha, if_neg hid, strayStats, List.map_singleton,
        List.sum_singleton]
      change t.counters.ledger.Hands 0 _ (AtomStats.ofRecv _ 1 + 0)
      rw [add_zero]
      exact Counters.hands_onTotal_zero fun a => a.addRecv_eq_add _ 1
  | peerRecv =>
      exact Counters.hands_onPeer (fun a => a.addRecv_eq_add _ 1) hpc
  | totalDrop => exact Counters.hands_onTotal (fun a => a.addDrop_eq_add _) 0
  | peerDrop => exact Counters.hands_onPeer (fun a => a.addDrop_eq_add _) hpc
  | slotless | noted | stop => exact .refl _ _

end Tperf.Dataplane
