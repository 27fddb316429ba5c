import Tperf.Dataplane.Lemmas.UdpFleet
import Tperf.Dataplane.Theorems.TcpFleet

/-!
# What two hosts count of the datagrams between them
-/

namespace Tperf.Dataplane
open Lib Metrics Proto

variable {S : Site} {s s' : UdpFleet}

theorem UdpFleet.Ok.step {l : UdpFleetLabel} (h : s.Ok S) (hs : (udpFleet S).step s l = some s') :
    s'.Ok S := by
  cases l with
  | host x l =>
      simp only [udpFleet, Option.ite_none_right_eq_some, Option.bind_eq_bind, Option.bind_eq_some_iff,
        Option.some.injEq] at hs
      obtain ⟨hlocal, H, hx, H', hl, rfl⟩ := hs
      have hlt : x < S.hosts := h.size ▸ (List.getElem?_eq_some_iff.mp hx).1
      obtain ⟨hok, hbooked⟩ := h.hosts x H hx
      obtain ⟨ds, hwire, hds, -⟩ := (udpIo_steps hl).wire hok hbooked
      have hmove := h.move hx hl (s.air ++ sentBy x H H') [] ?_ ?_
      · simpa using hmove
      · intro q hq
        rcases List.mem_append.mp hq with hq | hq
        · exact h.air q hq
        · rw [sentBy, hwire, List.drop_left] at hq
          obtain ⟨d, hd, rfl⟩ := List.mem_map.mp hq
          exact ⟨hlt, (hds d hd).1, (hds d hd).2⟩
      · intro a b _ _ _
        rw [UdpIo.dgrams_local hlocal, carried_append]
        simp [forged]
  | deliver p =>
      simp only [udpFleet, Option.bind_eq_bind, Option.bind_eq_some_iff, Option.some.injEq] at hs
      obtain ⟨q, hq, H, hx, H', hl, rfl⟩ := hs
      have hsound := h.air q (List.mem_of_getElem? hq)
      obtain ⟨hok, hbooked⟩ := h.hosts _ H hx
      obtain ⟨ds, hwire, -, hnone⟩ := (udpIo_steps hl).wire hok hbooked
      obtain rfl := hnone rfl
      have hmove := h.move hx hl (s.air.eraseIdx p) []
        (fun q hq => h.air q (List.mem_of_mem_eraseIdx hq)) ?_
      · simpa using hmove
      · intro a b ha _ _
        have hsent : sentBy q.dst H H' = [] := by simp [sentBy, hwire]
        have hgot := hsound.packet.got (UInt32.ofNat a)
        have hsrc : UInt32.ofNat q.src = UInt32.ofNat a ↔ q.src = a := S.id_inj hsound.src ha
        rw [hsent, carried_erase hq]
        simp only [UdpIoLabel.dgrams, RecvLabel.dgrams, List.map_singleton, List.sum_singleton, hgot, hsrc]
        by_cases ha : q.src = a <;> by_cases hb : q.dst = b <;> simp [ha, hb, carried, forged]
  | lose p =>
      simp only [udpFleet, Option.bind_eq_bind, Option.bind_eq_some_iff, Option.some.injEq] at hs
      obtain ⟨q, hq, rfl⟩ := hs
      refine ⟨h.size, h.hosts, fun q hq => h.air q (List.mem_of_mem_eraseIdx hq), ?_⟩
      intro a b A B hab hA hB
      have hold := h.balance a b A B hab hA hB
      rw [carried_erase hq] at hold
      simp only [carried_append] at hold ⊢
      rw [hold]
      simp only [carried, List.map_singleton, List.sum_singleton]
      abel
  | copy p =>
      simp only [udpFleet, Option.bind_eq_bind, Option.bind_eq_some_iff, Option.some.injEq] at hs
      obtain ⟨q, hq, rfl⟩ := hs
      refine ⟨h.size, h.hosts, ?_, ?_⟩
      · intro q' hq'
        rcases List.mem_append.mp hq' with hq' | hq'
        · exact h.air q' hq'
        · obtain rfl := List.mem_singleton.mp hq'
          exact h.air q' (List.mem_of_getElem? hq)
      · intro a b A B hab hA hB
        have hold := h.balance a b A B hab hA hB
        simp only [carried_append]
        rw [← add_assoc, add_right_comm, hold]
        abel
  | stranger x dgram =>
      simp only [udpFleet, Option.bind_eq_bind, Option.bind_eq_some_iff, Option.some.injEq] at hs
      obtain ⟨H, hx, H', hl, rfl⟩ := hs
      obtain ⟨hok, hbooked⟩ := h.hosts x H hx
      obtain ⟨ds, hwire, -, hnone⟩ := (udpIo_steps hl).wire hok hbooked
      obtain rfl := hnone rfl
      apply h.move hx hl s.air [(x, dgram)] h.air
      intro a b _ _ _
      have hsent : sentBy x H H' = [] := by simp [sentBy, hwire]
      rw [hsent]
      simp [UdpIoLabel.dgrams, RecvLabel.dgrams, carried, forged, add_comm]

theorem UdpFleet.run_ok (hnamed : S.Named) {ls : List UdpFleetLabel}
    (h : (udpFleet S).run S.initUdp ls = some s) : s.Ok S :=
  Machine.run_invariant (I := fun s : UdpFleet => s.Ok S) (fun hok hs => hok.step hs) h (S.initUdp_ok hnamed)

/-! ## The counters -/

/-- What `a` counts as sent to `b`, what `b` counts as received from `a`, and what lies between the two: what
is not counted yet, what the network has doubled, holds and has lost, and what strangers have sent to `b` under
the id of `a`. -/
theorem datagrams_accounted (hnamed : S.Named) {ls : List UdpFleetLabel}
    (h : (udpFleet S).run S.initUdp ls = some s) {a b : Nat} (hab : a ≠ b) {A B : UdpIo} {x y : AtomStats}
    (hA : s.hosts[a]? = some A) (hB : s.hosts[b]? = some B)
    (hx : A.send.test.counters.peer (UInt32.ofNat b) = some x)
    (hy : B.send.test.counters.peer (UInt32.ofNat a) = some y) :
    sentOf x + amount (A.undoneFor (UInt32.ofNat b) + carried s.copied a b + forged s.strange a b) =
        receivedOf y + amount (B.recv.undone (UInt32.ofNat a) + carried s.air a b + carried s.lost a b) ∧
      ((A.send.test.wiredTo (UInt32.ofNat b) + carried s.copied a b + forged s.strange a b).1 < 2 ^ 64 ∧
          (A.send.test.wiredTo (UInt32.ofNat b) + carried s.copied a b + forged s.strange a b).2 < 2 ^ 64 →
        shown (sentOf x) + A.undoneFor (UInt32.ofNat b) + carried s.copied a b + forged s.strange a b =
          shown (receivedOf y) + B.recv.undone (UInt32.ofNat a) + carried s.air a b +
            carried s.lost a b) := by
  have hok := UdpFleet.run_ok hnamed h
  have ha : a < S.hosts := hok.size ▸ (List.getElem?_eq_some_iff.mp hA).1
  have hb : b < S.hosts := hok.size ▸ (List.getElem?_eq_some_iff.mp hB).1
  obtain ⟨hokA, hbookedA⟩ := hok.hosts a A hA
  obtain ⟨hokB, hbookedB⟩ := hok.hosts b B hB
  have hbalance := hok.balance a b A B hab hA hB
  have hother : UInt32.ofNat b ≠ A.send.test.selfId := by
    rw [hokA.self]
    exact fun he => hab ((S.id_inj hb ha).mp he).symm
  have hother' : UInt32.ofNat a ≠ B.send.test.selfId := by
    rw [hokB.self]
    exact fun he => hab ((S.id_inj ha hb).mp he)
  have hsent := (hbookedA.counters hother hx).1
  have hrecv := (hbookedB.counters hother' hy).2
  refine ⟨?_, fun hlt => ?_⟩
  · have hwhole : amount (A.send.test.wiredTo (UInt32.ofNat b)) + amount (carried s.copied a b) +
          amount (forged s.strange a b) =
        amount (B.gotFrom (UInt32.ofNat a)) + amount (carried s.air a b) + amount (carried s.lost a b) := by
      rw [← amount_add, ← amount_add, hbalance, amount_add, amount_add]
    simp only [amount_add, ← add_assoc]
    rw [hsent, hrecv, hwhole]
  · have hwired : A.send.test.wiredTo (UInt32.ofNat b) ≤
        A.send.test.wiredTo (UInt32.ofNat b) + carried s.copied a b + forged s.strange a b :=
      le_self_add.trans le_self_add
    have hgot := hok.gotFrom_le hab hA hB
    rw [shown_add_eq hsent (hbookedA.open_le _ .sent) ⟨hwired.1.trans_lt hlt.1, hwired.2.trans_lt hlt.2⟩,
      shown_add_eq hrecv (hbookedB.open_le _ .received) ⟨hgot.1.trans_lt hlt.1, hgot.2.trans_lt hlt.2⟩, hbalance]

/-- The two hosts of `oneWay`, over UDP. -/
def udpPair : Site := oneWay.toSite

theorem udpPair_named : udpPair.Named :=
  (by decide : ∀ a < 2, (udpPair.assignment a).selfId = UInt32.ofNat a)

/-- Three packets, of which the first arrives twice and the second is lost; the third is in the air and not
counted yet. A stranger sends one byte as the host 0. -/
def overTheAir : List UdpFleetLabel :=
  [.host 0 .spawn] ++ pass ++ [.copy 0, .deliver 0] ++ List.replicate 4 (.host 1 (.recv .step)) ++
    [.stranger 1 (packet 0 1 [7])] ++ List.replicate 4 (.host 1 (.recv .step)) ++
    [.deliver 0] ++ pass ++ [.lose 0] ++ pass.take 4
where
  pass : List UdpFleetLabel :=
    List.replicate 3 (.host 0 (.send (.worker 0 .step))) ++ [.host 0 (.send (.worker 0 .sendOk))] ++
      List.replicate 3 (.host 0 (.send (.worker 0 .step)))

theorem datagrams_accounted_over_the_air :
    ∃ s A B x y, (udpFleet udpPair).run udpPair.initUdp overTheAir = some s ∧ s.hosts[0]? = some A ∧
      s.hosts[1]? = some B ∧ A.send.test.counters.peer (UInt32.ofNat 1) = some x ∧
      B.send.test.counters.peer (UInt32.ofNat 0) = some y ∧ shown (sentOf x) = (6, 2) ∧
      shown (receivedOf y) = (4, 2) ∧
      shown (sentOf x) + A.undoneFor (UInt32.ofNat 1) + carried s.copied 0 1 + forged s.strange 0 1 =
        shown (receivedOf y) + B.recv.undone (UInt32.ofNat 0) + carried s.air 0 1 + carried s.lost 0 1 := by
  have h : ((udpFleet udpPair).run udpPair.initUdp overTheAir).map (fun s =>
      (s.hosts[0]?.map fun A =>
        (decide ((A.send.test.wiredTo (UInt32.ofNat 1) + carried s.copied 0 1 + forged s.strange 0 1).1 < 2 ^ 64 ∧
            (A.send.test.wiredTo (UInt32.ofNat 1) + carried s.copied 0 1 + forged s.strange 0 1).2 < 2 ^ 64),
          (A.send.test.counters.peer (UInt32.ofNat 1)).map fun x => shown (sentOf x)),
      s.hosts[1]?.map fun B =>
        (B.send.test.counters.peer (UInt32.ofNat 0)).map fun y => shown (receivedOf y))) =
      some (some (true, some (6, 2)), some (some (4, 2))) := by
    decide +kernel
  obtain ⟨s, hs, h⟩ := Option.map_eq_some_iff.mp h
  obtain ⟨hA, hB⟩ := Prod.mk.inj h
  obtain ⟨A, hA, h⟩ := Option.map_eq_some_iff.mp hA
  obtain ⟨hlt, hx⟩ := Prod.mk.inj h
  obtain ⟨x, hx, hsent⟩ := Option.map_eq_some_iff.mp hx
  obtain ⟨B, hB, hy⟩ := Option.map_eq_some_iff.mp hB
  obtain ⟨y, hy, hrecv⟩ := Option.map_eq_some_iff.mp hy
  exact ⟨s, A, B, x, y, hs, hA, hB, hx, hy, hsent, hrecv,
    (datagrams_accounted udpPair_named hs Nat.zero_ne_one hA hB hx hy).2 (of_decide_eq_true hlt)⟩

end Tperf.Dataplane
