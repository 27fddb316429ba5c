import Tperf.Server.Lemmas.Measured

/-!
# What the windows of two hosts show of the bytes between them
-/

namespace Tperf.Server
open Lib Metrics Proto Dataplane

/-! ## TCP -/

section

variable {S : TcpSite} {clkTck : Nat → UInt64}

/-- The bytes that the host `a` has moved to or from the host `id` fit a counter. -/
def fitsTcp (id : UInt32) (d : Way) (s : TcpFleet) (a : Nat) : Prop :=
  ∀ H, s.hosts[a]? = some H → H.moved id d < 2 ^ 64

/-- The windows of a host show no more than it has moved and counted. -/
theorem tcp_shown_le (hknown : S.Known) (hnodup : S.cfg.hostlist.Nodup) {s : Measured TcpFleet}
    {ls : List (MeasuredLabel TcpFleetLabel)}
    (h : (measuredTcp S).run ⟨S.init, startLoops S.toSite clkTck⟩ ls = some s) {a b : Nat} {H : TcpIo}
    {m : MetricsLoop} {n : Str} {d : Way} (hH : s.fleet.hosts[a]? = some H) (hm : s.loops[a]? = some m)
    (hn : S.cfg.hostlist[b]? = some n) (hlt : H.moved (UInt32.ofNat b) d < 2 ^ 64) :
    (m.emitted.map (shownOf d.bytes n)).sum + H.uncounted (UInt32.ofNat b) d ≤ H.moved (UInt32.ofNat b) d := by
  have hb : b < S.hosts := (List.getElem?_eq_some_iff.mp hn).1
  have hid := S.id_toNat hb
  have hfleet : s.fleet.Ok S :=
    measured_fleet (I := fun s : TcpFleet => s.Ok S) (fun hok hl => hok.step hknown hl) h S.init_ok
  obtain ⟨hok, hbooked⟩ := hfleet.hosts a H hH
  have hlook : (UInt32.ofNat b).toNat < H.counters.names.length := by
    rw [hok.names, hid]
    exact hb
  have hcount := hbooked.showing_add hlook hlt
  have hshown : (m.emitted.map (shownOf d.bytes n)).sum ≤ H.showing (UInt32.ofNat b) d := by
    apply measured_shown_le (fun s : TcpFleet => s.Ok S) (fitsTcp (UInt32.ofNat b) d)
      (fun hok hl => hok.step hknown hl) ?_ S.init_ok h hnodup ?_ hm ?_ ?_
    · intro s l s' a c' hok hl hc' hfits
      obtain ⟨A', hA', rfl⟩ := Option.map_eq_some_iff.mp hc'
      obtain ⟨A, hA, hle, hshow⟩ := tcpFleet_grows hknown (hid.symm ▸ hb) hok hl hA'
      have hlt := hfits A' hA'
      refine ⟨fun H hH => ?_, A.counters, by rw [hA, Option.map_some], hshow hlt⟩
      obtain rfl : A = H := Option.some.inj (hA.symm.trans hH)
      exact hle.trans_lt hlt
    · rw [hH, Option.map_some]
    · intro H₁ hH₁
      obtain rfl : H = H₁ := Option.some.inj (hH.symm.trans hH₁)
      exact hlt
    · rw [hid]
      exact hn
  omega

/-- No window shows traffic that did not take place: what the windows of `b` show as received from `a` is
not more than what `a` has sent, less what is still under way. -/
theorem windows_within_sent (hknown : S.Known) (hnodup : S.cfg.hostlist.Nodup) {s : Measured TcpFleet}
    {ls : List (MeasuredLabel TcpFleetLabel)}
    (h : (measuredTcp S).run ⟨S.init, startLoops S.toSite clkTck⟩ ls = some s) {a b : Nat} {A B : TcpIo}
    {m m' : MetricsLoop} {n n' : Str} (hA : s.fleet.hosts[a]? = some A) (hB : s.fleet.hosts[b]? = some B)
    (hm : s.loops[a]? = some m) (hm' : s.loops[b]? = some m') (hn : S.cfg.hostlist[a]? = some n)
    (hn' : S.cfg.hostlist[b]? = some n') (hlt : A.acceptedFor (UInt32.ofNat b) < 2 ^ 64) :
    (m.emitted.map (shownOf .bytesSent n')).sum + A.undoneFor (UInt32.ofNat b) ≤
        A.acceptedFor (UInt32.ofNat b) ∧
      (m'.emitted.map (shownOf .bytesRecv n)).sum + B.undoneFrom (UInt32.ofNat a) + s.fleet.unread a b ≤
        A.acceptedFor (UInt32.ofNat b) := by
  have hfleet : s.fleet.Ok S :=
    measured_fleet (I := fun s : TcpFleet => s.Ok S) (fun hok hl => hok.step hknown hl) h S.init_ok
  have hbalance := hfleet.balance a b A B hA hB
  constructor
  · exact tcp_shown_le (d := .sent) hknown hnodup h hA hm hn' hlt
  · have hgot : B.gotFrom (UInt32.ofNat a) < 2 ^ 64 := by omega
    have hrecv := tcp_shown_le (d := .received) hknown hnodup h hB hm' hn hgot
    simp only [TcpIo.moved, TcpIo.uncounted, Way.bytes] at hrecv
    omega

/-- One window of the sender and one of the receiver around the bytes of `underWay`. -/
def measuredUnderWay : List (MeasuredLabel TcpFleetLabel) :=
  (opening 5 empty).map (.metrics 0) ++ (opening 5 empty).map (.metrics 1) ++ underWay.map .fleet ++
    (sleptWindow 5 1000000005 sentThree).map (.metrics 0) ++
    (sleptWindow 5 1000000005 readFour).map (.metrics 1)
where
  empty : Counters := .new sampleConfig.hostlist
  sentThree : Counters := (empty.onTotal (·.addSent 3 1)).onPeer 1 (·.addSent 3 1)
  /-- Two of the four bytes are not counted for the peer. -/
  readFour : Counters := (empty.onTotal (·.addRecv 4 0)).onPeer 0 (·.addRecv 2 0)

theorem windows_within_sent_under_way :
    ∃ s A B m m', (measuredTcp oneWay).run ⟨oneWay.init, startLoops oneWay.toSite fun _ => 100⟩
        measuredUnderWay = some s ∧
      s.fleet.hosts[0]? = some A ∧ s.fleet.hosts[1]? = some B ∧ s.loops[0]? = some m ∧
      s.loops[1]? = some m' ∧ (m.emitted.map (shownOf .bytesSent "b".toList)).sum = 3 ∧
      (m'.emitted.map (shownOf .bytesRecv "a".toList)).sum = 2 ∧
      (m'.emitted.map (shownOf .bytesRecv "a".toList)).sum + B.undoneFrom (UInt32.ofNat 0) +
        s.fleet.unread 0 1 ≤ A.acceptedFor (UInt32.ofNat 1) := by
  have h : ((measuredTcp oneWay).run ⟨oneWay.init, startLoops oneWay.toSite fun _ => 100⟩
      measuredUnderWay).map (fun s =>
      (s.fleet.hosts[0]?.map fun A => decide (A.acceptedFor (UInt32.ofNat 1) < 2 ^ 64),
        s.fleet.hosts[1]?.isSome,
        s.loops[0]?.map fun m => (m.emitted.map (shownOf .bytesSent "b".toList)).sum,
        s.loops[1]?.map fun m => (m.emitted.map (shownOf .bytesRecv "a".toList)).sum)) =
      some (some true, true, some 3, some 2) := by
    decide +kernel
  obtain ⟨s, hs, h⟩ := Option.map_eq_some_iff.mp h
  simp only [Prod.mk.injEq, Option.map_eq_some_iff, Option.isSome_iff_exists] at h
  obtain ⟨⟨A, hA, hlt⟩, ⟨B, hB⟩, ⟨m, hm, hsent⟩, m', hm', hrecv⟩ := h
  exact ⟨s, A, B, m, m', hs, hA, hB, hm, hm', hsent, hrecv,
    (windows_within_sent oneWay_known (by decide) hs hA hB hm hm' rfl rfl (of_decide_eq_true hlt)).2⟩

end

/-! ## UDP -/

/-- What windows show of the host `name`, in bytes and packets. -/
def shownAll (d : Way) (name : Str) (windows : List MetricWindow) : Nat × Nat :=
  ((windows.map (shownOf d.bytes name)).sum, (windows.map (shownOf d.packets name)).sum)

section

variable {S : Site} {clkTck : Nat → UInt64}

/-- The host `a` is not the host `id`, and what it has moved to or from it fits the counters. -/
def fitsUdp (id : UInt32) (d : Way) (s : UdpFleet) (a : Nat) : Prop :=
  id ≠ UInt32.ofNat a ∧
    ∀ H, s.hosts[a]? = some H → (H.moved id d).1 < 2 ^ 64 ∧ (H.moved id d).2 < 2 ^ 64

theorem fitsUdp_grows {s s' : UdpFleet} {l : UdpFleetLabel} {id : UInt32} {d : Way} {a : Nat} {c' : Counters}
    (hid : id.toNat < S.hosts) (h : s.Ok S) (hl : (udpFleet S).step s l = some s')
    (hc' : (s'.hosts[a]?.map (·.send.test.counters)) = some c') (hfits : fitsUdp id d s' a) :
    fitsUdp id d s a ∧ ∃ c, (s.hosts[a]?.map (·.send.test.counters)) = some c ∧
      (d.bytes.ofHost id.toNat c.snapshotAll.2, d.packets.ofHost id.toNat c.snapshotAll.2) ≤
        (d.bytes.ofHost id.toNat c'.snapshotAll.2, d.packets.ofHost id.toNat c'.snapshotAll.2) := by
  obtain ⟨A', hA', rfl⟩ := Option.map_eq_some_iff.mp hc'
  obtain ⟨hne, hfits⟩ := hfits
  obtain ⟨A, hA, hle, hshow⟩ := udpFleet_grows hid hne h hl hA'
  have hlt := hfits A' hA'
  refine ⟨⟨hne, fun H hH => ?_⟩, A.send.test.counters, by rw [hA, Option.map_some], hshow hlt⟩
  obtain rfl : A = H := Option.some.inj (hA.symm.trans hH)
  exact ⟨hle.1.trans_lt hlt.1, hle.2.trans_lt hlt.2⟩

theorem udp_shown_le (hnamed : S.Named) (hnodup : S.cfg.hostlist.Nodup) {s : Measured UdpFleet}
    {ls : List (MeasuredLabel UdpFleetLabel)}
    (h : (measuredUdp S).run ⟨S.initUdp, startLoops S clkTck⟩ ls = some s)
    {a b : Nat} (hab : a ≠ b) {H : UdpIo} {m : MetricsLoop} {n : Str} {d : Way}
    (hH : s.fleet.hosts[a]? = some H) (hm : s.loops[a]? = some m) (hn : S.cfg.hostlist[b]? = some n)
    (hlt : (H.moved (UInt32.ofNat b) d).1 < 2 ^ 64 ∧ (H.moved (UInt32.ofNat b) d).2 < 2 ^ 64) :
    shownAll d n m.emitted + H.uncounted (UInt32.ofNat b) d ≤ H.moved (UInt32.ofNat b) d := by
  have hb : b < S.hosts := (List.getElem?_eq_some_iff.mp hn).1
  have hid := S.id_toNat hb
  have hid' : (UInt32.ofNat b).toNat < S.hosts := hid.symm ▸ hb
  have hfleet : s.fleet.Ok S :=
    measured_fleet (I := fun s : UdpFleet => s.Ok S) (fun hok hl => hok.step hl) h (S.initUdp_ok hnamed)
  have ha : a < S.hosts := hfleet.size ▸ (List.getElem?_eq_some_iff.mp hH).1
  have hne : UInt32.ofNat b ≠ UInt32.ofNat a := fun he => hab ((S.id_inj hb ha).mp he).symm
  obtain ⟨hok, hbooked⟩ := hfleet.hosts a H hH
  have hcount := hbooked.showing_add (hok.npeers.symm ▸ hid') (hok.self ▸ hne) hlt
  have hfits : fitsUdp (UInt32.ofNat b) d s.fleet a := by
    refine ⟨hne, fun H₁ hH₁ => ?_⟩
    obtain rfl : H = H₁ := Option.some.inj (hH.symm.trans hH₁)
    exact hlt
  have hcounters : (s.fleet.hosts[a]?.map (·.send.test.counters)) = some H.send.test.counters := by
    rw [hH, Option.map_some]
  rw [← hid] at hn
  rw [← hcount]
  apply add_le_add_left
  constructor
  · apply measured_shown_le (fun s : UdpFleet => s.Ok S) (fitsUdp (UInt32.ofNat b) d)
      (fun hok hl => hok.step hl) ?_ (S.initUdp_ok hnamed) h hnodup hcounters hm hfits hn
    intro s l s' a c' hok hl hc' hfits
    obtain ⟨hfits, c, hc, hle⟩ := fitsUdp_grows hid' hok hl hc' hfits
    exact ⟨hfits, c, hc, hle.1⟩
  · apply measured_shown_le (fun s : UdpFleet => s.Ok S) (fitsUdp (UInt32.ofNat b) d)
      (fun hok hl => hok.step hl) ?_ (S.initUdp_ok hnamed) h hnodup hcounters hm hfits hn
    intro s l s' a c' hok hl hc' hfits
    obtain ⟨hfits, c, hc, hle⟩ := fitsUdp_grows hid' hok hl hc' hfits
    exact ⟨hfits, c, hc, hle.2⟩

/-- The same for datagrams, of which the network may have doubled some and strangers sent others in the name of
`a`. -/
theorem windows_within_datagrams (hnamed : S.Named) (hnodup : S.cfg.hostlist.Nodup) {s : Measured UdpFleet}
    {ls : List (MeasuredLabel UdpFleetLabel)}
    (h : (measuredUdp S).run ⟨S.initUdp, startLoops S clkTck⟩ ls = some s)
    {a b : Nat} (hab : a ≠ b) {A B : UdpIo} {m m' : MetricsLoop} {n n' : Str}
    (hA : s.fleet.hosts[a]? = some A) (hB : s.fleet.hosts[b]? = some B) (hm : s.loops[a]? = some m)
    (hm' : s.loops[b]? = some m') (hn : S.cfg.hostlist[a]? = some n) (hn' : S.cfg.hostlist[b]? = some n')
    (hlt : (A.send.test.wiredTo (UInt32.ofNat b) + carried s.fleet.copied a b + forged s.fleet.strange a b).1 <
        2 ^ 64 ∧
      (A.send.test.wiredTo (UInt32.ofNat b) + carried s.fleet.copied a b + forged s.fleet.strange a b).2 <
        2 ^ 64) :
    shownAll .sent n' m.emitted + A.undoneFor (UInt32.ofNat b) ≤ A.send.test.wiredTo (UInt32.ofNat b) ∧
      shownAll .received n m'.emitted + B.recv.undone (UInt32.ofNat a) + carried s.fleet.air a b +
          carried s.fleet.lost a b ≤
        A.send.test.wiredTo (UInt32.ofNat b) + carried s.fleet.copied a b + forged s.fleet.strange a b := by
  have hfleet : s.fleet.Ok S :=
    measured_fleet (I := fun s : UdpFleet => s.Ok S) (fun hok hl => hok.step hl) h (S.initUdp_ok hnamed)
  have hbalance := hfleet.balance a b A B hab hA hB
  constructor
  · have hle : A.send.test.wiredTo (UInt32.ofNat b) ≤
        A.send.test.wiredTo (UInt32.ofNat b) + carried s.fleet.copied a b + forged s.fleet.strange a b :=
      le_self_add.trans le_self_add
    exact udp_shown_le (d := .sent) hnamed hnodup h hab hA hm hn' ⟨hle.1.trans_lt hlt.1, hle.2.trans_lt hlt.2⟩
  · have hle := hfleet.gotFrom_le hab hA hB
    have hrecv := udp_shown_le (d := .received) hnamed hnodup h hab.symm hB hm' hn
      ⟨hle.1.trans_lt hlt.1, hle.2.trans_lt hlt.2⟩
    rw [hbalance]
    exact add_le_add_left (add_le_add_left hrecv _) _

/-- One window of the sender and one of the receiver around the packets of `overTheAir`. -/
def measuredOverTheAir : List (MeasuredLabel UdpFleetLabel) :=
  (opening 5 empty).map (.metrics 0) ++ (opening 5 empty).map (.metrics 1) ++ overTheAir.map .fleet ++
    (sleptWindow 5 1000000005 sentTwo).map (.metrics 0) ++
    (sleptWindow 5 1000000005 gotThree).map (.metrics 1)
where
  empty : Counters := .new sampleConfig.hostlist
  sentTwo : Counters := (empty.onTotal (·.addSent 6 2)).onPeer 1 (·.addSent 6 2)
  /-- One of the three packets is not counted for the peer. -/
  gotThree : Counters := (empty.onTotal (·.addRecv 7 3)).onPeer 0 (·.addRecv 4 2)

theorem windows_within_datagrams_over_the_air :
    ∃ s A B m m', (measuredUdp udpPair).run ⟨udpPair.initUdp, startLoops udpPair fun _ => 100⟩
        measuredOverTheAir = some s ∧
      s.fleet.hosts[0]? = some A ∧ s.fleet.hosts[1]? = some B ∧ s.loops[0]? = some m ∧
      s.loops[1]? = some m' ∧ shownAll .sent "b".toList m.emitted = (6, 2) ∧
      shownAll .received "a".toList m'.emitted = (4, 2) ∧
      shownAll .received "a".toList m'.emitted + B.recv.undone (UInt32.ofNat 0) + carried s.fleet.air 0 1 +
          carried s.fleet.lost 0 1 ≤
        A.send.test.wiredTo (UInt32.ofNat 1) + carried s.fleet.copied 0 1 + forged s.fleet.strange 0 1 := by
  have h : ((measuredUdp udpPair).run ⟨udpPair.initUdp, startLoops udpPair fun _ => 100⟩
      measuredOverTheAir).map (fun s =>
      (s.fleet.hosts[0]?.map fun A =>
          let sent := A.send.test.wiredTo (UInt32.ofNat 1) + carried s.fleet.copied 0 1 + forged s.fleet.strange 0 1
          decide (sent.1 < 2 ^ 64 ∧ sent.2 < 2 ^ 64),
        s.fleet.hosts[1]?.isSome,
        s.loops[0]?.map fun m => shownAll .sent "b".toList m.emitted,
        s.loops[1]?.map fun m => shownAll .received "a".toList m.emitted)) =
      some (some true, true, some (6, 2), some (4, 2)) := by
    decide +kernel
  obtain ⟨s, hs, h⟩ := Option.map_eq_some_iff.mp h
  obtain ⟨hA, h⟩ := Prod.mk.inj h
  obtain ⟨hB, h⟩ := Prod.mk.inj h
  obtain ⟨hm, hm'⟩ := Prod.mk.inj h
  obtain ⟨A, hA, hlt⟩ := Option.map_eq_some_iff.mp hA
  obtain ⟨B, hB⟩ := Option.isSome_iff_exists.mp hB
  obtain ⟨m, hm, hsent⟩ := Option.map_eq_some_iff.mp hm
  obtain ⟨m', hm', hrecv⟩ := Option.map_eq_some_iff.mp hm'
  exact ⟨s, A, B, m, m', hs, hA, hB, hm, hm', hsent, hrecv,
    (windows_within_datagrams udpPair_named (by decide) hs Nat.zero_ne_one hA hB hm hm' rfl rfl
      (of_decide_eq_true hlt)).2⟩

end

end Tperf.Server
