import Tperf.Dataplane.Lemmas.Account
import Tperf.Dataplane.Lemmas.Owed

/-!
# What the sender counts
-/

namespace Tperf.Dataplane
open Lib Metrics

/-! ## Both loops -/

/-- What a send task has counted when it ends are whole passes over the payload; of the passes that were cut off
the socket has taken a part, and nothing is counted. -/
theorem sent_counts_complete_passes :
    (∀ (t₀ t : UdpTest) (w : UdpWorker) (destId : UInt32) (p : Payload) (ls : List TaskLabel),
      udpSend.run (t₀, UdpWorker.init destId p) ls = some (t, w) → w.pc = .ended →
      ∃ k sent, t.wire = t₀.wire ++ sent ∧
        Tally t₀.counters destId p.length p.packets k k t.counters ∧
        payloadBytes sent = k * p.length + w.cut.sum ∧
        sent.length = k * p.packets + (w.cut.map fun o => divCeil o chunk).sum ∧
        ∀ o ∈ w.cut, o < p.length) ∧
    (∀ (base : Counters) (s : TcpSend) (destId : UInt32) (p : Payload) (ls : List TcpLabel),
      tcpSend.run (TcpSend.init base destId p) ls = some s → s.pc = .ended →
      ∃ k, Tally base destId p.length 1 k k s.counters ∧
        s.accepted = k * p.length + s.cut.sum ∧ ∀ o ∈ s.cut, o < p.length) := by
  constructor
  · intro t₀ t w destId p ls hrun hend
    obtain ⟨⟨sent, k, kt, kp, h⟩, rfl, rfl⟩ := UdpAccount.run hrun
    obtain ⟨ht, hp, hb, hn⟩ := h.stands hend
    obtain rfl : kt = k := ht
    obtain rfl : kp = kt := hp
    have hoff : UdpPc.ended.offset = 0 := rfl
    rw [hoff, divCeil_zero] at hn
    exact ⟨kp, sent, h.wire, h.tally, hb, hn, h.cut⟩
  · intro base s destId p ls hrun hend
    obtain ⟨⟨k, kt, kp, h⟩, rfl, rfl⟩ := TcpAccount.run hrun
    obtain ⟨ht, hp, hb⟩ := h.stands hend
    obtain rfl : kt = k := ht
    obtain rfl : kp = kt := hp
    exact ⟨kp, h.tally, hb, h.cut⟩

/-- One complete pass, then the cancellation. -/
def onePass : List TaskLabel :=
  List.replicate 3 (.event .step) ++ [.event .sendOk] ++ List.replicate 3 (.event .step) ++
    [.cancel, .event .step]

theorem sent_counts_complete_passes_one :
    (∃ t w, udpSend.run (spawnUdp ["a".toList, "b".toList] 0, UdpWorker.init 1 oneByte) onePass =
        some (t, w) ∧
      ∃ k sent, t.wire = [] ++ sent ∧ payloadBytes sent = k * oneByte.length + w.cut.sum) ∧
    (∃ s, tcpSend.run (TcpSend.init (Counters.new ["a".toList, "b".toList]) 1 oneByte)
        [.connected, .step, .accept 1, .step, .cancel, .step, .step] = some s ∧
      ∃ k, s.accepted = k * oneByte.length + s.cut.sum) := by
  constructor
  · have h : ((udpSend.run (spawnUdp ["a".toList, "b".toList] 0, UdpWorker.init 1 oneByte) onePass).map
        fun s => s.2.pc) = some .ended := by decide +kernel
    obtain ⟨⟨t, w⟩, hs, hpc⟩ := Option.map_eq_some_iff.mp h
    obtain ⟨k, sent, hw, _, hb, _⟩ := sent_counts_complete_passes.1 _ t w 1 oneByte _ hs hpc
    exact ⟨t, w, hs, k, sent, hw, hb⟩
  · have h : ((tcpSend.run (TcpSend.init (Counters.new ["a".toList, "b".toList]) 1 oneByte)
        [.connected, .step, .accept 1, .step, .cancel, .step, .step]).map fun s => s.pc) =
        some .ended := by decide +kernel
    obtain ⟨s, hs, hpc⟩ := Option.map_eq_some_iff.mp h
    obtain ⟨k, _, hb, _⟩ := sent_counts_complete_passes.2 _ s 1 oneByte _ hs hpc
    exact ⟨s, hs, k, hb⟩

/-- Two packets. -/
def twoPackets : Payload where
  bytes := List.replicate 8173 7
  nonempty := List.ne_nil_of_length_pos (by rw [List.length_replicate]; decide)
  fits := by rw [List.length_replicate]; decide

theorem accepted_not_counted :
    (∃ t w, udpSend.run (spawnUdp ["a".toList, "b".toList] 0, UdpWorker.init 1 twoPackets)
        (List.replicate 3 (.event .step) ++ [.event .sendOk, .cancel, .event .step, .event .step]) =
        some (t, w) ∧ w.pc = .ended ∧ payloadBytes t.wire = 8172 ∧ t.wire.length = 1 ∧
      t.counters.total.bytesSent = 0 ∧ t.counters.total.packetsSent = 0) ∧
    (∃ s, tcpSend.run (TcpSend.init (Counters.new ["a".toList, "b".toList]) 1 twoPackets)
        [.connected, .step, .accept 5000, .writeErr, .step, .step, .step] = some s ∧
      s.pc = .ended ∧ s.accepted = 5000 ∧ s.counters.total.bytesSent = 0) := by
  constructor
  · have h : ((udpSend.run (spawnUdp ["a".toList, "b".toList] 0, UdpWorker.init 1 twoPackets)
        (List.replicate 3 (.event .step) ++ [.event .sendOk, .cancel, .event .step, .event .step])).map
        fun s => (s.2.pc, payloadBytes s.1.wire, s.1.wire.length, s.1.counters.total.bytesSent,
          s.1.counters.total.packetsSent)) = some (.ended, 8172, 1, 0, 0) := by decide +kernel
    obtain ⟨⟨t, w⟩, hs, h⟩ := Option.map_eq_some_iff.mp h
    simp only [Prod.mk.injEq] at h
    exact ⟨t, w, hs, h⟩
  · have h : ((tcpSend.run (TcpSend.init (Counters.new ["a".toList, "b".toList]) 1 twoPackets)
        [.connected, .step, .accept 5000, .writeErr, .step, .step, .step]).map
        fun s => (s.pc, s.accepted, s.counters.total.bytesSent)) = some (.ended, 5000, 0) := by
      decide +kernel
    obtain ⟨s, hs, h⟩ := Option.map_eq_some_iff.mp h
    simp only [Prod.mk.injEq] at h
    exact ⟨s, hs, h⟩

/-! ## A pass and its receiver -/

theorem UdpWorker.dgramAt_isPacket (t : UdpTest) (w : UdpWorker) (i : Nat) :
    IsPacket t.selfId (w.dgramAt t i).bytes :=
  ⟨_, _, rfl, w.payload.piece_fits _⟩

theorem UdpWorker.dgramAt_length (t : UdpTest) (w : UdpWorker) (i : Nat) :
    (w.dgramAt t i).bytes.length = udpHdr + min (w.payload.length - i * chunk) chunk := by
  rw [dgramAt, packet_length, Payload.piece_length]

theorem UdpWorker.dgramAt_drop (t : UdpTest) (w : UdpWorker) (i : Nat) :
    (w.dgramAt t i).bytes.drop udpHdr = w.payload.piece (i * chunk) := by
  simp only [dgramAt, packet]
  exact List.drop_left' (hdr_length _ _ _)

theorem UdpWorker.dgramAt_flatten (t : UdpTest) (w : UdpWorker) :
    (((List.range w.payload.packets).map (w.dgramAt t)).map fun d => d.bytes.drop udpHdr).flatten =
      w.payload.bytes := by
  rw [List.map_map, ← w.payload.pieces_flatten_packets]
  exact congrArg List.flatten (List.map_congr_left fun i _ => w.dgramAt_drop t i)

theorem UdpWorker.dgramAt_sum (t : UdpTest) (w : UdpWorker) :
    ((((List.range w.payload.packets).map (w.dgramAt t)).map (·.bytes)).map
      fun d => d.length - udpHdr).sum = w.payload.length := by
  have h := congrArg List.length (w.dgramAt_flatten t)
  rw [List.length_flatten, List.map_map, List.map_map] at h
  rw [List.map_map, List.map_map, Payload.length, ← h]
  refine congrArg List.sum (List.map_congr_left fun i _ => ?_)
  simp only [Function.comp, List.length_drop]

/-- What the receiver reads in the datagram `d` of a pass that starts in `t`. -/
structure Accepted (t : UdpTest) (w : UdpWorker) (i : Nat) (d : List UInt8) : Prop where
  longer : udpHdr < d.length
  fits : d.length ≤ udpPkt
  decodes : readHdr (d.take udpRecvBuf) =
    some (t.selfId, t.seqAt w.destId i, UInt32.ofNat (d.length - udpHdr))
  plen : (UInt32.ofNat (d.length - udpHdr)).toNat = d.length - udpHdr

theorem UdpWorker.dgramAt_accepted (t : UdpTest) {w : UdpWorker} {i : Nat}
    (hi : i < w.payload.packets) : Accepted t w i (w.dgramAt t i).bytes := by
  have hlen := w.dgramAt_length t i
  have hlt := Payload.lt_packets.mp hi
  simp only [chunk, udpHdr, udpPkt] at hlen hlt
  refine ⟨?_, ?_, ?_, ?_⟩
  · simp only [udpHdr]; omega
  · simp only [udpPkt]; omega
  · rw [List.take_of_length_le (by simp only [udpRecvBuf]; omega)]
    have hdata : (w.dgramAt t i).bytes.length - udpHdr = (w.payload.piece (i * chunk)).length := by
      rw [← w.dgramAt_drop t i, List.length_drop]
    rw [hdata]
    exact readHdr_packet _ _ _
  · rw [UInt32.toNat_ofNat_of_lt' (by simp only [udpHdr, UInt32.size]; omega)]

/-- A pass over the payload is cut into datagrams that bear the sender's id and its next numbers and add up to the
payload. Both ends count it alike, and the steps of the receive loop are those of `UdpTest.recv`. -/
theorem pass_agrees (t : UdpTest) (w : UdpWorker) (r : UdpTest) (hpc : w.pc = .chunk 0)
    (hc : t.cancelled = false) :
    ∃ t' w' ds, udpSend.run (t, w) (passEvents w.payload ++ [.event .step, .event .step]) =
        some (t', w') ∧
      w'.pc = .top ∧ t'.wire = t.wire ++ ds ∧ ds.length = divCeil w.payload.length chunk ∧
      (∀ i d, ds[i]? = some d → d.dest = w.destId ∧ Accepted t w i d.bytes) ∧
      (ds.map fun d => d.bytes.drop udpHdr).flatten = w.payload.bytes ∧
      Tally t.counters w.destId w.payload.length ds.length 1 1 t'.counters ∧
      r.Received t.selfId w.payload.length ds.length ((ds.map (·.bytes)).foldl UdpTest.recv r) ∧
      ∃ ls, ls.flatMap RecvLabel.dgrams = ds.map (·.bytes) ∧
        udpRecv.run (r, .waiting) ls = some ((ds.map (·.bytes)).foldl UdpTest.recv r, .waiting) := by
  obtain ⟨t', w', hrun, hpc', hdest, hcount, hwire⟩ := UdpWorker.pass hpc hc
  let op := w.payload.sentOp
  let t'' := (t'.onTotal op.apply).onPeer w'.destId op.apply
  have hlen : ((List.range w.payload.packets).map (w.dgramAt t)).length = w.payload.packets := by
    rw [List.length_map, List.length_range]
  refine ⟨t'', w'.goto .top, (List.range w.payload.packets).map (w.dgramAt t), ?_, rfl, hwire, hlen,
    ?_, w.dgramAt_flatten t, ?_, ?_, recvs_uninterrupted r _⟩
  · rw [Machine.run_append, hrun]
    simp [udpSend, UdpWorker.step, hpc', UdpWorker.goto, t'', op]
  · intro i d hd
    rw [List.getElem?_map, Option.map_eq_some_iff] at hd
    obtain ⟨j, hj, rfl⟩ := hd
    obtain ⟨hi, rfl⟩ := List.getElem?_eq_some_iff.mp hj
    have hi' : i < w.payload.packets := by rwa [List.length_range] at hi
    rw [List.getElem_range]
    exact ⟨rfl, UdpWorker.dgramAt_accepted t hi'⟩
  · have hof : op.Of w.payload.length w.payload.packets := Payload.of_sentOp (.inl rfl)
    have h := ((Tally.refl t.counters w.destId w.payload.length w.payload.packets).onTotal hof).onPeer
      hof
    have hp : op.passes = 1 := rfl
    rw [hlen]
    rw [hp, ← hcount, ← hdest] at h
    rw [← hcount, ← hdest]
    exact h
  · have hp : ∀ d ∈ ((List.range w.payload.packets).map (w.dgramAt t)).map (·.bytes),
        IsPacket t.selfId d := by
      intro d hd
      simp only [List.mem_map] at hd
      obtain ⟨_, ⟨i, _, rfl⟩, rfl⟩ := hd
      exact w.dgramAt_isPacket t i
    have h := (UdpTest.Received.refl r t.selfId).foldl hp
    rw [w.dgramAt_sum, List.length_map, Nat.zero_add, Nat.zero_add] at h
    exact h

theorem pass_agrees_ab :
    ∃ t' w' ds, udpSend.run (spawnUdp ["a".toList, "b".toList] 0,
        (UdpWorker.init 1 twoPackets).goto (.chunk 0))
        (passEvents twoPackets ++ [.event .step, .event .step]) = some (t', w') ∧
      t'.wire = [] ++ ds ∧ ds.length = 2 ∧
      (ds.map fun d => d.bytes.drop udpHdr).flatten = List.replicate 8173 7 ∧
      (spawnUdp ["a".toList, "b".toList] 1).Received 0 8173 2
        ((ds.map (·.bytes)).foldl UdpTest.recv (spawnUdp ["a".toList, "b".toList] 1)) := by
  obtain ⟨t', w', ds, hrun, _, hwire, hlen, _, hflat, _, hrecv, _⟩ :=
    pass_agrees (spawnUdp ["a".toList, "b".toList] 0) ((UdpWorker.init 1 twoPackets).goto (.chunk 0))
      (spawnUdp ["a".toList, "b".toList] 1) rfl rfl
  have hlength : twoPackets.length = 8173 := List.length_replicate
  have htwo : ds.length = 2 := by
    rw [hlen]
    change divCeil twoPackets.length chunk = 2
    rw [hlength]
    rfl
  refine ⟨t', w', ds, hrun, hwire, htwo, hflat, ?_⟩
  change UdpTest.Received _ 0 twoPackets.length ds.length _ at hrecv
  rwa [hlength, htwo] at hrecv

end Tperf.Dataplane
