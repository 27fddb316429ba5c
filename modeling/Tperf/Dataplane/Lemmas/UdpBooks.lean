import Mathlib.Algebra.Order.Group.Nat
import Mathlib.Algebra.Order.Monoid.Prod
import Tperf.Dataplane.Lemmas.Books

/-!
# The books of a UDP test, peer by peer
-/

namespace Tperf.Dataplane
open Lib Metrics Proto

/-! ## A send task -/

/-- The payload of a datagram. -/
def dataOf (bytes : List UInt8) : Nat × Nat := (bytes.length - udpHdr, 1)

namespace UdpWorker

variable (w : UdpWorker)

/-- What the socket took and the task has not counted for the peer: passes that were cut, the one under way,
and the one whose update is to come. -/
def undone : Nat × Nat where
  fst := w.cut.sum + w.pc.offset + w.pc.owesPeer * w.payload.length
  snd := (w.cut.map fun o => divCeil o chunk).sum + divCeil w.pc.offset chunk +
    w.pc.owesPeer * w.payload.packets

theorem init_undone (destId : UInt32) (payload : Payload) : (UdpWorker.init destId payload).undone = 0 := by
  simp [undone, init, UdpPc.offset, UdpPc.owesPeer, divCeil_zero]

/-- What an event adds to the counters of the peer. -/
def posting : UdpEvent → Nat × Nat
  | .step => match w.pc with
      | .peer op => (op.passes * w.payload.length, op.passes * w.payload.packets)
      | _ => 0
  | _ => 0

/-- What an event hands to the socket. -/
def launching : UdpEvent → Nat × Nat
  | .sendOk => match w.pc with
      | .sending offset _ => (min (w.payload.length - offset) Dataplane.chunk, 1)
      | _ => 0
  | _ => 0

variable {w} {w' : UdpWorker} {t t' : UdpTest} {e : UdpEvent}

theorem Steps.opens (h : Steps t w e t' w') (hok : w.Ok t.selfId) :
    w'.undone + w.posting e = w.undone + w.launching e := by
  cases h with
  | stop hpc | pass hpc | next hpc | take hpc | total hpc | unborn hpc =>
      simp only [undone, posting, launching, goto, hpc]
      rfl
  | cut hpc =>
      simp only [undone, posting, launching, giveUp, hpc, UdpPc.offset, UdpPc.owesPeer, List.sum_append,
        List.sum_singleton, List.map_append, List.map_singleton, divCeil_zero, add_zero]
  | sendErr hpc =>
      simp only [undone, posting, launching, giveUp, hpc, UdpPc.offset, UdpPc.owesPeer, AddOp.passes,
        List.sum_append, List.sum_singleton, List.map_append, List.map_singleton, divCeil_zero, add_zero]
  | abort hpc =>
      simp only [undone, posting, launching, giveUp, hpc, UdpPc.offset, UdpPc.owesPeer,
        List.sum_append, List.sum_singleton, List.map_append, List.map_singleton, divCeil_zero, add_zero]
  | beyond hpc hgt =>
      simp only [UdpWorker.Ok, hpc] at hok
      exact absurd hok.1 (Nat.not_le_of_lt hgt)
  | done hpc heq =>
      subst heq
      simp only [undone, posting, launching, goto, hpc, UdpPc.offset, UdpPc.owesPeer, Payload.sentOp,
        AddOp.passes, Payload.packets, divCeil_zero, Nat.one_mul, Nat.zero_mul, Nat.add_zero]
  | @peer op hpc =>
      simp only [undone, posting, launching, goto, hpc, UdpPc.offset, UdpPc.owesPeer, Nat.zero_mul,
        add_zero]
      rfl
  | @sendOk offset seq hpc =>
      simp only [UdpWorker.Ok, hpc] at hok
      obtain ⟨hlt, hbound, -⟩ := hok
      have hmod : offset % chunk = 0 := hbound.2.resolve_left (Nat.ne_of_lt hlt)
      have hnext := divCeil_next hmod (n := min (w.payload.length - offset) chunk)
        (by have := chunk_pos; omega) (Nat.min_le_right _ _)
      simp only [undone, posting, launching, goto, hpc, UdpPc.offset, UdpPc.owesPeer, hnext, Nat.zero_mul,
        add_zero]
      exact Prod.ext (Nat.add_assoc _ _ _).symm (Nat.add_assoc _ _ _).symm

theorem Steps.posts {id : UInt32} {a : AtomStats} (h : Steps t w e t' w') (hok : w.Ok t.selfId)
    (ha : t.counters.peer id = some a) :
    ∃ a', t'.counters.peer id = some a' ∧ receivedOf a' = receivedOf a ∧
      sentOf a' = sentOf a + amount (if w.destId = id then w.posting e else 0) := by
  cases h with
  | stop hpc | pass hpc | cut hpc | next hpc | done hpc | beyond hpc | take hpc | total hpc =>
      refine ⟨a, ha, rfl, ?_⟩
      simp [posting, hpc]
  | sendOk | sendErr | abort | unborn => exact ⟨a, ha, rfl, by simp [posting]⟩
  | @peer op hpc =>
      have hof : op.Of w.payload.length w.payload.packets :=
        Payload.of_sentOp (by simpa only [UdpWorker.Ok, hpc] using hok)
      refine ⟨_, Counters.onPeer_peer ha, ?_, ?_⟩
      · split
        · exact (op.apply_amount a).2
        · rfl
      · simp only [posting, hpc]
        split
        · rw [(op.apply_amount a).1, hof.amount_eq]
        · simp

/-- What is new on the wire. -/
theorem Steps.sends (h : Steps t w e t' w') (hok : w.Ok t.selfId) :
    ∃ ds, t'.wire = t.wire ++ ds ∧ (∀ d ∈ ds, d.dest = w.destId ∧ IsPacket t.selfId d.bytes) ∧
      (ds.map fun d => dataOf d.bytes).sum = w.launching e := by
  cases h with
  | stop | pass | cut | next | done | beyond | take | total | peer | sendErr | abort | unborn =>
      exact ⟨[], (List.append_nil _).symm, by simp, rfl⟩
  | @sendOk offset seq hpc =>
      simp only [UdpWorker.Ok, hpc] at hok
      obtain ⟨-, -, hdg⟩ := hok
      refine ⟨[w.dgram offset], rfl, ?_, ?_⟩
      · intro d hd
        obtain rfl := List.mem_singleton.mp hd
        rw [hdg]
        exact ⟨rfl, seq, _, rfl, w.payload.piece_fits offset⟩
      · have hlen : (w.dgram offset).bytes.length - udpHdr = min (w.payload.length - offset) Dataplane.chunk := by
          rw [hdg, packet_length, Payload.piece_length, Nat.add_sub_cancel_left]
        simp [dataOf, launching, hpc, hlen]

end UdpWorker

/-! ## The receive task -/

/-- What a datagram brings from the sender `id`. -/
def gotOf (id : UInt32) (dgram : List UInt8) : Nat × Nat :=
  match accepted dgram with
  | some (senderId, _, payloadBytes) => if senderId = id then (payloadBytes.toNat, 1) else 0
  | none => 0

/-- What was received and is not counted for the peer. -/
def RecvPc.undone (id : UInt32) : RecvPc → Nat × Nat
  | .peerRecv senderId _ payloadBytes => if senderId = id then (payloadBytes.toNat, 1) else 0
  | _ => 0

theorem UdpTest.RecvSteps.wire {t t' : UdpTest} {pc pc' : RecvPc} {l : RecvLabel}
    (h : t.RecvSteps pc l t' pc') : t'.wire = t.wire := by
  cases h <;> rfl

theorem UdpTest.RecvSteps.receives {t t' : UdpTest} {pc pc' : RecvPc} {l : RecvLabel} {id : UInt32}
    {a : AtomStats} (h : t.RecvSteps pc l t' pc') (hid : id.toNat < t.npeers ∧ id ≠ t.selfId)
    (ha : t.counters.peer id = some a) :
    ∃ a', t'.counters.peer id = some a' ∧ sentOf a' = sentOf a ∧
      receivedOf a' + amount (pc'.undone id) =
        receivedOf a + amount (pc.undone id) + amount (l.dgrams.map (gotOf id)).sum := by
  cases h with
  | refused hacc => exact ⟨a, ha, rfl, by simp [RecvPc.undone, RecvLabel.dgrams, gotOf, hacc]⟩
  | known hacc => exact ⟨a, ha, rfl, by simp [RecvPc.undone, RecvLabel.dgrams, gotOf, hacc]⟩
  | @stray dgram senderId seq payloadBytes hacc hstray =>
      have hne : senderId ≠ id := by rintro rfl; exact hstray hid
      exact ⟨a, ha, rfl, by simp [RecvPc.undone, RecvLabel.dgrams, gotOf, hacc, hne]⟩
  | @peerRecv senderId seq payloadBytes =>
      refine ⟨_, Counters.onPeer_peer ha, ?_, ?_⟩
      · split
        · simp [sentOf, AtomStats.addRecv_eq]
        · rfl
      · by_cases hs : senderId = id
        · simp [RecvPc.undone, RecvLabel.dgrams, hs, receivedOf, AtomStats.addRecv_eq, amount]
        · simp [RecvPc.undone, RecvLabel.dgrams, hs]
  | slotless | stop | noted => exact ⟨a, ha, rfl, by simp [RecvPc.undone, RecvLabel.dgrams]⟩
  | totalDrop => exact ⟨a, ha, rfl, by simp [RecvPc.undone, RecvLabel.dgrams]⟩
  | @peerDrop senderId d =>
      refine ⟨_, Counters.onPeer_peer ha, ?_, ?_⟩
      · split
        · simp [sentOf, AtomStats.addDrop_eq]
        · rfl
      · split <;> simp [RecvPc.undone, RecvLabel.dgrams, receivedOf, AtomStats.addDrop_eq]

theorem UdpTest.RecvSteps.undone_le {t t' : UdpTest} {pc pc' : RecvPc} {l : RecvLabel}
    (h : t.RecvSteps pc l t' pc') (id : UInt32) :
    pc'.undone id ≤ pc.undone id + (l.dgrams.map (gotOf id)).sum := by
  cases h with
  | known hacc => simp [RecvPc.undone, RecvLabel.dgrams, gotOf, hacc]
  | refused | stray | peerRecv | slotless | noted | totalDrop | peerDrop | stop => exact zero_le

/-- A packet of the sender `id` brings its payload. -/
theorem IsPacket.got {id : UInt32} {bytes : List UInt8} (h : IsPacket id bytes) (id' : UInt32) :
    gotOf id' bytes = if id = id' then dataOf bytes else 0 := by
  obtain ⟨seq, data, rfl, hfits⟩ := h
  have htake : (packet id seq data).take udpRecvBuf = packet id seq data :=
    List.take_of_length_le (by rw [packet_length]; exact hfits)
  have hlen : (packet id seq data).length - udpHdr = data.length := by rw [packet_length]; omega
  have hlt : data.length < 2 ^ 32 := by
    simp only [udpRecvBuf] at hfits
    omega
  have hplen : (UInt32.ofNat data.length).toUInt64 = UInt64.ofNat data.length := by
    apply UInt64.toNat_inj.mp
    simp only [UInt32.toNat_toUInt64, UInt32.toNat_ofNat', UInt64.toNat_ofNat']
    omega
  have hacc : accepted (packet id seq data) = some (id, seq, UInt64.ofNat data.length) := by
    simp [accepted, htake, readHdr_packet, hlen, hplen]
  have hnat : (UInt64.ofNat data.length).toNat = data.length := by
    rw [UInt64.toNat_ofNat']
    omega
  simp only [gotOf, hacc, dataOf, hlen, hnat]

/-! ## The test -/

/-- What the socket took for the host `id`. -/
def UdpTest.wiredTo (t : UdpTest) (id : UInt32) : Nat × Nat :=
  (t.wire.map fun d => if d.dest = id then dataOf d.bytes else 0).sum

theorem UdpWorker.Steps.wiredTo {t t' : UdpTest} {w w' : UdpWorker} {e : UdpEvent}
    (h : UdpWorker.Steps t w e t' w') (hok : w.Ok t.selfId) (id : UInt32) :
    t'.wiredTo id = t.wiredTo id + if w.destId = id then w.launching e else 0 := by
  obtain ⟨ds, hwire, hds, hsum⟩ := h.sends hok
  rw [UdpTest.wiredTo, hwire, List.map_append, List.sum_append]
  congr 1
  by_cases hd : w.destId = id
  · have hmap : ds.map (fun d => if d.dest = id then dataOf d.bytes else 0) =
        ds.map fun d => dataOf d.bytes :=
      List.map_congr_left fun d hmem => by rw [if_pos ((hds d hmem).1.trans hd)]
    rw [hmap, hsum, if_pos hd]
  · rw [if_neg hd]
    apply List.sum_eq_zero
    intro x hx
    obtain ⟨d, hmem, rfl⟩ := List.mem_map.mp hx
    rw [if_neg]
    exact fun he => hd ((hds d hmem).1.symm.trans he)

theorem UdpTest.RecvSteps.wiredTo {t t' : UdpTest} {pc pc' : RecvPc} {l : RecvLabel}
    (h : t.RecvSteps pc l t' pc') (id : UInt32) : t'.wiredTo id = t.wiredTo id := by
  rw [UdpTest.wiredTo, h.wire, UdpTest.wiredTo]

namespace UdpIo

variable (s : UdpIo) (id : UInt32)

/-- What the socket took for the host `id` and is not counted. -/
def undoneFor : Nat × Nat := (s.send.workers.map fun w => if w.destId = id then w.undone else 0).sum

/-- What was received from the host `id`. -/
def gotFrom : Nat × Nat := (s.received.map (gotOf id)).sum

/-- What was moved to or from the host `id`. -/
def moved : Way → Nat × Nat
  | .sent => s.send.test.wiredTo id
  | .received => s.gotFrom id

/-- What of it is not counted. -/
def uncounted : Way → Nat × Nat
  | .sent => s.undoneFor id
  | .received => s.recv.undone id

/-- What the counters of the host `id` show. -/
def showing (d : Way) : Nat × Nat :=
  (d.bytes.ofHost id.toNat s.send.test.counters.snapshotAll.2,
    d.packets.ofHost id.toNat s.send.test.counters.snapshotAll.2)

structure Booked : Prop where
  tasks : ∀ w ∈ s.send.workers, w.Ok s.send.test.selfId
  open_le : ∀ id d, s.uncounted id d ≤ s.moved id d
  peers : ∀ id, id.toNat < s.send.test.npeers ∧ id ≠ s.send.test.selfId →
    ∃ a, s.send.test.counters.peer id = some a ∧
      Posted (sentOf a) (fun w : UdpWorker => amount (if w.destId = id then w.undone else 0)) s.send.workers
        (amount (s.send.test.wiredTo id)) ∧
      receivedOf a + amount (s.recv.undone id) = amount (s.gotFrom id)

end UdpIo

variable {cfg : Config} {payload : Payload} {s s' : UdpIo}

theorem UdpIo.init_booked (cfg : Config) (assignment : Assignment) : (UdpIo.init cfg assignment).Booked where
  tasks := by simp [UdpIo.init]
  open_le id d := by cases d <;> exact le_rfl
  peers := by
    rintro id ⟨hid, -⟩
    have hid : id.toNat < cfg.hostlist.length := hid
    refine ⟨.default, ?_, rfl, rfl⟩
    simp [UdpIo.init, spawnUdp, Counters.new, Counters.peer, hid]

theorem UdpIo.Steps.moves {l : UdpIoLabel} (h : s.Steps cfg payload l s')
    (hok : ∀ w ∈ s.send.workers, w.Ok s.send.test.selfId) (id : UInt32) (d : Way) :
    s.moved id d ≤ s'.moved id d ∧ s'.uncounted id d + s.moved id d ≤ s.uncounted id d + s'.moved id d := by
  cases h with
  | cancel | unresolved => cases d <;> exact ⟨le_rfl, le_rfl⟩
  | @worker i e w w' t' hw hsteps =>
      cases d with
      | received => exact ⟨le_rfl, le_rfl⟩
      | sent =>
          have hok := hok w (List.mem_of_getElem? hw)
          have hdest : w'.destId = w.destId := hsteps.fixed.1
          obtain ⟨r, hr, hset⟩ := sum_map_set (fun w : UdpWorker => if w.destId = id then w.undone else 0) hw
          have hnew : w'.undone ≤ w.undone + w.launching e := hsteps.opens hok ▸ le_self_add
          simp only [UdpIo.moved, UdpIo.uncounted, UdpIo.undoneFor, hsteps.wiredTo hok, hset, hr, hdest]
          refine ⟨le_self_add, ?_⟩
          by_cases hd : w.destId = id
          · simp only [if_pos hd]
            calc w'.undone + r + s.send.test.wiredTo id
                ≤ w.undone + w.launching e + r + s.send.test.wiredTo id :=
                  add_le_add_left (add_le_add_left hnew _) _
              _ = _ := by abel
          · simp only [if_neg hd, add_zero]
            exact le_rfl
  | recv hsteps =>
      cases d with
      | sent =>
          simp only [UdpIo.moved, UdpIo.uncounted, hsteps.wiredTo]
          exact ⟨le_rfl, le_rfl⟩
      | received =>
          simp only [UdpIo.moved, UdpIo.uncounted, UdpIo.gotFrom, List.map_append, List.sum_append]
          refine ⟨le_self_add, ?_⟩
          calc _ ≤ s.recv.undone id + _ + _ := add_le_add_left (hsteps.undone_le id) _
            _ = _ := by abel
  | @spawn t targets ht =>
      cases d with
      | received => exact ⟨le_rfl, le_rfl⟩
      | sent =>
          have hfresh : (List.map (fun w : UdpWorker => if w.destId = id then w.undone else 0)
              (List.replicate cfg.workers.toNat (UdpWorker.init t.id payload))).sum = 0 := by
            simp [UdpWorker.init_undone]
          simp only [UdpIo.moved, UdpIo.uncounted, UdpIo.undoneFor, List.map_append, List.sum_append, hfresh,
            add_zero]
          exact ⟨le_rfl, le_rfl⟩

theorem UdpIo.Booked.step {l : UdpIoLabel} (h : s.Booked) (hs : (udpIo cfg payload).step s l = some s') :
    s'.Booked := by
  have hsteps := udpIo_steps hs
  have hopen : ∀ id d, s'.uncounted id d ≤ s'.moved id d := by
    intro id d
    apply le_of_add_le_add_right (a := s.moved id d)
    calc s'.uncounted id d + s.moved id d ≤ s.uncounted id d + s'.moved id d := (hsteps.moves h.tasks id d).2
      _ ≤ s.moved id d + s'.moved id d := add_le_add_left (h.open_le id d) _
      _ = _ := add_comm _ _
  cases hsteps with
  | cancel => exact ⟨h.tasks, hopen, h.peers⟩
  | @worker i e w w' t' hw hsteps =>
      have hok := h.tasks w (List.mem_of_getElem? hw)
      obtain ⟨hdest, -, hself, hnames⟩ := hsteps.fixed
      have hnpeers : t'.npeers = s.send.test.npeers := congrArg List.length hnames
      refine ⟨?_, hopen, ?_⟩
      · intro w₁ hw₁
        rcases List.mem_or_eq_of_mem_set hw₁ with hmem | rfl
        · change w₁.Ok t'.selfId
          rw [hself]
          exact h.tasks w₁ hmem
        · exact hsteps.ok hok
      · rintro id ⟨hid, hne⟩
        obtain ⟨a, ha, hsent, hrecv⟩ := h.peers id ⟨hnpeers ▸ hid, hself ▸ hne⟩
        obtain ⟨a', ha', hsame, hadd⟩ := hsteps.posts hok ha
        have hopens := hsteps.opens hok
        have hwired := hsteps.wiredTo hok id
        refine ⟨a', ha', hsent.set hw ?_, hsame ▸ hrecv⟩
        change _ + _ + _ = _ + _ + amount (t'.wiredTo id)
        simp only [hdest, hadd, hwired]
        split
        · have hamount : amount w'.undone + amount (w.posting e) =
              amount w.undone + amount (w.launching e) := by
            rw [← amount_add, hopens, amount_add]
          rw [amount_add]
          calc sentOf a + amount (w.posting e) + amount w'.undone + amount (s.send.test.wiredTo id)
              = sentOf a + (amount w'.undone + amount (w.posting e)) +
                  amount (s.send.test.wiredTo id) := by abel
            _ = _ := by rw [hamount]; abel
        · simp
  | @recv l t' pc' hsteps =>
      obtain ⟨hself, hnames⟩ := hsteps.fixed
      have hnpeers : t'.npeers = s.send.test.npeers := congrArg List.length hnames
      refine ⟨fun w hw => ?_, hopen, ?_⟩
      · change w.Ok t'.selfId
        rw [hself]
        exact h.tasks w hw
      · rintro id ⟨hid, hne⟩
        have hknows : id.toNat < s.send.test.npeers ∧ id ≠ s.send.test.selfId :=
          ⟨hnpeers ▸ hid, hself ▸ hne⟩
        obtain ⟨a, ha, hsent, hrecv⟩ := h.peers id hknows
        obtain ⟨a', ha', hsame, hadd⟩ := hsteps.receives hknows ha
        refine ⟨a', ha', ?_, ?_⟩
        · change Posted _ _ s.send.workers (amount (t'.wiredTo id))
          rw [hsame, hsteps.wiredTo]
          exact hsent
        · rw [hadd, hrecv, ← amount_add, UdpIo.gotFrom, UdpIo.gotFrom, List.map_append, List.sum_append]
  | @spawn t targets ht =>
      refine ⟨?_, hopen, ?_⟩
      · intro w hw
        rcases List.mem_append.mp hw with hw | hw
        · exact h.tasks w hw
        · obtain rfl := List.eq_of_mem_replicate hw
          exact trivial
      · intro id hid
        obtain ⟨a, ha, hsent, hrecv⟩ := h.peers id hid
        refine ⟨a, ha, hsent.append ?_, hrecv⟩
        intro w hw
        obtain rfl := List.eq_of_mem_replicate hw
        simp [UdpWorker.init_undone]
  | unresolved => exact ⟨h.tasks, hopen, h.peers⟩

theorem sum_amount {α : Type} (f : α → Nat × Nat) (l : List α) :
    (l.map fun x => amount (f x)).sum = amount (l.map f).sum := by
  induction l with
  | nil => rfl
  | cons x l ih => simp [ih]

theorem UdpIo.Booked.counters (h : s.Booked) {id : UInt32} {a : AtomStats} (hne : id ≠ s.send.test.selfId)
    (ha : s.send.test.counters.peer id = some a) :
    sentOf a + amount (s.undoneFor id) = amount (s.send.test.wiredTo id) ∧
      receivedOf a + amount (s.recv.undone id) = amount (s.gotFrom id) := by
  have hid : id.toNat < s.send.test.npeers := by
    rw [UdpTest.npeers, ← s.send.test.counters.aligned]
    exact (List.getElem?_eq_some_iff.mp ha).1
  obtain ⟨a', ha', hsent, hrecv⟩ := h.peers id ⟨hid, hne⟩
  obtain rfl : a = a' := Option.some.inj (ha.symm.trans ha')
  refine ⟨?_, hrecv⟩
  rw [Posted, sum_amount] at hsent
  exact hsent

/-- While nothing wraps, the counters and what is not counted are what was moved. -/
theorem UdpIo.Booked.showing_add (h : s.Booked) {id : UInt32} {d : Way} (hid : id.toNat < s.send.test.npeers)
    (hne : id ≠ s.send.test.selfId) (hlt : (s.moved id d).1 < 2 ^ 64 ∧ (s.moved id d).2 < 2 ^ 64) :
    s.showing id d + s.uncounted id d = s.moved id d := by
  obtain ⟨a, ha, -⟩ := h.peers id ⟨hid, hne⟩
  obtain ⟨hsent, hrecv⟩ := h.counters hne ha
  rw [UdpIo.showing, Field.ofHost_snapshotAll _ ha, Field.ofHost_snapshotAll _ ha]
  cases d with
  | sent => exact shown_add_eq hsent (h.open_le id .sent) hlt
  | received => exact shown_add_eq hrecv (h.open_le id .received) hlt

theorem UdpIo.Booked.showing_le {l : UdpIoLabel} (h : s.Booked) (h' : s'.Booked)
    (hs : s.Steps cfg payload l s') {id : UInt32} {d : Way} (hid : id.toNat < s.send.test.npeers)
    (hid' : id.toNat < s'.send.test.npeers) (hne : id ≠ s.send.test.selfId) (hne' : id ≠ s'.send.test.selfId)
    (hlt : (s'.moved id d).1 < 2 ^ 64 ∧ (s'.moved id d).2 < 2 ^ 64) : s.showing id d ≤ s'.showing id d := by
  obtain ⟨hle, hopen⟩ := hs.moves h.tasks id d
  have hold := h.showing_add hid hne ⟨hle.1.trans_lt hlt.1, hle.2.trans_lt hlt.2⟩
  have hnew := h'.showing_add hid' hne' hlt
  apply le_of_add_le_add_right (a := s.uncounted id d + s'.uncounted id d)
  calc s.showing id d + (s.uncounted id d + s'.uncounted id d)
      = s'.uncounted id d + (s.showing id d + s.uncounted id d) := by abel
    _ ≤ s.uncounted id d + s'.moved id d := hold ▸ hopen
    _ = s'.showing id d + (s.uncounted id d + s'.uncounted id d) := by rw [← hnew]; abel

end Tperf.Dataplane
