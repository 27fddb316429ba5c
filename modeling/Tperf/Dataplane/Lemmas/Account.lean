import Tperf.Dataplane.Lemmas.Pass

/-!
# The counters of the send loops
-/

namespace Tperf.Dataplane
open Lib Metrics

/-! ## Counting passes -/

/-- From `base` to `c`, `k` passes were added to the total and `m` to the peer `id`. -/
structure Tally (base : Counters) (id : UInt32) (bytes packets k m : Nat) (c : Counters) : Prop where
  bytesSent : c.total.bytesSent = base.total.bytesSent + UInt64.ofNat (k * bytes)
  packetsSent : c.total.packetsSent = base.total.packetsSent + UInt64.ofNat (k * packets)
  peer : (c.peer id).map (fun a => (a.bytesSent, a.packetsSent)) =
    (base.peer id).map fun a =>
      (a.bytesSent + UInt64.ofNat (m * bytes), a.packetsSent + UInt64.ofNat (m * packets))

/-- The number of complete passes an update stands for. -/
def AddOp.passes : AddOp → Nat
  | .sent _ _ => 1
  | .drop _ => 0

variable {base c : Counters} {id : UInt32} {bytes packets k m : Nat} {op : AddOp}

theorem Tally.refl (c : Counters) (id : UInt32) (bytes packets : Nat) :
    Tally c id bytes packets 0 0 c where
  bytesSent := by simp
  packetsSent := by simp
  peer := by cases c.peer id <;> simp

theorem ofNat_succ_mul (k n : Nat) :
    UInt64.ofNat ((k + 1) * n) = UInt64.ofNat (k * n) + UInt64.ofNat n := by
  rw [Nat.succ_mul, UInt64.ofNat_add]

/-- The updates a loop makes: a complete pass, or one drop. -/
def AddOp.Of (op : AddOp) (bytes packets : Nat) : Prop :=
  op = .sent (UInt64.ofNat bytes) (UInt64.ofNat packets) ∨ op = .drop 1

theorem Tally.onTotal (h : Tally base id bytes packets k m c) (ho : op.Of bytes packets) :
    Tally base id bytes packets (k + op.passes) m (c.onTotal op.apply) := by
  rcases ho with rfl | rfl
  · refine ⟨?_, ?_, h.peer⟩
    · simp only [Counters.onTotal_total, AddOp.apply, AtomStats.addSent_eq, AddOp.passes,
        h.bytesSent, ofNat_succ_mul, UInt64.add_assoc]
    · simp only [Counters.onTotal_total, AddOp.apply, AtomStats.addSent_eq, AddOp.passes,
        h.packetsSent, ofNat_succ_mul, UInt64.add_assoc]
  · refine ⟨?_, ?_, h.peer⟩
    · simpa only [Counters.onTotal_total, AddOp.apply, AtomStats.addDrop_eq, AddOp.passes,
        Nat.add_zero] using h.bytesSent
    · simpa only [Counters.onTotal_total, AddOp.apply, AtomStats.addDrop_eq, AddOp.passes,
        Nat.add_zero] using h.packetsSent

theorem Tally.onPeer (h : Tally base id bytes packets k m c) (ho : op.Of bytes packets) :
    Tally base id bytes packets k (m + op.passes) (c.onPeer id op.apply) := by
  refine ⟨h.bytesSent, h.packetsSent, ?_⟩
  have hp := h.peer
  rw [Counters.onPeer_peer_self]
  cases hb : base.peer id with
  | none =>
      rw [hb, Option.map_none, Option.map_eq_none_iff] at hp
      rw [hp]; rfl
  | some a =>
      rw [hb, Option.map_some, Option.map_eq_some_iff] at hp
      obtain ⟨a', ha', hp⟩ := hp
      rw [Prod.mk.injEq] at hp
      rw [ha']
      rcases ho with rfl | rfl
      · simp [AddOp.apply, AddOp.passes, AtomStats.addSent_eq, hp.1, hp.2, ofNat_succ_mul,
          UInt64.add_assoc, - UInt64.ofNat_mul]
      · simp [AddOp.apply, AddOp.passes, AtomStats.addDrop_eq, hp.1, hp.2]

/-! ## `udp_send_loop` -/

theorem divCeil_zero : divCeil 0 chunk = 0 := by decide

theorem divCeil_next {offset n : Nat} (h : offset % chunk = 0) (hpos : 0 < n) (hle : n ≤ chunk) :
    divCeil (offset + n) chunk = divCeil offset chunk + 1 := by
  have hdvd := Nat.div_add_mod offset chunk
  simp only [divCeil, chunk, udpPkt, udpHdr] at *
  omega

theorem Payload.packets_lt (p : Payload) : p.packets < 2 ^ 64 := by
  have := p.fits
  simp only [packets, divCeil, chunk, udpPkt, udpHdr, Payload.length]
  omega

/-- `pkts.max(1)` is `pkts`. -/
theorem Payload.sentOp_eq (p : Payload) :
    p.sentOp = .sent (UInt64.ofNat p.length) (UInt64.ofNat p.packets) := by
  have hp : (UInt64.ofNat p.packets).toNat = p.packets := UInt64.toNat_ofNat_of_lt' p.packets_lt
  have hle : (1 : UInt64) ≤ UInt64.ofNat p.packets := by
    rw [UInt64.le_iff_toNat_le, hp]
    exact p.packets_pos
  have hmax : max (UInt64.ofNat p.packets) 1 = UInt64.ofNat p.packets := by
    by_cases h : UInt64.ofNat p.packets ≤ 1
    · exact (if_pos h).trans (UInt64.le_antisymm hle h)
    · exact if_neg h
  rw [sentOp, hmax]

theorem Payload.of_sentOp {p : Payload} {op : AddOp} (h : op = p.sentOp ∨ op = .drop 1) :
    op.Of p.length p.packets := by
  rwa [sentOp_eq] at h

def UdpPc.offset : UdpPc → Nat
  | .chunk offset | .take offset | .sending offset _ => offset
  | _ => 0

/-- The complete passes that the total does not show yet. -/
def UdpPc.owesTotal : UdpPc → Nat
  | .total op => op.passes
  | _ => 0

def UdpPc.owesPeer : UdpPc → Nat
  | .total op | .peer op => op.passes
  | _ => 0

/-- The payload bytes in some datagrams. -/
def payloadBytes (ds : List Datagram) : Nat := (ds.map fun d => d.bytes.length - udpHdr).sum

/-- Since `t₀` the socket accepted `sent`, in `k` complete passes and in those that were cut. -/
structure UdpAccount (t₀ t : UdpTest) (w : UdpWorker) (sent : List Datagram) (k kt kp : Nat) :
    Prop where
  ok : w.Ok t.selfId
  wire : t.wire = t₀.wire ++ sent
  tally : Tally t₀.counters w.destId w.payload.length w.payload.packets kt kp t.counters
  total : kt + w.pc.owesTotal = k
  peer : kp + w.pc.owesPeer = k
  bytes : payloadBytes sent = k * w.payload.length + w.cut.sum + w.pc.offset
  packets : sent.length =
    k * w.payload.packets + (w.cut.map fun o => divCeil o chunk).sum + divCeil w.pc.offset chunk
  cut : ∀ o ∈ w.cut, o < w.payload.length

theorem UdpAccount.init (t : UdpTest) (destId : UInt32) (p : Payload) :
    UdpAccount t t (UdpWorker.init destId p) [] 0 0 0 where
  ok := trivial
  wire := (List.append_nil _).symm
  tally := .refl _ _ _ _
  total := rfl
  peer := rfl
  bytes := by simp [payloadBytes, UdpWorker.init, UdpPc.offset]
  packets := by simp [UdpWorker.init, UdpPc.offset, divCeil_zero]
  cut := nofun

variable {t₀ t t' : UdpTest} {w w' : UdpWorker} {sent : List Datagram} {kt kp : Nat}

theorem UdpAccount.stands (h : UdpAccount t₀ t w sent k kt kp) {pc : UdpPc} (hpc : w.pc = pc) :
    kt + pc.owesTotal = k ∧ kp + pc.owesPeer = k ∧
      payloadBytes sent = k * w.payload.length + w.cut.sum + pc.offset ∧
      sent.length = k * w.payload.packets + (w.cut.map fun o => divCeil o chunk).sum +
        divCeil pc.offset chunk :=
  hpc ▸ ⟨h.total, h.peer, h.bytes, h.packets⟩

/-- A step that keeps the wire, the counters, the offset and what is owed. -/
theorem UdpAccount.goto (h : UdpAccount t₀ t w sent k kt kp) {pc pc' : UdpPc} (hpc : w.pc = pc)
    (hok : (w.goto pc').Ok t.selfId) (ho : pc'.offset = pc.offset) (ht : pc'.owesTotal = pc.owesTotal)
    (hp : pc'.owesPeer = pc.owesPeer) : UdpAccount t₀ t (w.goto pc') sent k kt kp := by
  obtain ⟨h₁, h₂, h₃, h₄⟩ := h.stands hpc
  exact ⟨hok, h.wire, h.tally, ht ▸ h₁, hp ▸ h₂, ho ▸ h₃, ho ▸ h₄, h.cut⟩

/-- The bytes of a pass that is left are moved to `cut`. -/
theorem UdpAccount.giveUp (h : UdpAccount t₀ t w sent k kt kp) {offset : Nat} {pc pc' : UdpPc}
    (hpc : w.pc = pc) (hoff : pc.offset = offset) (hlt : offset < w.payload.length)
    (hok : (w.giveUp offset pc').Ok t.selfId) (ho : pc'.offset = 0)
    (ht : pc'.owesTotal = pc.owesTotal) (hp : pc'.owesPeer = pc.owesPeer) :
    UdpAccount t₀ t (w.giveUp offset pc') sent k kt kp := by
  obtain ⟨h₁, h₂, h₃, h₄⟩ := h.stands hpc
  refine ⟨hok, h.wire, h.tally, ht ▸ h₁, hp ▸ h₂, ?_, ?_, ?_⟩
  · rw [h₃, hoff]
    simp only [UdpWorker.giveUp, List.sum_append, List.sum_singleton, ho]
    omega
  · rw [h₄, hoff]
    simp only [UdpWorker.giveUp, List.map_append, List.sum_append, List.map_singleton,
      List.sum_singleton, ho, divCeil_zero]
    omega
  · intro o ho
    rcases List.mem_append.mp ho with ho | ho
    · exact h.cut o ho
    · rw [List.mem_singleton.mp ho]; exact hlt

theorem UdpAccount.step {e : UdpEvent} (h : UdpAccount t₀ t w sent k kt kp)
    (hs : w.Steps t e t' w') : ∃ sent' k' kt' kp', UdpAccount t₀ t' w' sent' k' kt' kp' := by
  have hok' := hs.ok h.ok
  have hok := h.ok
  cases hs with
  | stop hpc => exact ⟨sent, k, kt, kp, h.goto hpc hok' rfl rfl rfl⟩
  | pass hpc => exact ⟨sent, k, kt, kp, h.goto hpc hok' rfl rfl rfl⟩
  | cut hpc hlt => exact ⟨sent, k, kt, kp, h.giveUp hpc rfl hlt hok' rfl rfl rfl⟩
  | next hpc => exact ⟨sent, k, kt, kp, h.goto hpc hok' rfl rfl rfl⟩
  | @done offset hpc heq =>
      obtain ⟨ht, hp, hb, hn⟩ := h.stands hpc
      refine ⟨sent, k + 1, kt, kp, hok', h.wire, h.tally, ?_, ?_, ?_, ?_, h.cut⟩
      · rw [← ht]; rfl
      · rw [← hp]; rfl
      · rw [hb, heq, Nat.succ_mul]
        simp only [UdpPc.offset, UdpWorker.goto]
        omega
      · rw [hn, heq, Nat.succ_mul]
        simp only [UdpPc.offset, UdpWorker.goto, divCeil_zero]
        simp only [Payload.packets]
        omega
  | beyond hpc hgt =>
      simp only [UdpWorker.Ok, hpc] at hok
      exact absurd hok.1 (Nat.not_le_of_lt hgt)
  | take hpc =>
      obtain ⟨ht, hp, hb, hn⟩ := h.stands hpc
      exact ⟨sent, k, kt, kp, hok', h.wire, h.tally, ht, hp, hb, hn, h.cut⟩
  | @total op hpc =>
      obtain ⟨ht, hp, hb, hn⟩ := h.stands hpc
      simp only [UdpWorker.Ok, hpc] at hok
      exact ⟨sent, k, kt + op.passes, kp, hok', h.wire, h.tally.onTotal (Payload.of_sentOp hok), ht, hp,
        hb, hn, h.cut⟩
  | @peer op hpc =>
      obtain ⟨ht, hp, hb, hn⟩ := h.stands hpc
      simp only [UdpWorker.Ok, hpc] at hok
      exact ⟨sent, k, kt, kp + op.passes, hok', h.wire, h.tally.onPeer (Payload.of_sentOp hok), ht, hp,
        hb, hn, h.cut⟩
  | @sendOk offset seq hpc =>
      obtain ⟨ht, hp, hb, hn⟩ := h.stands hpc
      simp only [UdpWorker.Ok, hpc] at hok
      obtain ⟨hlt, hbound, hdg⟩ := hok
      have hmod : offset % chunk = 0 := hbound.2.resolve_left (Nat.ne_of_lt hlt)
      have hlen : (w.dgram offset).bytes.length - udpHdr =
          min (w.payload.length - offset) chunk := by
        rw [hdg, packet_length, Payload.piece_length, Nat.add_sub_cancel_left]
      refine ⟨sent ++ [w.dgram offset], k, kt, kp, hok', ?_, h.tally, ht, hp, ?_, ?_, h.cut⟩
      · rw [UdpTest.send, h.wire, List.append_assoc]
      · simp only [payloadBytes, List.map_append, List.sum_append, List.map_singleton,
          List.sum_singleton, hlen] at hb ⊢
        rw [hb]
        simp only [UdpPc.offset, UdpWorker.goto]
        omega
      · rw [List.length_append, hn, List.length_singleton]
        simp only [UdpPc.offset, UdpWorker.goto]
        rw [divCeil_next hmod (by have := chunk_pos; omega) (Nat.min_le_right _ _)]
        omega
  | sendErr hpc =>
      simp only [UdpWorker.Ok, hpc] at hok
      exact ⟨sent, k, kt, kp, h.giveUp hpc rfl hok.1 hok' rfl rfl rfl⟩
  | abort hpc =>
      simp only [UdpWorker.Ok, hpc] at hok
      exact ⟨sent, k, kt, kp, h.giveUp hpc rfl hok.1 hok' rfl rfl rfl⟩
  | unborn hpc => exact ⟨sent, k, kt, kp, h.goto hpc hok' rfl rfl rfl⟩

theorem UdpAccount.run {s : UdpTest × UdpWorker} {ls : List TaskLabel} {destId : UInt32} {p : Payload}
    (h : udpSend.run (t₀, UdpWorker.init destId p) ls = some s) :
    (∃ sent k kt kp, UdpAccount t₀ s.1 s.2 sent k kt kp) ∧ s.2.destId = destId ∧ s.2.payload = p := by
  refine Machine.run_invariant (I := fun s : UdpTest × UdpWorker =>
    (∃ sent k kt kp, UdpAccount t₀ s.1 s.2 sent k kt kp) ∧ s.2.destId = destId ∧ s.2.payload = p) ?_ h
    ⟨⟨[], 0, 0, 0, .init t₀ destId p⟩, rfl, rfl⟩
  rintro ⟨t, w⟩ l ⟨t', w'⟩ ⟨⟨sent, k, kt, kp, ha⟩, hd, hp⟩ hs
  cases l with
  | event e =>
      have hst := UdpWorker.steps hs
      obtain ⟨hd', hp', _, _⟩ := hst.fixed
      exact ⟨ha.step hst, hd'.trans hd, hp'.trans hp⟩
  | cancel =>
      simp only [udpSend, Option.some.injEq, Prod.mk.injEq] at hs
      obtain ⟨rfl, rfl⟩ := hs
      exact ⟨⟨sent, k, kt, kp, ha.ok, ha.wire, ha.tally, ha.total, ha.peer, ha.bytes, ha.packets,
        ha.cut⟩, hd, hp⟩

/-! ## `tcp_send_loop` -/

/-- The branches of `tcpSend`. -/
inductive TcpSend.Steps (s : TcpSend) : TcpLabel → TcpSend → Prop
  | connected (hpc : s.pc = .connecting) : Steps s .connected (s.goto .top)
  | connectErr (hpc : s.pc = .connecting) : Steps s .connectErr (s.goto .ended)
  | stop (hpc : s.pc = .top) : Steps s .step (s.goto .ended)
  | write (hpc : s.pc = .top) : Steps s .step (s.goto (.writing 0))
  | quit (hpc : s.pc = .failed) : Steps s .step (s.goto .ended)
  | fail (hpc : s.pc = .failed) : Steps s .step (s.goto (.total (.drop 1)))
  | total {op : AddOp} (hpc : s.pc = .total op) :
      Steps s .step { s with counters := s.counters.onTotal op.apply, pc := .peer op }
  | peer {op : AddOp} (hpc : s.pc = .peer op) :
      Steps s .step { s with counters := s.counters.onPeer s.destId op.apply, pc := after op }
  | accept {offset n : Nat} (hpc : s.pc = .writing offset) (hlt : offset + n < s.payload.length) :
      Steps s (.accept n) { s with accepted := s.accepted + n, pc := .writing (offset + n) }
  | whole {offset n : Nat} (hpc : s.pc = .writing offset) (heq : offset + n = s.payload.length) :
      Steps s (.accept n)
        { s with accepted := s.accepted + n, pc := .total (sentOp s.payload) }
  | writeErr {offset : Nat} (hpc : s.pc = .writing offset) : Steps s .writeErr (s.giveUp offset .failed)
  | cancel : Steps s .cancel { s with cancelled := true }
  | abort {offset : Nat} (hpc : s.pc = .writing offset) : Steps s .abort (s.giveUp offset .ended)
  | unborn (hpc : s.pc = .connecting) : Steps s .abort (s.goto .ended)

theorem tcp_steps {s s' : TcpSend} {l : TcpLabel} (h : tcpSend.step s l = some s') :
    s.Steps l s' := by
  cases l with
  | connected =>
      simp only [tcpSend, Option.ite_none_right_eq_some, Option.some.injEq] at h
      obtain ⟨hpc, rfl⟩ := h
      exact .connected hpc
  | connectErr =>
      simp only [tcpSend, Option.ite_none_right_eq_some, Option.some.injEq] at h
      obtain ⟨hpc, rfl⟩ := h
      exact .connectErr hpc
  | step =>
      simp only [tcpSend] at h
      cases hpc : s.pc <;> simp only [hpc, reduceCtorEq, Option.some.injEq] at h <;> subst h
      · cases s.cancelled with
        | true => exact .stop hpc
        | false => exact .write hpc
      · cases s.cancelled with
        | true => exact .quit hpc
        | false => exact .fail hpc
      · exact .total hpc
      · exact .peer hpc
  | accept n =>
      simp only [tcpSend] at h
      cases hpc : s.pc <;>
        simp only [hpc, reduceCtorEq, Option.ite_none_right_eq_some, Option.some.injEq] at h
      rename_i offset
      obtain ⟨⟨_, hle⟩, rfl⟩ := h
      by_cases heq : offset + n = s.payload.length
      · rw [if_pos heq]
        exact .whole hpc heq
      · rw [if_neg heq]
        exact .accept hpc (by omega)
  | writeErr =>
      simp only [tcpSend] at h
      cases hpc : s.pc <;> simp only [hpc, reduceCtorEq, Option.some.injEq] at h
      subst h
      exact .writeErr hpc
  | cancel => exact (Option.some.inj h) ▸ .cancel
  | abort =>
      simp only [tcpSend] at h
      cases hpc : s.pc <;> simp only [hpc, reduceCtorEq, Option.some.injEq] at h <;> subst h
      · exact .unborn hpc
      · exact .abort hpc

def TcpSend.Ok (s : TcpSend) : Prop :=
  match s.pc with
  | .writing offset => offset < s.payload.length
  | .total op | .peer op => op.Of s.payload.length 1
  | _ => True

def TcpPc.offset : TcpPc → Nat
  | .writing offset => offset
  | _ => 0

def TcpPc.owesTotal : TcpPc → Nat
  | .total op => op.passes
  | _ => 0

def TcpPc.owesPeer : TcpPc → Nat
  | .total op | .peer op => op.passes
  | _ => 0

/-- The socket accepted `k` complete payloads and those that were cut. -/
structure TcpAccount (base : Counters) (s : TcpSend) (k kt kp : Nat) : Prop where
  ok : s.Ok
  tally : Tally base s.destId s.payload.length 1 kt kp s.counters
  total : kt + s.pc.owesTotal = k
  peer : kp + s.pc.owesPeer = k
  bytes : s.accepted = k * s.payload.length + s.cut.sum + s.pc.offset
  cut : ∀ o ∈ s.cut, o < s.payload.length

theorem TcpAccount.init (base : Counters) (destId : UInt32) (p : Payload) :
    TcpAccount base (TcpSend.init base destId p) 0 0 0 where
  ok := trivial
  tally := .refl _ _ _ _
  total := rfl
  peer := rfl
  bytes := by simp [TcpSend.init, TcpPc.offset]
  cut := nofun

variable {s s' : TcpSend}

theorem TcpAccount.stands (h : TcpAccount base s k kt kp) {pc : TcpPc} (hpc : s.pc = pc) :
    kt + pc.owesTotal = k ∧ kp + pc.owesPeer = k ∧
      s.accepted = k * s.payload.length + s.cut.sum + pc.offset :=
  hpc ▸ ⟨h.total, h.peer, h.bytes⟩

theorem TcpAccount.goto (h : TcpAccount base s k kt kp) {pc pc' : TcpPc} (hpc : s.pc = pc)
    (hok : (s.goto pc').Ok) (ho : pc'.offset = pc.offset) (ht : pc'.owesTotal = pc.owesTotal)
    (hp : pc'.owesPeer = pc.owesPeer) : TcpAccount base (s.goto pc') k kt kp := by
  obtain ⟨h₁, h₂, h₃⟩ := h.stands hpc
  exact ⟨hok, h.tally, ht ▸ h₁, hp ▸ h₂, ho ▸ h₃, h.cut⟩

theorem TcpAccount.giveUp (h : TcpAccount base s k kt kp) {offset : Nat} {pc : TcpPc}
    (hpc : s.pc = .writing offset) (hok : (s.giveUp offset pc).Ok) (ho : pc.offset = 0)
    (ht : pc.owesTotal = 0) (hp : pc.owesPeer = 0) :
    TcpAccount base (s.giveUp offset pc) k kt kp := by
  obtain ⟨h₁, h₂, h₃⟩ := h.stands hpc
  have hlt := h.ok
  simp only [TcpSend.Ok, hpc] at hlt
  refine ⟨hok, h.tally, ht ▸ h₁, hp ▸ h₂, ?_, ?_⟩
  · have hoff : (TcpPc.writing offset).offset = offset := rfl
    simp only [TcpSend.giveUp, h₃, List.sum_append, List.sum_singleton, ho, hoff]
    omega
  · intro o ho
    rcases List.mem_append.mp ho with ho | ho
    · exact h.cut o ho
    · rw [List.mem_singleton.mp ho]; exact hlt

theorem TcpAccount.step {l : TcpLabel} (h : TcpAccount base s k kt kp) (hs : s.Steps l s') :
    ∃ k' kt' kp', TcpAccount base s' k' kt' kp' := by
  have hok := h.ok
  cases hs with
  | connected hpc => exact ⟨k, kt, kp, h.goto hpc trivial rfl rfl rfl⟩
  | connectErr hpc => exact ⟨k, kt, kp, h.goto hpc trivial rfl rfl rfl⟩
  | stop hpc => exact ⟨k, kt, kp, h.goto hpc trivial rfl rfl rfl⟩
  | write hpc => exact ⟨k, kt, kp, h.goto hpc s.payload.length_pos rfl rfl rfl⟩
  | quit hpc => exact ⟨k, kt, kp, h.goto hpc trivial rfl rfl rfl⟩
  | fail hpc => exact ⟨k, kt, kp, h.goto hpc (.inr rfl) rfl rfl rfl⟩
  | @total op hpc =>
      obtain ⟨ht, hp, hb⟩ := h.stands hpc
      simp only [TcpSend.Ok, hpc] at hok
      exact ⟨k, kt + op.passes, kp, hok, h.tally.onTotal hok, ht, hp, hb, h.cut⟩
  | @peer op hpc =>
      obtain ⟨ht, hp, hb⟩ := h.stands hpc
      simp only [TcpSend.Ok, hpc] at hok
      have hnext : (TcpSend.after op).owesTotal = 0 ∧ (TcpSend.after op).owesPeer = 0 ∧
          (TcpSend.after op).offset = 0 := by
        cases op <;> exact ⟨rfl, rfl, rfl⟩
      refine ⟨k, kt, kp + op.passes, by cases op <;> exact trivial, h.tally.onPeer hok, ?_, ?_, ?_,
        h.cut⟩
      · rw [hnext.1]; exact ht
      · rw [hnext.2.1]; exact hp
      · rw [hnext.2.2]; exact hb
  | @accept offset n hpc hlt =>
      obtain ⟨ht, hp, hb⟩ := h.stands hpc
      refine ⟨k, kt, kp, hlt, h.tally, ht, hp, ?_, h.cut⟩
      simp only [hb, TcpPc.offset]
      omega
  | @whole offset n hpc heq =>
      obtain ⟨ht, hp, hb⟩ := h.stands hpc
      refine ⟨k + 1, kt, kp, .inl rfl, h.tally, ?_, ?_, ?_, h.cut⟩
      · rw [← ht]; rfl
      · rw [← hp]; rfl
      · simp only [hb, TcpPc.offset, Nat.succ_mul]
        omega
  | writeErr hpc => exact ⟨k, kt, kp, h.giveUp hpc trivial rfl rfl rfl⟩
  | cancel => exact ⟨k, kt, kp, hok, h.tally, h.total, h.peer, h.bytes, h.cut⟩
  | abort hpc => exact ⟨k, kt, kp, h.giveUp hpc trivial rfl rfl rfl⟩
  | unborn hpc => exact ⟨k, kt, kp, h.goto hpc trivial rfl rfl rfl⟩

theorem TcpSend.Steps.fixed {l : TcpLabel} (h : s.Steps l s') :
    s'.destId = s.destId ∧ s'.payload = s.payload := by
  cases h <;> exact ⟨rfl, rfl⟩

theorem TcpAccount.run {ls : List TcpLabel} {destId : UInt32} {p : Payload}
    (h : tcpSend.run (TcpSend.init base destId p) ls = some s) :
    (∃ k kt kp, TcpAccount base s k kt kp) ∧ s.destId = destId ∧ s.payload = p := by
  refine Machine.run_invariant (I := fun s : TcpSend =>
    (∃ k kt kp, TcpAccount base s k kt kp) ∧ s.destId = destId ∧ s.payload = p) ?_ h
    ⟨⟨0, 0, 0, .init base destId p⟩, rfl, rfl⟩
  rintro s l s' ⟨⟨k, kt, kp, ha⟩, hd, hp⟩ hs
  obtain ⟨hd', hp'⟩ := (tcp_steps hs).fixed
  exact ⟨ha.step (tcp_steps hs), hd'.trans hd, hp'.trans hp⟩

end Tperf.Dataplane
