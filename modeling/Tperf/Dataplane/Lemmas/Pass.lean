import Tperf.Dataplane.Lemmas.Recv
import Tperf.Dataplane.Lemmas.Send

/-!
# One pass over the payload
-/

namespace Tperf.Dataplane
open Lib Metrics

/-! ## The pieces of a payload -/

theorem chunk_pos : 0 < chunk := by decide

theorem Payload.piece_eq (p : Payload) (offset : Nat) :
    p.piece offset = (p.bytes.drop offset).take chunk := by
  rw [piece, List.take_eq_take_iff, List.length_drop]
  simp only [Payload.length]
  omega

theorem lt_divCeil {n k i : Nat} (hk : 0 < k) : i < divCeil n k ↔ i * k < n := by
  rw [divCeil, Nat.lt_div_iff_mul_lt hk]
  omega

theorem Payload.lt_packets {p : Payload} {i : Nat} : i < p.packets ↔ i * chunk < p.length :=
  lt_divCeil chunk_pos

theorem Payload.packets_pos (p : Payload) : 0 < p.packets := by
  rw [lt_packets, Nat.zero_mul]
  exact p.length_pos

/-- The first pieces are the first bytes. -/
theorem Payload.pieces_flatten (p : Payload) (k : Nat) :
    ((List.range k).map fun i => p.piece (i * chunk)).flatten = p.bytes.take (k * chunk) := by
  induction k with
  | zero => simp
  | succ k ih =>
      rw [List.range_succ, List.map_append, List.flatten_append, ih, Nat.succ_mul, List.take_add,
        List.map_singleton, List.flatten_singleton, p.piece_eq]

theorem Payload.pieces_flatten_packets (p : Payload) :
    ((List.range p.packets).map fun i => p.piece (i * chunk)).flatten = p.bytes := by
  have h : ¬ p.packets * chunk < p.length := fun h => Nat.lt_irrefl _ (lt_packets.mpr h)
  rw [pieces_flatten, List.take_of_length_le (Nat.le_of_not_lt h)]

/-! ## Sending them -/

/-- The number that the `i`-th packet of a pass gets if no other task takes one meanwhile. -/
def UdpTest.seqAt (t : UdpTest) (id : UInt32) (i : Nat) : UInt64 :=
  (t.seqs[id.toNat]?.map (· + UInt64.ofNat i)).getD 0

/-- The `i`-th datagram of a pass that starts in `t`. -/
def UdpWorker.dgramAt (t : UdpTest) (w : UdpWorker) (i : Nat) : Datagram where
  dest := w.destId
  bytes := packet t.selfId (t.seqAt w.destId i) (w.payload.piece (i * chunk))

/-- `t'` and `w'` are `t` and `w` after `i` packets of a pass. -/
structure Sent (t : UdpTest) (w : UdpWorker) (i : Nat) (t' : UdpTest) (w' : UdpWorker) : Prop where
  pc : w'.pc = .chunk (min (i * chunk) w.payload.length)
  destId : w'.destId = w.destId
  payload : w'.payload = w.payload
  selfId : t'.selfId = t.selfId
  cancelled : t'.cancelled = t.cancelled
  counters : t'.counters = t.counters
  wire : t'.wire = t.wire ++ (List.range i).map (w.dgramAt t)
  seqs : t'.seqs[w.destId.toNat]? = t.seqs[w.destId.toNat]?.map (· + UInt64.ofNat i)

theorem Sent.zero {t : UdpTest} {w : UdpWorker} (h : w.pc = .chunk 0) : Sent t w 0 t w where
  pc := by rw [h, Nat.zero_mul, Nat.zero_min]
  destId := rfl
  payload := rfl
  selfId := rfl
  cancelled := rfl
  counters := rfl
  wire := by simp
  seqs := by simp

/-- The three events of one packet. -/
theorem Sent.succ {t t' : UdpTest} {w w' : UdpWorker} {i : Nat} (h : Sent t w i t' w')
    (hc : t.cancelled = false) (hi : i < w.payload.packets) :
    ∃ t'' w'', udpSend.run (t', w') [.event .step, .event .step, .event .sendOk] = some (t'', w'') ∧
      Sent t w (i + 1) t'' w'' := by
  have hlt : i * chunk < w.payload.length := Payload.lt_packets.mp hi
  have hpc : w'.pc = .chunk (i * chunk) := by rw [h.pc, Nat.min_eq_left (Nat.le_of_lt hlt)]
  have hc' : t'.cancelled = false := h.cancelled.trans hc
  have hseq : (t'.seqs[w.destId.toNat]?).getD 0 = t.seqAt w.destId i := by
    rw [h.seqs, UdpTest.seqAt]
  have hoff : i * chunk + min (w.payload.length - i * chunk) chunk =
      min ((i + 1) * chunk) w.payload.length := by
    rw [Nat.succ_mul]
    omega
  let w₁ : UdpWorker :=
    { destId := w.destId
      payload := w.payload
      pkt := w'.pkt.fill t.selfId (t.seqAt w.destId i) w.payload (i * chunk)
      pc := .sending (i * chunk) (t.seqAt w.destId i)
      cut := w'.cut }
  have hd : w₁.dgram (i * chunk) = w.dgramAt t i :=
    congrArg _ (take_fill w'.pkt t.selfId (t.seqAt w.destId i) w.payload (i * chunk))
  refine ⟨(t'.takeSeq w.destId).send (w₁.dgram (i * chunk)),
    w₁.goto (.chunk (min ((i + 1) * chunk) w.payload.length)), ?_, ?_⟩
  · simp only [Machine.run, udpSend, UdpWorker.step, hpc, UdpWorker.goto, h.payload, hlt, hc', hseq,
      h.selfId, h.destId, hoff, w₁, if_true, Bool.false_eq_true, if_false, Option.bind_some]
  · refine ⟨rfl, rfl, rfl, h.selfId, h.cancelled, h.counters, ?_, ?_⟩
    · rw [hd, UdpTest.send, List.range_succ, List.map_append, ← List.append_assoc, ← h.wire]
      rfl
    · simp only [UdpTest.send, UdpTest.takeSeq, List.getElem?_modify_eq, h.seqs]
      cases t.seqs[w.destId.toNat]? with
      | none => rfl
      | some x =>
          have hadd : x + UInt64.ofNat i + 1 = x + UInt64.ofNat (i + 1) := by
            rw [UInt64.ofNat_add, ← UInt64.add_assoc]; rfl
          exact congrArg some hadd

/-- The events of a whole pass: three for each packet, and the test that finds the end. -/
def passEvents (p : Payload) : List TaskLabel :=
  (List.replicate p.packets [.event .step, .event .step, .event .sendOk]).flatten ++ [.event .step]

theorem Sent.packets {t t' : UdpTest} {w w' : UdpWorker} {i m : Nat} (h : Sent t w i t' w')
    (hc : t.cancelled = false) (hm : i + m ≤ w.payload.packets) :
    ∃ t'' w'', udpSend.run (t', w')
        (List.replicate m [.event .step, .event .step, .event .sendOk]).flatten = some (t'', w'') ∧
      Sent t w (i + m) t'' w'' := by
  induction m generalizing i t' w' with
  | zero => exact ⟨t', w', rfl, h⟩
  | succ m ih =>
      obtain ⟨t₁, w₁, hr, h₁⟩ := h.succ hc (by omega)
      obtain ⟨t₂, w₂, hr₂, h₂⟩ := ih h₁ (by omega)
      refine ⟨t₂, w₂, ?_, by rw [← Nat.add_assoc, Nat.add_right_comm]; exact h₂⟩
      rw [List.replicate_succ, List.flatten_cons, Machine.run_append, hr]
      exact hr₂

/-- An error-free pass emits the datagrams of the payload and goes on to count them. -/
theorem UdpWorker.pass {t : UdpTest} {w : UdpWorker} (hpc : w.pc = .chunk 0)
    (hc : t.cancelled = false) :
    ∃ t' w', udpSend.run (t, w) (passEvents w.payload) = some (t', w') ∧
      w'.pc = .total w.payload.sentOp ∧ w'.destId = w.destId ∧ t'.counters = t.counters ∧
      t'.wire = t.wire ++ (List.range w.payload.packets).map (w.dgramAt t) := by
  obtain ⟨t', w', hr, h⟩ := (Sent.zero hpc).packets (m := w.payload.packets) hc (by omega)
  rw [Nat.zero_add] at h
  have hend : min (w.payload.packets * chunk) w.payload.length = w.payload.length :=
    Nat.min_eq_right (Nat.le_of_not_lt fun h => Nat.lt_irrefl _ (Payload.lt_packets.mpr h))
  have hpc' : w'.pc = .chunk w.payload.length := by rw [h.pc, hend]
  refine ⟨t', w'.goto (.total w.payload.sentOp), ?_, rfl, h.destId, h.counters, h.wire⟩
  rw [passEvents, Machine.run_append, hr]
  simp [udpSend, UdpWorker.step, hpc', h.payload]

end Tperf.Dataplane
