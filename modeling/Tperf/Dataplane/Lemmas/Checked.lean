import Tperf.Dataplane.Checked
import Tperf.Dataplane.Lemmas.Io

/-!
# The checks of the loops pass
-/

namespace Tperf.Dataplane
open Lib Metrics

variable {ε : Type}

/-! ## One packet -/

theorem checked_writeHdr {buf : List UInt8} (h : udpHdr ≤ buf.length) (senderId : UInt32) (seq : UInt64)
    (len : UInt32) : Checked.writeHdr buf senderId seq len = (.ok (writeHdr buf senderId seq len) : Outcome ε _) := by
  simp only [udpHdr] at h
  have hcopy : ∀ (buf' src : List UInt8) (i j : Nat), buf'.length = buf.length → j = i + src.length →
      j ≤ 20 → copyFromSlice buf' i j src = (.ok (splice buf' i src) : Outcome ε _) ∧
        (splice buf' i src).length = buf.length := by
    intro buf' src i j hlen hj hle
    exact ⟨copyFromSlice_ok hj (by omega), (splice_length (by omega)).trans hlen⟩
  unfold Checked.writeHdr writeHdr
  simp only
  obtain ⟨h₁, hlen₁⟩ := hcopy buf (beBytes 4 udpMagic.toNat) 0 4 rfl (by simp) (by simp)
  obtain ⟨h₂, hlen₂⟩ := hcopy _ (beBytes 4 senderId.toNat) 4 8 hlen₁ (by simp) (by simp)
  obtain ⟨h₃, hlen₃⟩ := hcopy _ (beBytes 8 seq.toNat) 8 16 hlen₂ (by simp) (by simp)
  obtain ⟨h₄, -⟩ := hcopy _ (beBytes 4 len.toNat) 16 20 hlen₃ (by simp) (by simp)
  rw [h₁, Outcome.ok_bind, h₂, Outcome.ok_bind, h₃, Outcome.ok_bind, h₄]

theorem checked_readHdr (buf : List UInt8) : Checked.readHdr buf = (.ok (readHdr buf) : Outcome ε _) := by
  unfold Checked.readHdr readHdr
  split
  · rfl
  · rename_i hlen
    simp only [udpHdr, Nat.not_lt] at hlen
    rw [subslice_zero (by omega), Outcome.ok_bind]
    split
    · rfl
    · rw [subslice_ok (by omega) (by omega), subslice_ok (by omega) (by omega), subslice_ok (by omega) (by omega)]
      rfl

/-- One packet is filled and cut as `fill` and `dgram` say. -/
theorem checked_packet {p : Payload} {offset : Nat} (h : offset < p.length) (pkt : PktBuf) (selfId : UInt32)
    (seq : UInt64) :
    Checked.packet pkt.bytes selfId seq p.bytes offset =
      (.ok ((pkt.fill selfId seq p offset).bytes,
        (pkt.fill selfId seq p offset).bytes.take (udpHdr + min (p.length - offset) chunk),
        offset + min (p.length - offset) chunk) : Outcome ε _) := by
  have hlt : p.length < 2 ^ 63 := p.fits
  have hlen : p.bytes.length = p.length := rfl
  have hwrite := writeHdr_length pkt.room selfId seq (UInt32.ofNat (min (p.length - offset) chunk))
  have hroom : udpHdr + min (p.length - offset) chunk ≤ udpPkt := by
    simp only [chunk, udpHdr, udpPkt]
    omega
  have hfill : splice (writeHdr pkt.bytes selfId seq (UInt32.ofNat (min (p.length - offset) chunk))) udpHdr
      ((p.bytes.drop offset).take (min (p.length - offset) chunk)) = (pkt.fill selfId seq p offset).bytes := rfl
  unfold Checked.packet
  rw [hlen, checkedSub_ok (Nat.le_of_lt h), Outcome.ok_bind]
  simp only
  rw [checked_writeHdr pkt.room, Outcome.ok_bind, checkedAdd_ok (by omega), Outcome.ok_bind,
    subslice_ok (Nat.le_add_right _ _) (by omega), Outcome.ok_bind, Nat.add_sub_cancel_left,
    copyFromSlice_ok (by simp; omega) (by rw [hwrite, pkt.size]; exact hroom), Outcome.ok_bind,
    hfill, subslice_zero (by rw [PktBuf.size]; exact hroom)]
  rfl

theorem checked_accepted {buf : List UInt8} (hbuf : buf.length = udpRecvBuf) (dgram : List UInt8) :
    Checked.accepted (splice buf 0 (dgram.take udpRecvBuf)) (min dgram.length udpRecvBuf) =
      (.ok (accepted dgram) : Outcome ε _) := by
  have htake : (dgram.take udpRecvBuf).length = min dgram.length udpRecvBuf := by simp [Nat.min_comm]
  have hsplice : (splice buf 0 (dgram.take udpRecvBuf)).length = udpRecvBuf :=
    (splice_length (by omega)).trans hbuf
  have hgot : (splice buf 0 (dgram.take udpRecvBuf)).take (min dgram.length udpRecvBuf) =
      dgram.take udpRecvBuf := by
    rw [splice, List.take_zero, List.nil_append, ← htake]
    exact List.take_left
  unfold Checked.accepted accepted
  rw [subslice_zero (by omega), Outcome.ok_bind, hgot, checked_readHdr, Outcome.ok_bind, ← htake]
  cases hhdr : readHdr (dgram.take udpRecvBuf) with
  | none => simp [hhdr]
  | some hdr => simp [hhdr]

theorem checked_noteSeq (expected : Option UInt64) (seq : UInt64) :
    Checked.noteSeq expected seq = (.ok (noteSeq expected seq) : Outcome ε _) := by
  cases expected with
  | none => rfl
  | some exp =>
      simp only [Checked.noteSeq, noteSeq]
      by_cases heq : seq = exp
      · rw [if_pos heq, if_pos heq]
      · rw [if_neg heq, if_neg heq]
        by_cases hgt : seq > exp
        · rw [if_pos hgt, if_pos hgt, checkedSub_ok (UInt64.le_of_lt hgt)]
          rfl
        · rw [if_neg hgt, if_neg hgt]

/-! ## The steps of the tasks -/

theorem checked_work {selfId : UInt32} {w : UdpWorker} (h : w.Ok selfId) (t : UdpTest) (e : UdpEvent) :
    Checked.work t w e = (.ok () : Outcome ε _) := by
  cases e with
  | step =>
      simp only [Checked.work]
      split
      · rename_i offset hpc
        simp only [UdpWorker.Ok, hpc] at h
        rw [checked_packet h.1, Outcome.ok_bind]
      · rfl
  | sendOk | sendErr | abort => rfl

/-- The send tasks pass their checks and go on as the machine says. -/
theorem checked_send {selfId : UInt32} {s : Sender} (h : ∀ w ∈ s.workers, w.Ok selfId) (l : SenderLabel) :
    Checked.send s l = (.ok (sender.step s l) : Outcome ε _) := by
  cases l with
  | worker i e =>
      simp only [Checked.send]
      cases hw : s.workers[i]? with
      | some w => simp only [checked_work (h w (List.mem_of_getElem? hw)), Outcome.ok_bind]
      | none => simp [sender, hw]
  | cancel => rfl

/-- So does the receive task, and its buffer keeps its length. -/
theorem checked_recv {buf : List UInt8} (hbuf : buf.length = udpRecvBuf) (t : UdpTest) (pc : RecvPc)
    (l : RecvLabel) : ∃ buf', Checked.recv buf t pc l = (.ok (buf', udpRecv.step (t, pc) l) : Outcome ε _) ∧
      buf'.length = udpRecvBuf := by
  unfold Checked.recv
  split
  · rename_i dgram
    refine ⟨splice buf 0 (dgram.take udpRecvBuf), ?_, ?_⟩
    · simp only [checked_accepted hbuf, Outcome.ok_bind]
    · rw [splice_length, hbuf]
      rw [hbuf, Nat.zero_add]
      exact List.length_take_le _ _
  · refine ⟨buf, ?_, hbuf⟩
    split
    · rw [checked_noteSeq, Outcome.ok_bind]
    · rfl
  · exact ⟨buf, rfl, hbuf⟩

theorem checked_alloc (l : TcpIoLabel) : ∃ buf, Checked.alloc l = (.ok buf : Outcome ε _) := by
  cases l with
  | accept ip => exact ⟨_, zeroed_ok (by decide)⟩
  | task | spawn | cancel | read | step | close => exact ⟨[], rfl⟩

/-! ## The send tasks of a test -/

/-- Every send task stands where its checks pass. -/
def UdpIo.TasksOk (s : UdpIo) : Prop := ∀ w ∈ s.send.workers, w.Ok s.send.test.selfId

theorem UdpIo.TasksOk.step {cfg : Proto.Config} {payload : Payload} {s s' : UdpIo} {l : UdpIoLabel}
    (h : s.TasksOk) (hs : (udpIo cfg payload).step s l = some s') : s'.TasksOk := by
  cases udpIo_steps hs with
  | cancel | unresolved => exact h
  | @worker i e w w' t' hw hsteps =>
      intro w₁ hw₁
      rcases List.mem_or_eq_of_mem_set hw₁ with hmem | rfl
      · change w₁.Ok t'.selfId
        rw [hsteps.fixed.2.2.1]
        exact h w₁ hmem
      · exact hsteps.ok (h w (List.mem_of_getElem? hw))
  | @recv l t' pc' hsteps =>
      intro w hw
      change w.Ok t'.selfId
      rw [hsteps.fixed.1]
      exact h w hw
  | spawn ht =>
      intro w hw
      rcases List.mem_append.mp hw with hw | hw
      · exact h w hw
      · obtain rfl := List.eq_of_mem_replicate hw
        exact trivial

end Tperf.Dataplane
