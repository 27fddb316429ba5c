import Tperf.Dataplane.Io
import Tperf.Lib.Checked

/-!
# The loops with their checks

The bodies of the loops once more, with every slice, copy and subtraction checked as it is at run time.
-/

namespace Tperf.Dataplane
open Lib Metrics

variable {ε : Type}

namespace Checked

def writeHdr (buf : List UInt8) (senderId : UInt32) (seq : UInt64) (len : UInt32) :
    Outcome ε (List UInt8) := do
  let buf ← copyFromSlice buf 0 4 (beBytes 4 udpMagic.toNat)
  let buf ← copyFromSlice buf 4 8 (beBytes 4 senderId.toNat)
  let buf ← copyFromSlice buf 8 16 (beBytes 8 seq.toNat)
  copyFromSlice buf 16 20 (beBytes 4 len.toNat)

def readHdr (buf : List UInt8) : Outcome ε (Option (UInt32 × UInt64 × UInt32)) :=
  if buf.length < udpHdr then .ok none
  else do
    let magic ← subslice buf 0 4
    if UInt32.ofNat (ofBe magic) ≠ udpMagic then .ok none
    else
      let senderId ← subslice buf 4 8
      let seq ← subslice buf 8 16
      let len ← subslice buf 16 20
      .ok (some (UInt32.ofNat (ofBe senderId), UInt64.ofNat (ofBe seq), UInt32.ofNat (ofBe len)))

/-- One packet of `udp_send_loop`: the buffer, what `send_to` is given, and the next offset. -/
def packet (pkt : List UInt8) (selfId : UInt32) (seq : UInt64) (payload : List UInt8) (offset : Nat) :
    Outcome ε (List UInt8 × List UInt8 × Nat) := do
  let left ← checkedSub payload.length offset
  let n := min left chunk
  let pkt ← writeHdr pkt selfId seq (UInt32.ofNat n)
  let next ← checkedAdd offset n
  let piece ← subslice payload offset next
  let pkt ← copyFromSlice pkt udpHdr (udpHdr + n) piece
  let dgram ← subslice pkt 0 (udpHdr + n)
  .ok (pkt, dgram, next)

/-- The checks of `udp_recv_loop` when `n` bytes have been received into `buf`. -/
def accepted (buf : List UInt8) (n : Nat) : Outcome ε (Option (UInt32 × UInt64 × UInt64)) := do
  let dgram ← subslice buf 0 n
  match ← readHdr dgram with
  | none => .ok none
  | some (senderId, seq, plen) =>
      let payloadBytes := UInt64.ofNat (n - udpHdr)
      .ok (if plen.toUInt64 ≠ payloadBytes then none else some (senderId, seq, payloadBytes))

def noteSeq (expected : Option UInt64) (seq : UInt64) : Outcome ε (Option UInt64 × UInt64) :=
  match expected with
  | none => .ok (some (satAdd seq 1), 0)
  | some exp =>
      if seq = exp then .ok (some (satAdd exp 1), 0)
      else if seq > exp then checkedSub seq exp >>= fun drop => .ok (some (satAdd seq 1), drop)
      else .ok (some exp, 0)

/-! ## The steps of the tasks -/

/-- What a send task checks in one event. -/
def work (t : UdpTest) (w : UdpWorker) : UdpEvent → Outcome ε Unit
  | .step =>
      match w.pc with
      | .take offset =>
          packet w.pkt.bytes t.selfId ((t.seqs[w.destId.toNat]?).getD 0) w.payload.bytes offset >>=
            fun _ => .ok ()
      | _ => .ok ()
  | _ => .ok ()

def send (s : Sender) (l : SenderLabel) : Outcome ε (Option Sender) :=
  match l with
  | .worker i e =>
      match s.workers[i]? with
      | some w => work s.test w e >>= fun _ => .ok (sender.step s l)
      | none => .ok none
  | .cancel => .ok (sender.step s l)

/-- A step of the receive task, with its buffer. -/
def recv (buf : List UInt8) (t : UdpTest) (pc : RecvPc) (l : RecvLabel) :
    Outcome ε (List UInt8 × Option (UdpTest × RecvPc)) :=
  match pc, l with
  | .waiting, .datagram dgram =>
      let n := min dgram.length udpRecvBuf
      let buf := splice buf 0 (dgram.take udpRecvBuf)
      accepted buf n >>= fun _ => .ok (buf, udpRecv.step (t, pc) l)
  | .note senderId seq, .step =>
      match t.expected[senderId.toNat]? with
      | some slot => noteSeq slot seq >>= fun _ => .ok (buf, udpRecv.step (t, pc) l)
      | none => .ok (buf, udpRecv.step (t, pc) l)
  | _, _ => .ok (buf, udpRecv.step (t, pc) l)

/-- The buffer that `tcp_recv_loop` allocates. -/
def alloc : TcpIoLabel → Outcome ε (List UInt8)
  | .accept _ => zeroed recvBuf
  | _ => .ok []

end Checked

end Tperf.Dataplane
