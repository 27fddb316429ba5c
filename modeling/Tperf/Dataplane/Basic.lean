import Tperf.Lib.Bytes
import Tperf.Lib.Machine
import Tperf.Lib.Outcome
import Tperf.Metrics.Basic

/-!
# The data plane

The send loops are step functions of one task: `step` runs the task to its next point of interest,
the other events say what the socket does and when the task is aborted.
-/

namespace Tperf.Dataplane
open Lib Metrics

def udpHdr : Nat := 20
def udpPkt : Nat := 8192
def udpMagic : UInt32 := 0x54465031
def udpRecvBuf : Nat := 65536

/-- `chunk` of `udp_send_loop`; it is not zero. -/
def chunk : Nat := udpPkt - udpHdr

/-! ## Payload and packet buffer -/

/-- What `make_payload` returns: a nonempty `Vec`, which is at most `isize::MAX` bytes long. -/
structure Payload where
  bytes : List UInt8
  nonempty : bytes ≠ []
  fits : bytes.length < 2 ^ 63
  deriving DecidableEq

def Payload.length (p : Payload) : Nat := p.bytes.length

theorem Payload.length_pos (p : Payload) : 0 < p.length := List.length_pos_of_ne_nil p.nonempty

/-- `vec![0u8; n]` panics when `n` exceeds `isize::MAX`. -/
def makePayload (size : UInt64) : Outcome Str Payload :=
  let n := size.toNat
  if h₀ : n = 0 then .err "payload_size must be >= 1".toList
  else if h : n < 2 ^ 63 then
    .ok ⟨(List.range n).map fun i => UInt8.ofNat (i * 131) + 0xA5, by simpa using h₀, by simpa using h⟩
  else .panic

def oneByte : Payload := ⟨[7], by decide, by decide⟩

structure PktBuf where
  bytes : List UInt8
  size : bytes.length = udpPkt
  deriving DecidableEq

def writeHdr (buf : List UInt8) (senderId : UInt32) (seq : UInt64) (len : UInt32) : List UInt8 :=
  let buf := splice buf 0 (beBytes 4 udpMagic.toNat)
  let buf := splice buf 4 (beBytes 4 senderId.toNat)
  let buf := splice buf 8 (beBytes 8 seq.toNat)
  splice buf 16 (beBytes 4 len.toNat)

def readHdr (buf : List UInt8) : Option (UInt32 × UInt64 × UInt32) :=
  if buf.length < udpHdr then none
  else if UInt32.ofNat (ofBe (buf.take 4)) ≠ udpMagic then none
  else
    let senderId := UInt32.ofNat (ofBe ((buf.drop 4).take 4))
    let seq := UInt64.ofNat (ofBe ((buf.drop 8).take 8))
    let len := UInt32.ofNat (ofBe ((buf.drop 16).take 4))
    some (senderId, seq, len)

theorem writeHdr_length {buf : List UInt8} (h : udpHdr ≤ buf.length) (senderId : UInt32)
    (seq : UInt64) (len : UInt32) : (writeHdr buf senderId seq len).length = buf.length := by
  simp only [udpHdr] at h
  have h₁ := @splice_length buf (beBytes 4 udpMagic.toNat) 0 (by simp; omega)
  have h₂ := @splice_length (splice buf 0 (beBytes 4 udpMagic.toNat)) (beBytes 4 senderId.toNat) 4
    (by rw [h₁]; simp; omega)
  have h₃ := @splice_length (splice (splice buf 0 (beBytes 4 udpMagic.toNat)) 4
    (beBytes 4 senderId.toNat)) (beBytes 8 seq.toNat) 8 (by rw [h₂, h₁]; simp; omega)
  rw [writeHdr, splice_length (by rw [h₃, h₂, h₁]; simp; omega), h₃, h₂, h₁]

/-- The bytes of the payload that the packet at `offset` carries. -/
def Payload.piece (p : Payload) (offset : Nat) : List UInt8 :=
  (p.bytes.drop offset).take (min (p.length - offset) chunk)

theorem Payload.piece_length (p : Payload) (offset : Nat) :
    (p.piece offset).length = min (p.length - offset) chunk := by
  simp only [piece, List.length_take, List.length_drop, Payload.length]
  omega

theorem PktBuf.room (pkt : PktBuf) : udpHdr ≤ pkt.bytes.length := by
  rw [pkt.size]; decide

/-- `write_hdr`, then the copy of the payload bytes behind the header. -/
def PktBuf.fill (pkt : PktBuf) (selfId : UInt32) (seq : UInt64) (p : Payload) (offset : Nat) :
    PktBuf where
  bytes := splice (writeHdr pkt.bytes selfId seq (UInt32.ofNat (min (p.length - offset) chunk)))
    udpHdr (p.piece offset)
  size := by
    rw [splice_length, writeHdr_length pkt.room, pkt.size]
    rw [writeHdr_length pkt.room, pkt.size, p.piece_length]
    simp only [chunk, udpHdr, udpPkt]
    omega

/-! ## What the tasks of one UDP test share -/

def noteSeq (expected : Option UInt64) (seq : UInt64) : Option UInt64 × UInt64 :=
  match expected with
  | none => (some (satAdd seq 1), 0)
  | some exp =>
      if seq = exp then (some (satAdd exp 1), 0)
      else if seq > exp then (some (satAdd seq 1), seq - exp)
      else (some exp, 0)

/-- A datagram that `send_to` accepted, for the host `dest`. -/
structure Datagram where
  dest : UInt32
  bytes : List UInt8
  deriving DecidableEq

structure UdpTest where
  selfId : UInt32
  counters : Counters
  seqs : List UInt64
  expected : List (Option UInt64)
  cancelled : Bool
  /-- History: every datagram the socket accepted. -/
  wire : List Datagram
  seqs_length : seqs.length = counters.names.length
  expected_length : expected.length = counters.names.length
  deriving DecidableEq

/-- The state that `spawn_udp` builds. -/
def spawnUdp (hostlist : List Str) (selfId : UInt32) : UdpTest where
  selfId := selfId
  counters := Counters.new hostlist
  seqs := hostlist.map fun _ => 0
  expected := hostlist.map fun _ => none
  cancelled := false
  wire := []
  seqs_length := List.length_map _
  expected_length := List.length_map _

namespace UdpTest

variable (t : UdpTest)

def onTotal (f : AtomStats → AtomStats) : UdpTest := { t with counters := t.counters.onTotal f }

def onPeer (id : UInt32) (f : AtomStats → AtomStats) : UdpTest :=
  { t with counters := t.counters.onPeer id f }

def npeers : Nat := t.counters.names.length

/-- `seqs[id].fetch_add(1)`. -/
def takeSeq (id : UInt32) : UdpTest where
  selfId := t.selfId
  counters := t.counters
  seqs := t.seqs.modify id.toNat (· + 1)
  expected := t.expected
  cancelled := t.cancelled
  wire := t.wire
  seqs_length := (List.length_modify _ _ _).trans t.seqs_length
  expected_length := t.expected_length

def setExpected (id : UInt32) (slot : Option UInt64) : UdpTest where
  selfId := t.selfId
  counters := t.counters
  seqs := t.seqs
  expected := t.expected.set id.toNat slot
  cancelled := t.cancelled
  wire := t.wire
  seqs_length := t.seqs_length
  expected_length := List.length_set.trans t.expected_length

def send (d : Datagram) : UdpTest := { t with wire := t.wire ++ [d] }

/-- One datagram in `udp_recv_loop`. -/
def recv (dgram : List UInt8) : UdpTest :=
  let buf := dgram.take udpRecvBuf
  match readHdr buf with
  | none => t
  | some (senderId, seq, plen) =>
      let payloadBytes := UInt64.ofNat (buf.length - udpHdr)
      if plen.toUInt64 ≠ payloadBytes then t
      else
        let t := t.onTotal (·.addRecv payloadBytes 1)
        if senderId.toNat < t.npeers ∧ senderId ≠ t.selfId then
          let t := t.onPeer senderId (·.addRecv payloadBytes 1)
          match t.expected[senderId.toNat]? with
          | none => t
          | some slot =>
              let (slot', d) := noteSeq slot seq
              let t := t.setExpected senderId slot'
              (t.onTotal (·.addDrop d)).onPeer senderId (·.addDrop d)
        else t

end UdpTest

/-! ## The send loops -/

/-- An update of the counters, first of `total`, then of the peer. -/
inductive AddOp
  | sent (bytes packets : UInt64)
  | drop (n : UInt64)
  deriving DecidableEq, Repr

def AddOp.apply : AddOp → AtomStats → AtomStats
  | .sent b p, a => a.addSent b p
  | .drop n, a => a.addDrop n

inductive UdpPc
  | top
  | chunk (offset : Nat)
  | take (offset : Nat)
  | sending (offset : Nat) (seq : UInt64)
  | total (op : AddOp)
  | peer (op : AddOp)
  | ended
  deriving DecidableEq, Repr

/-- One task running `udp_send_loop`. -/
structure UdpWorker where
  destId : UInt32
  payload : Payload
  pkt : PktBuf
  pc : UdpPc
  /-- History: the offset at which each pass over the payload that did not complete was left. -/
  cut : List Nat
  deriving DecidableEq

inductive UdpEvent
  | step
  | sendOk
  | sendErr
  | abort
  deriving DecidableEq, Repr

/-- `n.div_ceil(k)`. -/
def divCeil (n k : Nat) : Nat := (n + k - 1) / k

def Payload.packets (p : Payload) : Nat := divCeil p.length chunk

/-- What a complete pass adds. -/
def Payload.sentOp (p : Payload) : AddOp :=
  .sent (UInt64.ofNat p.length) (max (UInt64.ofNat p.packets) 1)

namespace UdpWorker

def init (destId : UInt32) (payload : Payload) : UdpWorker where
  destId := destId
  payload := payload
  pkt := ⟨List.replicate udpPkt 0, List.length_replicate⟩
  pc := .top
  cut := []

def goto (w : UdpWorker) (pc : UdpPc) : UdpWorker := { w with pc := pc }

/-- The pass is left at `offset`. -/
def giveUp (w : UdpWorker) (offset : Nat) (pc : UdpPc) : UdpWorker :=
  { w with pc := pc, cut := w.cut ++ [offset] }

/-- What `send_to` is given. -/
def dgram (w : UdpWorker) (offset : Nat) : Datagram where
  dest := w.destId
  bytes := w.pkt.bytes.take (udpHdr + min (w.payload.length - offset) Dataplane.chunk)

/-- One event of a task of the test `t`. An abort takes effect where the task awaits, or before it
first runs. -/
def step (t : UdpTest) (w : UdpWorker) : UdpEvent → Option (UdpTest × UdpWorker)
  | .step =>
      match w.pc with
      | .top => some (t, w.goto (if t.cancelled then .ended else .chunk 0))
      | .chunk offset =>
          if offset < w.payload.length then
            some (t, if t.cancelled then w.giveUp offset .top else w.goto (.take offset))
          else if offset = w.payload.length then some (t, w.goto (.total w.payload.sentOp))
          else some (t, w.goto .top)
      | .take offset =>
          let seq := (t.seqs[w.destId.toNat]?).getD 0
          some (t.takeSeq w.destId,
            { w with pkt := w.pkt.fill t.selfId seq w.payload offset, pc := .sending offset seq })
      | .total op => some (t.onTotal op.apply, w.goto (.peer op))
      | .peer op => some (t.onPeer w.destId op.apply, w.goto .top)
      | .sending _ _ | .ended => none
  | .sendOk =>
      match w.pc with
      | .sending offset _ =>
          some (t.send (w.dgram offset),
            w.goto (.chunk (offset + min (w.payload.length - offset) Dataplane.chunk)))
      | _ => none
  | .sendErr =>
      match w.pc with
      | .sending offset _ => some (t, w.giveUp offset (.total (.drop 1)))
      | _ => none
  | .abort =>
      match w.pc with
      | .sending offset _ => some (t, w.giveUp offset .ended)
      | .top => some (t, w.goto .ended)
      | _ => none

end UdpWorker

/-- The send side of a UDP test: the shared state and the tasks. -/
structure Sender where
  test : UdpTest
  workers : List UdpWorker
  deriving DecidableEq

inductive SenderLabel
  | worker (i : Nat) (e : UdpEvent)
  | cancel
  deriving DecidableEq, Repr

def UdpTest.cancel (t : UdpTest) : UdpTest := { t with cancelled := true }

def sender : Machine Sender SenderLabel where
  step s
    | .worker i e => do
        let w ← s.workers[i]?
        let (t, w) ← w.step s.test e
        some ⟨t, s.workers.set i w⟩
    | .cancel => some { s with test := s.test.cancel }

/-- One task alone. -/
inductive TaskLabel
  | event (e : UdpEvent)
  | cancel
  deriving DecidableEq, Repr

def udpSend : Machine (UdpTest × UdpWorker) TaskLabel where
  step s
    | .event e => s.2.step s.1 e
    | .cancel => some (s.1.cancel, s.2)

/-! ## `tcp_send_loop` -/

inductive TcpPc
  | connecting
  | top
  | writing (offset : Nat)
  | failed
  | total (op : AddOp)
  | peer (op : AddOp)
  | ended
  deriving DecidableEq, Repr

structure TcpSend where
  counters : Counters
  cancelled : Bool
  destId : UInt32
  payload : Payload
  pc : TcpPc
  /-- History: the payload bytes the socket accepted. -/
  accepted : Nat
  /-- History: the offset at which each `write_all` that did not complete was left. -/
  cut : List Nat
  deriving DecidableEq

inductive TcpLabel
  | connected
  | connectErr
  | step
  | accept (k : Nat)
  | writeErr
  | cancel
  | abort
  deriving DecidableEq, Repr

namespace TcpSend

def init (counters : Counters) (destId : UInt32) (payload : Payload) : TcpSend where
  counters := counters
  cancelled := false
  destId := destId
  payload := payload
  pc := .connecting
  accepted := 0
  cut := []

def goto (s : TcpSend) (pc : TcpPc) : TcpSend := { s with pc := pc }

def giveUp (s : TcpSend) (offset : Nat) (pc : TcpPc) : TcpSend :=
  { s with pc := pc, cut := s.cut ++ [offset] }

/-- `add_sent(n, 1)` after a complete `write_all`. -/
def sentOp (p : Payload) : AddOp := .sent (UInt64.ofNat p.length) 1

/-- Where the loop goes on after an update: a failed write returns. -/
def after : AddOp → TcpPc
  | .sent _ _ => .top
  | .drop _ => .ended

end TcpSend

open TcpSend in
def tcpSend : Machine TcpSend TcpLabel where
  step s
    | .connected => if s.pc = .connecting then some (s.goto .top) else none
    | .connectErr => if s.pc = .connecting then some (s.goto .ended) else none
    | .step =>
        match s.pc with
        | .top => some (s.goto (if s.cancelled then .ended else .writing 0))
        | .failed => some (s.goto (if s.cancelled then .ended else .total (.drop 1)))
        | .total op => some { s with counters := s.counters.onTotal op.apply, pc := .peer op }
        | .peer op =>
            some { s with counters := s.counters.onPeer s.destId op.apply, pc := after op }
        | _ => none
    | .accept k =>
        match s.pc with
        | .writing offset =>
            if 0 < k ∧ offset + k ≤ s.payload.length then
              some { s with
                accepted := s.accepted + k
                pc := if offset + k = s.payload.length then .total (sentOp s.payload)
                  else .writing (offset + k) }
            else none
        | _ => none
    | .writeErr =>
        match s.pc with
        | .writing offset => some (s.giveUp offset .failed)
        | _ => none
    | .cancel => some { s with cancelled := true }
    | .abort =>
        match s.pc with
        | .writing offset => some (s.giveUp offset .ended)
        | .connecting => some (s.goto .ended)
        | _ => none

end Tperf.Dataplane
