import Mathlib.Logic.Function.Basic
import Tperf.Dataplane.Basic

/-!
# The tasks of one test

All send and receive tasks of a test run beside each other, while targets are still being resolved and
their send tasks spawned.
-/

namespace Tperf.Dataplane
open Lib Metrics Proto

/-! ## `udp_recv_loop`, one access to the shared state at a time -/

/-- The checks of a datagram: the sender id, the sequence number and the payload bytes. -/
def accepted (dgram : List UInt8) : Option (UInt32 × UInt64 × UInt64) := do
  let buf := dgram.take udpRecvBuf
  let (senderId, seq, plen) ← readHdr buf
  let payloadBytes := UInt64.ofNat (buf.length - udpHdr)
  if plen.toUInt64 ≠ payloadBytes then none else some (senderId, seq, payloadBytes)

inductive RecvPc
  | waiting
  | peerRecv (senderId : UInt32) (seq payloadBytes : UInt64)
  | note (senderId : UInt32) (seq : UInt64)
  | totalDrop (senderId : UInt32) (d : UInt64)
  | peerDrop (senderId : UInt32) (d : UInt64)
  | ended
  deriving DecidableEq, Repr

inductive RecvLabel
  | datagram (dgram : List UInt8)
  | step
  /-- The token is cancelled, or the task aborted. -/
  | stop
  deriving DecidableEq, Repr

def udpRecv : Machine (UdpTest × RecvPc) RecvLabel where
  step
    -- A `recv_from` that fails changes nothing, so it is no label.
    | (t, .waiting), .datagram dgram =>
        match accepted dgram with
        | none => some (t, .waiting)
        | some (senderId, seq, payloadBytes) =>
            some (t.onTotal (·.addRecv payloadBytes 1),
              if senderId.toNat < t.npeers ∧ senderId ≠ t.selfId
              then .peerRecv senderId seq payloadBytes else .waiting)
    | (t, .peerRecv senderId seq payloadBytes), .step =>
        some (t.onPeer senderId (·.addRecv payloadBytes 1), .note senderId seq)
    | (t, .note senderId seq), .step =>
        match t.expected[senderId.toNat]? with
        | none => some (t, .waiting)
        | some slot =>
            let (slot', d) := noteSeq slot seq
            some (t.setExpected senderId slot', .totalDrop senderId d)
    | (t, .totalDrop senderId d), .step => some (t.onTotal (·.addDrop d), .peerDrop senderId d)
    | (t, .peerDrop senderId d), .step => some (t.onPeer senderId (·.addDrop d), .waiting)
    | (t, .waiting), .stop => some (t, .ended)
    | _, _ => none

/-! ## A UDP test -/

structure UdpIo where
  send : Sender
  recv : RecvPc
  /-- The targets whose address is not resolved yet. -/
  targets : List Target
  /-- History: every datagram received. -/
  received : List (List UInt8)

inductive UdpIoLabel
  | send (l : SenderLabel)
  | recv (l : RecvLabel)
  /-- The address of the next target is resolved, or it is not. -/
  | spawn
  | unresolved

def UdpIo.init (cfg : Config) (assignment : Assignment) : UdpIo where
  send := ⟨spawnUdp cfg.hostlist assignment.selfId, []⟩
  recv := .waiting
  targets := assignment.targets
  received := []

def RecvLabel.dgrams : RecvLabel → List (List UInt8)
  | .datagram dgram => [dgram]
  | _ => []

def udpIo (cfg : Config) (payload : Payload) : Machine UdpIo UdpIoLabel where
  step s
    | .send l => do
        let send ← sender.step s.send l
        some { s with send := send }
    | .recv l => do
        let (test, recv) ← udpRecv.step (s.send.test, s.recv) l
        some { s with send := ⟨test, s.send.workers⟩, recv := recv, received := s.received ++ l.dgrams }
    | .spawn =>
        match s.targets with
        | [] => none
        | t :: targets =>
            let tasks := List.replicate cfg.workers.toNat (UdpWorker.init t.id payload)
            some { s with send := ⟨s.send.test, s.send.workers ++ tasks⟩, targets := targets }
    | .unresolved =>
        match s.targets with
        | [] => none
        | _ :: targets => some { s with targets := targets }

/-! ## The ip map -/

inductive IpAddr
  | v4 (bits : BitVec 32)
  | v6 (bits : BitVec 128)
  deriving DecidableEq, Repr

structure SocketAddr where
  ip : IpAddr
  port : UInt16
  deriving DecidableEq, Repr

inductive AddrFamily
  | v4
  | v6
  deriving DecidableEq, Repr

/-- `AddrFamily::matches`. -/
def AddrFamily.fits : AddrFamily → SocketAddr → Bool
  | .v4, ⟨.v4 _, _⟩ => true
  | .v6, ⟨.v6 _, _⟩ => true
  | _, _ => false

def joinHostPort (host : Str) (port : UInt16) : Str :=
  let digits := Nat.toDigits 10 port.toNat
  if ':' ∈ host ∧ host.head? ≠ some '[' then '[' :: host ++ "]:".toList ++ digits
  else host ++ ':' :: digits

/-- `lookup id` is `lookup_host` when the host `id` is looked up. -/
def buildIpMap (lookup : Nat → Str → Option (List SocketAddr)) (hosts : List Str) (port : UInt16)
    (family : Option AddrFamily) : IpAddr → Option UInt32 :=
  hosts.zipIdx.foldl (fun map (host, id) =>
    match lookup id (joinHostPort host port) with
    | none => map
    | some addrs => addrs.foldl (fun map addr =>
        if (family.map (·.fits addr)).getD true
        then Function.update map addr.ip (some (UInt32.ofNat id)) else map) map) fun _ => none

/-! ## A TCP test -/

def recvBuf : Nat := 64 * 1024

inductive ConnPc
  | reading
  | peer (n : UInt64)
  | ended
  deriving DecidableEq, Repr

/-- One task running `tcp_recv_loop`. -/
structure Conn where
  ip : IpAddr
  /-- The host whose counters `peer_stats` is. -/
  peer : Option UInt32
  pc : ConnPc
  /-- History: the bytes read. -/
  got : Nat
  deriving DecidableEq

structure TcpIo where
  counters : Counters
  cancelled : Bool
  /-- What a task holds as its own `counters` and `cancelled` is overwritten before it moves. -/
  senders : List TcpSend
  conns : List Conn
  targets : List Target

inductive TcpIoLabel
  | task (i : Nat) (l : TcpLabel)
  | spawn
  | cancel
  | accept (ip : IpAddr)
  | read (i n : Nat)
  | step (i : Nat)
  /-- The end of the stream, an error or the cancellation. -/
  | close (i : Nat)

def TcpIo.init (cfg : Config) (assignment : Assignment) : TcpIo where
  counters := Counters.new cfg.hostlist
  cancelled := false
  senders := []
  conns := []
  targets := assignment.targets

def tcpIo (cfg : Config) (payload : Payload) (ipToId : IpAddr → Option UInt32) :
    Machine TcpIo TcpIoLabel where
  step s
    | .task i l => do
        let w ← s.senders[i]?
        let w ← tcpSend.step { w with counters := s.counters, cancelled := s.cancelled } l
        some { s with counters := w.counters, cancelled := w.cancelled, senders := s.senders.set i w }
    | .spawn =>
        match s.targets with
        | [] => none
        | t :: targets =>
            let tasks := List.replicate cfg.workers.toNat (TcpSend.init s.counters t.id payload)
            some { s with senders := s.senders ++ tasks, targets := targets }
    | .cancel => some { s with cancelled := true }
    | .accept ip =>
        let peer := (ipToId ip).filter fun id => (s.counters.peer id).isSome
        some { s with conns := s.conns ++ [⟨ip, peer, .reading, 0⟩] }
    | .read i n => do
        let c ← s.conns[i]?
        if c.pc = .reading ∧ 0 < n ∧ n ≤ recvBuf then
          let bytes := UInt64.ofNat n
          let pc := if c.peer.isSome then .peer bytes else .reading
          some { s with
            counters := s.counters.onTotal (·.addRecv bytes 0)
            conns := s.conns.set i { c with pc := pc, got := c.got + n } }
        else none
    | .step i => do
        let c ← s.conns[i]?
        match c.pc, c.peer with
        | .peer bytes, some id =>
            some { s with
              counters := s.counters.onPeer id (·.addRecv bytes 0)
              conns := s.conns.set i { c with pc := .reading } }
        | _, _ => none
    | .close i => do
        let c ← s.conns[i]?
        if c.pc = .reading then some { s with conns := s.conns.set i { c with pc := .ended } } else none

end Tperf.Dataplane
