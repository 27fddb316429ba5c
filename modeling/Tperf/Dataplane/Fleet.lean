import Tperf.Dataplane.Io

/-!
# The hosts of a test

Every host runs the tasks of one test. A TCP connection carries what the socket of a send task has accepted
to the receive task of the host it dialled, in any number of reads, and may lose the end of it. Datagrams are
lost, doubled and delivered in any order, and anyone may send any datagram to a host.
-/

namespace Tperf.Dataplane
open Lib Proto

/-- What the hosts are given: they all hold the same config. -/
structure Site where
  cfg : Config
  payload : Payload
  assignment : Nat → Assignment
  few : cfg.hostlist.length ≤ 2 ^ 32
  targets : ∀ a, ∀ t ∈ (assignment a).targets, t.id.toNat < cfg.hostlist.length

def Site.hosts (S : Site) : Nat := S.cfg.hostlist.length

theorem Site.id_inj (S : Site) {a b : Nat} (ha : a < S.hosts) (hb : b < S.hosts) :
    UInt32.ofNat a = UInt32.ofNat b ↔ a = b := by
  have hfew := S.few
  rw [← UInt32.toNat_inj, UInt32.toNat_ofNat', UInt32.toNat_ofNat', Nat.mod_eq_of_lt (ha.trans_le hfew),
    Nat.mod_eq_of_lt (hb.trans_le hfew)]

theorem Site.id_toNat (S : Site) {a : Nat} (ha : a < S.hosts) : (UInt32.ofNat a).toNat = a := by
  rw [UInt32.toNat_ofNat', Nat.mod_eq_of_lt (ha.trans_le S.few)]

/-! ## TCP -/

/-- `lookup b` is what `lookup_host` tells the host `b`, and `source a b` is the address from which `a`
reaches `b`. -/
structure TcpSite extends Site where
  port : UInt16
  family : Option AddrFamily
  lookup : Nat → Nat → Str → Option (List SocketAddr)
  source : Nat → Nat → IpAddr

namespace TcpSite

variable (S : TcpSite)

def ipToId (b : Nat) : IpAddr → Option UInt32 := buildIpMap (S.lookup b) S.cfg.hostlist S.port S.family

def tcp (b : Nat) : Machine TcpIo TcpIoLabel := tcpIo S.cfg S.payload (S.ipToId b)

/-- Each host knows all hosts by the addresses they come from. -/
def Known : Prop := ∀ a b, a < S.hosts → b < S.hosts → S.ipToId b (S.source a b) = some (UInt32.ofNat a)

end TcpSite

/-- A connection that the task `task` of `src` has made to `dst`. -/
structure Pipe where
  src : Nat
  task : Nat
  dst : Nat
  /-- The receive task of `dst`, when the connection is accepted. -/
  conn : Option Nat
  /-- The bytes that the socket of the task has accepted and the receive task has not read. -/
  unread : Nat

structure TcpFleet where
  hosts : List TcpIo
  pipes : List Pipe

def TcpSite.init (S : TcpSite) : TcpFleet where
  hosts := (List.range S.hosts).map fun a => TcpIo.init S.cfg (S.assignment a)
  pipes := []

inductive TcpFleetLabel
  | host (a : Nat) (l : TcpIoLabel)
  /-- The connect of a task succeeds: the address it was given is that of the host its target names. -/
  | dial (a i : Nat)
  | write (p k : Nat)
  | accept (p : Nat)
  | read (p n : Nat)
  /-- A connection from an address that is not in the map. -/
  | stranger (b : Nat) (ip : IpAddr)
  | strangerRead (b j n : Nat)

/-- The steps of a host in which the network has no part. -/
def TcpIoLabel.isLocal : TcpIoLabel → Bool
  | .task _ .connected | .task _ (.accept _) | .accept _ | .read _ _ => false
  | _ => true

/-- The hosts after a step of `a`. -/
def TcpSite.move (S : TcpSite) (s : TcpFleet) (a : Nat) (l : TcpIoLabel) : Option (List TcpIo) := do
  let h ← s.hosts[a]?
  let h ← (S.tcp a).step h l
  some (s.hosts.set a h)

def tcpFleet (S : TcpSite) : Machine TcpFleet TcpFleetLabel where
  step s
    | .host a l =>
        if l.isLocal then (S.move s a l).map fun hosts => ⟨hosts, s.pipes⟩ else none
    | .dial a i => do
        let h ← s.hosts[a]?
        let w ← h.senders[i]?
        let hosts ← S.move s a (.task i .connected)
        some ⟨hosts, s.pipes ++ [⟨a, i, w.destId.toNat, none, 0⟩]⟩
    | .write p k => do
        let q ← s.pipes[p]?
        let hosts ← S.move s q.src (.task q.task (.accept k))
        some ⟨hosts, s.pipes.set p { q with unread := q.unread + k }⟩
    | .accept p => do
        let q ← s.pipes[p]?
        let h ← s.hosts[q.dst]?
        let hosts ← S.move s q.dst (.accept (S.source q.src q.dst))
        if q.conn = none then some ⟨hosts, s.pipes.set p { q with conn := some h.conns.length }⟩ else none
    | .read p n => do
        let q ← s.pipes[p]?
        let j ← q.conn
        let hosts ← S.move s q.dst (.read j n)
        if n ≤ q.unread then some ⟨hosts, s.pipes.set p { q with unread := q.unread - n }⟩ else none
    | .stranger b ip =>
        if S.ipToId b ip = none then (S.move s b (.accept ip)).map fun hosts => ⟨hosts, s.pipes⟩ else none
    | .strangerRead b j n => do
        let h ← s.hosts[b]?
        let c ← h.conns[j]?
        if c.peer = none then (S.move s b (.read j n)).map fun hosts => ⟨hosts, s.pipes⟩ else none

/-- The bytes between `a` and `b`. -/
def TcpFleet.unread (s : TcpFleet) (a b : Nat) : Nat :=
  (s.pipes.map fun q => if q.src = a ∧ q.dst = b then q.unread else 0).sum

/-! ## UDP -/

/-- A datagram that `src` has sent to the address of `dst`. -/
structure Packet where
  src : Nat
  dst : Nat
  bytes : List UInt8
  deriving DecidableEq

structure UdpFleet where
  hosts : List UdpIo
  air : List Packet
  /-- History: what the network has lost, and what it has doubled. -/
  lost : List Packet
  copied : List Packet
  /-- History: what a host has got from others than the hosts. -/
  strange : List (Nat × List UInt8)

def Site.initUdp (S : Site) : UdpFleet where
  hosts := (List.range S.hosts).map fun a => UdpIo.init S.cfg (S.assignment a)
  air := []
  lost := []
  copied := []
  strange := []

inductive UdpFleetLabel
  | host (a : Nat) (l : UdpIoLabel)
  | deliver (p : Nat)
  | lose (p : Nat)
  | copy (p : Nat)
  /-- A datagram that no host has sent, whatever sender id it bears. -/
  | stranger (b : Nat) (dgram : List UInt8)

def UdpIoLabel.isLocal : UdpIoLabel → Bool
  | .recv (.datagram _) => false
  | _ => true

/-- What the step of `a` from `H` to `H'` has sent. -/
def sentBy (a : Nat) (H H' : UdpIo) : List Packet :=
  (H'.send.test.wire.drop H.send.test.wire.length).map fun d => ⟨a, d.dest.toNat, d.bytes⟩

def udpFleet (S : Site) : Machine UdpFleet UdpFleetLabel where
  step s
    | .host a l =>
        if l.isLocal then do
          let H ← s.hosts[a]?
          let H' ← (udpIo S.cfg S.payload).step H l
          some { s with hosts := s.hosts.set a H', air := s.air ++ sentBy a H H' }
        else none
    | .deliver p => do
        let q ← s.air[p]?
        let H ← s.hosts[q.dst]?
        let H' ← (udpIo S.cfg S.payload).step H (.recv (.datagram q.bytes))
        some { s with hosts := s.hosts.set q.dst H', air := s.air.eraseIdx p }
    | .lose p => do
        let q ← s.air[p]?
        some { s with air := s.air.eraseIdx p, lost := s.lost ++ [q] }
    | .copy p => do
        let q ← s.air[p]?
        some { s with air := s.air ++ [q], copied := s.copied ++ [q] }
    | .stranger b dgram => do
        let H ← s.hosts[b]?
        let H' ← (udpIo S.cfg S.payload).step H (.recv (.datagram dgram))
        some { s with hosts := s.hosts.set b H', strange := s.strange ++ [(b, dgram)] }

end Tperf.Dataplane
