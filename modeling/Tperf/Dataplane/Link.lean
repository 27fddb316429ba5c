import Tperf.Dataplane.Basic
import Tperf.Dataplane.Lemmas.Packet

/-!
# A sender and a receiver

Server `a` sends to server `b` over a FIFO network, in two consecutive tests. Each server replaces its
test when it processes the second Start.
-/

namespace Tperf.Dataplane
open Lib

structure Pairing where
  hosts : List Str
  a : UInt32
  b : UInt32
  payload : Payload
  workers : Nat
  a_lt : a.toNat < hosts.length
  b_lt : b.toNat < hosts.length
  ne : a ≠ b

def Pairing.sender (c : Pairing) : Sender where
  test := spawnUdp c.hosts c.a
  workers := List.replicate c.workers (UdpWorker.init c.b c.payload)

def Pairing.receiver (c : Pairing) : UdpTest := spawnUdp c.hosts c.b

/-- A datagram carries no test number; the flag, history, says that the second test of `a` sent it. -/
structure Link where
  a : Sender
  b : UdpTest
  secondA : Bool
  secondB : Bool
  queue : List (Bool × List UInt8)
  /-- History: what the current test of `b` received. -/
  arrived : List (Bool × List UInt8)
  deriving DecidableEq

inductive LinkLabel
  | a (l : SenderLabel)
  | deliver
  | lose
  | restartA
  | restartB
  deriving DecidableEq, Repr

def Pairing.init (c : Pairing) : Link where
  a := c.sender
  b := c.receiver
  secondA := false
  secondB := false
  queue := []
  arrived := []

/-- The datagrams of `a'` that `a` had not sent yet. -/
def Sender.fresh (a a' : Sender) : List Datagram := a'.test.wire.drop a.test.wire.length

def link (c : Pairing) : Machine Link LinkLabel where
  step s
    | .a l => (sender.step s.a l).map fun a' =>
        { s with
          a := a'
          queue := s.queue ++ (s.a.fresh a').map fun d => (s.secondA, d.bytes) }
    | .deliver =>
        match s.queue with
        | [] => none
        | d :: q => some { s with b := s.b.recv d.2, queue := q, arrived := s.arrived ++ [d] }
    | .lose =>
        match s.queue with
        | [] => none
        | _ :: q => some { s with queue := q }
    | .restartA => if s.secondA then none else some { s with a := c.sender, secondA := true }
    | .restartB =>
        if s.secondB then none
        else some { s with b := c.receiver, secondB := true, arrived := [] }

namespace Link

/-- The numbers the current test of `b` received, in order. -/
def numbers (s : Link) : List Nat := s.arrived.map fun d => seqOf d.2

/-- Those that the first or the second test of `a` sent. -/
def numbersOf (s : Link) (second : Bool) : List Nat :=
  (s.arrived.filter fun d => d.1 == second).map fun d => seqOf d.2

end Link

/-- The number a task has taken for a datagram that the socket has not accepted yet. -/
def UdpWorker.held (w : UdpWorker) : Option UInt64 :=
  match w.pc with
  | .sending _ seq => some seq
  | _ => none

def Sender.held (s : Sender) (i : Nat) : Option UInt64 := s.workers[i]?.bind UdpWorker.held

/-- Every `send_to` succeeds, and the network delivers everything. -/
def lossless (s : Link) : LinkLabel → Bool
  | .a (.worker _ .sendErr) => false
  | .a (.worker i .abort) => (s.a.held i).isNone
  | .lose | .restartA | .restartB => false
  | _ => true

/-- Moreover no task hands over a datagram while another holds a smaller number. -/
def inOrder (s : Link) (l : LinkLabel) : Bool :=
  lossless s l &&
    match l with
    | .a (.worker i .sendOk) =>
        (s.a.held i).all fun x => s.a.workers.all fun w => w.held.all fun y => x ≤ y
    | _ => true

end Tperf.Dataplane
