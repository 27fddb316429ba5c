import Tperf.Lib.Text

/-!
# Messages of the control connection

`f64` rates are exact rationals.
-/

namespace Tperf.Proto
open Lib

structure Target where
  name : Str
  id : UInt32
  addr : Str
  deriving DecidableEq, Repr

structure Assignment where
  selfName : Str
  selfId : UInt32
  bind : Str
  targets : List Target
  deriving DecidableEq, Repr

structure PeerMetrics where
  peer : Str
  bytesSent : UInt64
  bytesRecv : UInt64
  packetsSent : UInt64
  packetsRecv : UInt64
  packetsDropped : UInt64
  deriving DecidableEq, Repr

structure MetricWindow where
  server : Str
  wallStartNs : UInt64
  wallEndNs : UInt64
  durationNs : UInt64
  bytesSent : UInt64
  bytesRecv : UInt64
  sendBps : Rat
  recvBps : Rat
  packetsSent : UInt64
  packetsRecv : UInt64
  packetsDropped : UInt64
  cpuPct : Rat
  memoryBytes : UInt64
  peers : List PeerMetrics
  deriving DecidableEq

inductive Network
  | tcp
  | udp
  deriving DecidableEq, Repr

inductive TestType
  | pairs
  | mesh
  deriving DecidableEq, Repr

structure Config where
  clientAddr : Str
  testAddr : Str
  network : Network
  payloadSize : UInt64
  workers : UInt32
  testType : TestType
  hostlist : List Str
  hostlistRaw : List Str
  tag : Str
  deriving DecidableEq, Repr

inductive Msg
  | start (config : Config) (assignment : Assignment)
  | stop
  | ack (cmd : Str)
  | metrics (window : MetricWindow)
  | error (message : Str)
  deriving DecidableEq

end Tperf.Proto
